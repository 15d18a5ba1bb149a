import SlotTree.Json.Token

/-!
# Indented JSON text

The text of a value over several lines: every item and every field on a line of its own, indented by
two blanks for each list or object around it.  Empty lists and objects stay on one line.

## Main definitions

* `Json.pretty` — the indented text of a value.
-/

namespace SlotTree.Json

/-- A new line at some depth. -/
def newLine (depth : Nat) : List Char := '\n' :: List.replicate (2 * depth) ' '

mutual

/-- The indented text of a value that stands at some depth. -/
def prettyAt (depth : Nat) : Json → List Char
  | .array [] => ['[', ']']
  | .array (v :: rest) => '[' :: (prettyItems (depth + 1) (v :: rest) ++ newLine depth ++ [']'])
  | .object [] => ['\x7b', '\x7d']
  | .object (f :: rest) =>
    '\x7b' :: (prettyFields (depth + 1) (f :: rest) ++ newLine depth ++ ['\x7d'])
  | .null => Token.write .null
  | .bool b => Token.write (.bool b)
  | .number n => Token.write (.number (some n))
  | .string s => Token.write (.string (some s))

/-- The items of a list, each on its line. -/
def prettyItems (depth : Nat) : List Json → List Char
  | [] => []
  | [v] => newLine depth ++ prettyAt depth v
  | v :: rest => newLine depth ++ prettyAt depth v ++ ',' :: prettyItems depth rest

/-- The fields of an object, each on its line. -/
def prettyFields (depth : Nat) : List (String × Json) → List Char
  | [] => []
  | [(k, v)] => newLine depth ++ Text.quote k.toList ++ ':' :: ' ' :: prettyAt depth v
  | (k, v) :: rest =>
    newLine depth ++ Text.quote k.toList ++ ':' :: ' ' :: prettyAt depth v ++
      ',' :: prettyFields depth rest

end

/-- The indented text of a value. -/
def pretty (v : Json) : String := String.ofList (v.prettyAt 0)

end SlotTree.Json
