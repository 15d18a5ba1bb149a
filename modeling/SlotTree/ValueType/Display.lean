import SlotTree.ValueType.Basic

/-!
# Types as text

How a type is shown: `string`, `number[]`, `{ name: type; … }`, `a | b`, `(params) => result`.  The
element type of a list stands in parentheses when it is a union or a function.

## Main definitions

* `ValueType.display` — the text of a type.
-/

namespace SlotTree.ValueType

/-- Whether a type needs parentheses in front of the list brackets. -/
def isLoose : ValueType → Bool
  | .union _ | .function _ _ => true
  | _ => false

mutual

/-- The text of a type. -/
def display : ValueType → String
  | .any => "any"
  | .string => "string"
  | .number => "number"
  | .boolean => "boolean"
  | .null => "null"
  | .undefined => "undefined"
  | .void => "void"
  | .array t => if t.isLoose then "(" ++ display t ++ ")[]" else display t ++ "[]"
  | .tuple ts => "[" ++ displayJoined ", " ts ++ "]"
  | .object ps => "\x7b " ++ displayProperties ps ++ " \x7d"
  | .union ts => displayJoined " | " ts
  | .function ts t => "(" ++ displayJoined ", " ts ++ ") => " ++ display t
  | .entity name => name

/-- The texts of types with a separator between two. -/
def displayJoined (separator : String) : List ValueType → String
  | [] => ""
  | [t] => display t
  | t :: rest => display t ++ separator ++ displayJoined separator rest

/-- The texts of properties with a semicolon between two. -/
def displayProperties : List (String × ValueType) → String
  | [] => ""
  | [(name, t)] => name ++ ": " ++ display t
  | (name, t) :: rest => name ++ ": " ++ display t ++ "; " ++ displayProperties rest

end

end SlotTree.ValueType
