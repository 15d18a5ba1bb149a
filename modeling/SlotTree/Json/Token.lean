import SlotTree.Json.Basic
import SlotTree.Text.Quoted

/-!
# Tokens of a JSON text

The marks, words, numbers and quoted texts that a JSON text consists of.

Scanning never fails as a whole.  It stops with the token `broken` at the first place where no token
can be read.  A number out of range, or a quoted text with half a surrogate pair, still is a token,
with no value: one can pass over it, but not use it.

## Main definitions

* `Token` — the tokens.
* `Token.scan` — the tokens of a text.
* `Token.write` — the text of a token.
* `Json.tokens` — the tokens a value is written with.
-/

namespace SlotTree

/-- A token of a JSON text. -/
inductive Token where
  /-- The mark that opens a list. -/
  | openArray : Token
  /-- The mark that closes a list. -/
  | closeArray : Token
  /-- The mark that opens an object. -/
  | openObject : Token
  /-- The mark that closes an object. -/
  | closeObject : Token
  /-- The mark between items, or between fields. -/
  | comma : Token
  /-- The mark between a name and its value. -/
  | colon : Token
  /-- The word for null. -/
  | null : Token
  /-- The word for a truth value. -/
  | bool (b : Bool) : Token
  /-- A numeral, with its number unless that is out of range. -/
  | number (n : Option Number) : Token
  /-- A quoted text, unless half of a surrogate pair stands alone in it. -/
  | string (s : Option String) : Token
  /-- A place where no token can be read. -/
  | broken : Token
  deriving DecidableEq, Repr, Inhabited

namespace Token

/-! ### Scanning -/

/-- The blanks between tokens. -/
def isBlank (c : Char) : Bool := c = ' ' || c = '\t' || c = '\n' || c = '\r'

/-- The numeral at the start of a text as a token, and what follows it. -/
def scanNumber (cs : List Char) : Option (Token × List Char) := do
  let (t, rest) ← Numeral.scan cs
  return (.number t.value?, rest)

/-- The quoted text at the start of a text as a token, and what follows it.  The opening quote is
already taken. -/
def scanString (cs : List Char) : Option (Token × List Char) := do
  let (pieces, rest) ← Text.unquote cs
  return (.string ((Text.Piece.text? pieces).map String.ofList), rest)

/-- The token at the start of a text, and what follows it. -/
def scanOne : List Char → Option (Token × List Char)
  | '[' :: rest => some (.openArray, rest)
  | ']' :: rest => some (.closeArray, rest)
  | '\x7b' :: rest => some (.openObject, rest)
  | '\x7d' :: rest => some (.closeObject, rest)
  | ',' :: rest => some (.comma, rest)
  | ':' :: rest => some (.colon, rest)
  | '"' :: rest => scanString rest
  | 'n' :: 'u' :: 'l' :: 'l' :: rest => some (.null, rest)
  | 't' :: 'r' :: 'u' :: 'e' :: rest => some (.bool true, rest)
  | 'f' :: 'a' :: 'l' :: 's' :: 'e' :: rest => some (.bool false, rest)
  | cs => scanNumber cs

/-- At most so many tokens of a text.  Every token but `broken` takes a character at least, so the
length of the text suffices. -/
def scanUpTo : Nat → List Char → List Token
  | 0, _ => []
  | n + 1, cs =>
    match cs.dropWhile isBlank with
    | [] => []
    | c :: rest =>
      match scanOne (c :: rest) with
      | some (t, after) => t :: scanUpTo n after
      | none => [.broken]

/-- The tokens of a text. -/
def scan (s : String) : List Token := scanUpTo s.toList.length s.toList

/-! ### Writing -/

/-- The text of a token.  A token without a value has none. -/
def write : Token → List Char
  | .openArray => ['[']
  | .closeArray => [']']
  | .openObject => ['\x7b']
  | .closeObject => ['\x7d']
  | .comma => [',']
  | .colon => [':']
  | .null => ['n', 'u', 'l', 'l']
  | .bool true => ['t', 'r', 'u', 'e']
  | .bool false => ['f', 'a', 'l', 's', 'e']
  | .number (some n) => n.write
  | .string (some s) => Text.quote s.toList
  | .number none | .string none | .broken => []

end Token

namespace Json

mutual

/-- The tokens of a value. -/
def tokens : Json → List Token
  | .null => [.null]
  | .bool b => [.bool b]
  | .number n => [.number (some n)]
  | .string s => [.string (some s)]
  | .array items => .openArray :: (itemTokens items ++ [.closeArray])
  | .object fields => .openObject :: (fieldTokens fields ++ [.closeObject])

/-- The tokens of the items of a list, a comma between two. -/
def itemTokens : List Json → List Token
  | [] => []
  | [v] => tokens v
  | v :: rest => tokens v ++ .comma :: itemTokens rest

/-- The tokens of the fields of an object, a comma between two. -/
def fieldTokens : List (String × Json) → List Token
  | [] => []
  | [(k, v)] => .string (some k) :: .colon :: tokens v
  | (k, v) :: rest => .string (some k) :: .colon :: (tokens v ++ .comma :: fieldTokens rest)

end

/-- The text of a value, without blanks. -/
def compact (v : Json) : String := String.ofList (v.tokens.flatMap Token.write)

end Json

end SlotTree
