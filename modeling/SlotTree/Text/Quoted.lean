/-!
# Quoted text

A text in quotes, with escapes: how it is written (`quote`), and how it is read (`unquote`).

Writing escapes the quote, the backslash and the characters below U+0020, and nothing else.  Reading
knows more spellings than writing uses: every character may be written as one or two 16-bit units in
hexadecimal.  Reading is therefore done in two steps.  `unquote` finds the end of the text and gives
its `Piece`s; `Piece.text?` joins units into characters, which fails when half of a surrogate pair
stands alone.  A reader that only passes over a text needs the first step and not the second.

## Main definitions

* `quote` — the written form of a text.
* `unquote` — the pieces of a quoted text, and what follows it.
* `Piece.text?` — the text that the pieces spell.
-/

namespace SlotTree.Text

/-! ### Writing -/

/-- The lower-case hexadecimal digit of a number below sixteen. -/
def hexDigit (n : Nat) : Char :=
  if n < 10 then Char.ofNat ('0'.toNat + n) else Char.ofNat ('a'.toNat + (n - 10))

/-- A character as it stands between the quotes. -/
def escape (c : Char) : List Char :=
  match c with
  | '"' => ['\\', '"']
  | '\\' => ['\\', '\\']
  | '\x08' => ['\\', 'b']
  | '\t' => ['\\', 't']
  | '\n' => ['\\', 'n']
  | '\x0c' => ['\\', 'f']
  | '\r' => ['\\', 'r']
  | c =>
    if c.toNat < 0x20 then
      ['\\', 'u', '0', '0', hexDigit (c.toNat / 16), hexDigit (c.toNat % 16)]
    else [c]

/-- A text between quotes, its characters escaped. -/
def quote (cs : List Char) : List Char :=
  '"' :: (cs.flatMap escape ++ ['"'])

/-! ### Reading -/

/-- What stands at one place of a quoted text: a character, or a 16-bit unit given by its number. -/
inductive Piece where
  /-- A character, written as itself or by a short escape. -/
  | char (c : Char) : Piece
  /-- A unit, written as four hexadecimal digits. -/
  | unit (u : Nat) : Piece
  deriving DecidableEq, Repr, Inhabited

/-- The value of a hexadecimal digit, in either case. -/
def hexValue? (c : Char) : Option Nat :=
  if '0' ≤ c ∧ c ≤ '9' then some (c.toNat - '0'.toNat)
  else if 'a' ≤ c ∧ c ≤ 'f' then some (c.toNat - 'a'.toNat + 10)
  else if 'A' ≤ c ∧ c ≤ 'F' then some (c.toNat - 'A'.toNat + 10)
  else none

/-- The unit spelled by four hexadecimal digits. -/
def unitValue? (a b c d : Char) : Option Nat := do
  let a ← hexValue? a
  let b ← hexValue? b
  let c ← hexValue? c
  let d ← hexValue? d
  return ((a * 16 + b) * 16 + c) * 16 + d

/-- The character that a short escape stands for. -/
def shortEscape? : Char → Option Char
  | '"' => some '"'
  | '\\' => some '\\'
  | '/' => some '/'
  | 'b' => some '\x08'
  | 'f' => some '\x0c'
  | 'n' => some '\n'
  | 'r' => some '\r'
  | 't' => some '\t'
  | _ => none

/-- The pieces up to the closing quote, and what follows it.  The opening quote is already taken.  A
text that does not end, an unknown escape and a bare character below U+0020 are refused. -/
def unquote : List Char → Option (List Piece × List Char)
  | [] => none
  | '"' :: rest => some ([], rest)
  | '\\' :: 'u' :: a :: b :: c :: d :: rest =>
    match unitValue? a b c d, unquote rest with
    | some u, some (pieces, after) => some (.unit u :: pieces, after)
    | _, _ => none
  | '\\' :: e :: rest =>
    match shortEscape? e, unquote rest with
    | some c, some (pieces, after) => some (.char c :: pieces, after)
    | _, _ => none
  | c :: rest =>
    if c.toNat < 0x20 then none
    else
      match unquote rest with
      | some (pieces, after) => some (.char c :: pieces, after)
      | none => none

/-- The units that open a surrogate pair. -/
def isHighSurrogate (u : Nat) : Bool := 0xd800 ≤ u && u ≤ 0xdbff

/-- The units that close a surrogate pair. -/
def isLowSurrogate (u : Nat) : Bool := 0xdc00 ≤ u && u ≤ 0xdfff

/-- The character that a surrogate pair stands for. -/
def surrogatePair (high low : Nat) : Char :=
  Char.ofNat (0x10000 + (high - 0xd800) * 0x400 + (low - 0xdc00))

/-- The characters that the pieces spell; nothing if half of a surrogate pair stands alone. -/
def Piece.text? : List Piece → Option (List Char)
  | [] => some []
  | .char c :: rest => (Piece.text? rest).map (c :: ·)
  | .unit u :: rest =>
    if isHighSurrogate u then
      match rest with
      | .unit v :: rest =>
        if isLowSurrogate v then (Piece.text? rest).map (surrogatePair u v :: ·) else none
      | _ => none
    else if isLowSurrogate u then none
    else (Piece.text? rest).map (Char.ofNat u :: ·)

end SlotTree.Text
