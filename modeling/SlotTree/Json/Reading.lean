import SlotTree.Json.Token

/-!
# Reading a JSON text

A `Reading` is the tree that a text spells, as far as it can be read.  A text that breaks off, or
goes wrong somewhere, still has a reading; the lists and objects around that place are marked as
incomplete, and nothing is read behind it.  Decoders walk a reading from left to right, so that of
two faults the one that comes first in the text is the one that is reported.

A reading also keeps what can be passed over but not used: numbers out of range, texts with half a
surrogate pair, names of that kind, and any depth of nesting.  `Reading.json?` gives the value of a
reading in which none of this occurs.

## Main definitions

* `Reading` — the tree of a text.
* `Reading.ofText` — the reading of a text, and whether nothing follows it.
* `Reading.json?` — the value of a reading, nested at most so many levels.
-/

namespace SlotTree

/-- What has been read of a JSON text. -/
inductive Reading where
  /-- The null value. -/
  | null : Reading
  /-- A truth value. -/
  | bool (b : Bool) : Reading
  /-- A number, unless it is out of range. -/
  | number (n : Option Number) : Reading
  /-- A text, unless it holds half a surrogate pair. -/
  | string (s : Option String) : Reading
  /-- The items of a list, and whether the list was read to its end. -/
  | array (items : List Reading) (complete : Bool) : Reading
  /-- The fields of an object, and whether the object was read to its end. -/
  | object (fields : List (Option String × Reading)) (complete : Bool) : Reading
  /-- A place where no value stands. -/
  | broken : Reading
  deriving Repr, Inhabited

namespace Reading

/-- Whether a value was read to its end. -/
def isComplete : Reading → Bool
  | .array _ complete => complete
  | .object _ complete => complete
  | .broken => false
  | _ => true

/-! ### The tree of a list of tokens -/

/-- The rest of the tokens behind a value: none when the value was not read to its end. -/
def following (r : Reading × List Token) : List Token := if r.1.isComplete then r.2 else []

mutual

/-- The value at the start of some tokens, and what follows it.  The number bounds the steps; twice
the number of tokens suffices. -/
def take : Nat → List Token → Reading × List Token
  | 0, _ => (.broken, [])
  | _ + 1, [] => (.broken, [])
  | n + 1, t :: ts =>
    match t with
    | .null => (.null, ts)
    | .bool b => (.bool b, ts)
    | .number v => (.number v, ts)
    | .string s => (.string s, ts)
    | .openArray =>
      match ts with
      | .closeArray :: rest => (.array [] true, rest)
      | _ =>
        match takeItems n ts with
        | (items, complete, rest) => (.array items complete, rest)
    | .openObject =>
      match ts with
      | .closeObject :: rest => (.object [] true, rest)
      | _ =>
        match takeFields n ts with
        | (fields, complete, rest) => (.object fields complete, rest)
    | _ => (.broken, [])

/-- The items of a list behind its opening mark, whether it ends, and what follows it. -/
def takeItems : Nat → List Token → List Reading × Bool × List Token
  | 0, _ => ([], false, [])
  | n + 1, ts =>
    let v := take n ts
    match following v with
    | .comma :: rest =>
      match takeItems n rest with
      | (items, complete, rest) => (v.1 :: items, complete, rest)
    | .closeArray :: rest => ([v.1], true, rest)
    | _ => ([v.1], false, [])

/-- The fields of an object behind its opening mark, whether it ends, and what follows it. -/
def takeFields : Nat → List Token → List (Option String × Reading) × Bool × List Token
  | 0, _ => ([], false, [])
  | n + 1, ts =>
    match ts with
    | .string k :: .colon :: ts =>
      let v := take n ts
      match following v with
      | .comma :: rest =>
        match takeFields n rest with
        | (fields, complete, rest) => ((k, v.1) :: fields, complete, rest)
      | .closeObject :: rest => ([(k, v.1)], true, rest)
      | _ => ([(k, v.1)], false, [])
    | _ => ([], false, [])

end

/-- The reading of a text, and whether nothing but blanks follows it. -/
def ofText (s : String) : Reading × Bool :=
  let ts := Token.scan s
  let v := take (2 * ts.length + 2) ts
  (v.1, v.1.isComplete && v.2.isEmpty)

/-! ### The value of a reading -/

mutual

/-- The value of a reading that has one, with at most so many lists and objects inside one
another. -/
def json? (levels : Nat) : Reading → Option Json
  | .null => some .null
  | .bool b => some (.bool b)
  | .number n => n.map .number
  | .string s => s.map .string
  | .array items complete =>
    if complete && 0 < levels then (itemValues? (levels - 1) items).map .array else none
  | .object fields complete =>
    if complete && 0 < levels then (fieldValues? (levels - 1) fields).map .object else none
  | .broken => none

/-- The values of the items of a list. -/
def itemValues? (levels : Nat) : List Reading → Option (List Json)
  | [] => some []
  | r :: rest =>
    match json? levels r, itemValues? levels rest with
    | some v, some vs => some (v :: vs)
    | _, _ => none

/-- The names and values of the fields of an object. -/
def fieldValues? (levels : Nat) : List (Option String × Reading) → Option (List (String × Json))
  | [] => some []
  | (k, r) :: rest =>
    match k, json? levels r, fieldValues? levels rest with
    | some k, some v, some vs => some ((k, v) :: vs)
    | _, _, _ => none

end

/-- The number of lists and objects that may stand inside one another. -/
def maxLevels : Nat := 127

end Reading

end SlotTree
