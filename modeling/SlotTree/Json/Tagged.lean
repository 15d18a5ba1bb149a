import SlotTree.Json.Basic

/-!
# Tagged values

A value of a type with several kinds says which kind it is by a tag.  It is written as an object
with the tag among its fields, at any place, or as a list that starts with the tag and goes on with
the other fields in their order.  Inside another tagged value the tag may also be given by its
position among the tags, counted from zero.

## Main definitions

* `Body` — what there is beside the tag.
* `Json.tagged?` — the kind and the body of a tagged value.
* `Body.fields?` — the values of the fields of a body.
-/

namespace SlotTree

/-- What a tagged value holds beside its tag. -/
inductive Body where
  /-- Named fields, in any order. -/
  | named (fields : List (String × Json)) : Body
  /-- The values of the fields, in their order. -/
  | listed (items : List Json) : Body
  deriving Repr, Inhabited

namespace Json

variable {κ : Type}

/-- The kind with a tag. -/
def kindOfTag? (kinds : List κ) (tag : κ → String) (inside : Bool) : Json → Option κ
  | .string s => kinds.find? fun k => tag k = s
  | .number n => if inside then n.natural? >>= fun i => kinds[i]? else none
  | _ => none

/-- The only value under a name: `none` if there are several, `some none` if there is no one. -/
def once? (name : String) (fields : List (String × Json)) : Option (Option Json) :=
  match fields.filter fun f => f.1 = name with
  | [] => some none
  | [f] => some (some f.2)
  | _ => none

/-- The kind and the body of a tagged value.  The tag stands under `key`, or first in a list. -/
def tagged? (key : String) (kinds : List κ) (tag : κ → String) (inside : Bool) :
    Json → Option (κ × Body)
  | .object fields =>
    match once? key fields with
    | some (some t) =>
      (kindOfTag? kinds tag inside t).map fun k => (k, .named (fields.filter fun f => f.1 ≠ key))
    | _ => none
  | .array (t :: items) => (kindOfTag? kinds tag inside t).map fun k => (k, .listed items)
  | _ => none

/-! ### Values of fields -/

/-- The text that a value is. -/
def string? : Json → Option String
  | .string s => some s
  | _ => none

/-- The truth value that a value is. -/
def bool? : Json → Option Bool
  | .bool b => some b
  | _ => none

/-- The list that a value is. -/
def array? : Json → Option (List Json)
  | .array items => some items
  | _ => none

/-- The binary64 number that a value is, integers rounded. -/
def binary64? : Json → Option Binary64
  | .number n => some n.toBinary64
  | _ => none

/-- The unsigned integer of 32 bits that a value is. -/
def uint32? : Json → Option UInt32
  | .number n =>
    match n.natural? with
    | some n => if n < UInt32.size then some (UInt32.ofNat n) else none
    | none => none
  | _ => none

/-- The value of a field that may be absent or null. -/
def absentOr {α : Type} (f : Json → Option α) : Option Json → Option (Option α)
  | none | some .null => some none
  | some v => (f v).map some

end Json

namespace Body

/-- The values of the fields with the given names.  A field given twice is refused, and so is a list
with more values than names; other fields are ignored. -/
def fields? (names : List String) : Body → Option (List (Option Json))
  | .named fields => names.mapM fun name => Json.once? name fields
  | .listed items =>
    if items.length ≤ names.length then
      some (items.map some ++ List.replicate (names.length - items.length) none)
    else none

/-- Whether the fields are given by a list. -/
def isListed : Body → Bool
  | .named _ => false
  | .listed _ => true

end Body

end SlotTree
