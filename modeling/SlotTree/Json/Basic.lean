import SlotTree.Json.Number
import SlotTree.Map.Sorted

/-!
# JSON values

`Json` is a value with its object fields in the order in which they were written, a repeated name
included.  This is what encoders produce and what is printed.

`FreeForm` is a value whose meaning is the data alone: in every object the names are distinct and
ascend by code point.  `Json.freeForm` brings any value into that form; of a repeated name the last
value counts.

## Main definitions

* `Json` — values.
* `Json.field?` — look a field up by its name.
* `Json.canonical` — whether all objects are in order.
* `FreeForm`, `Json.freeForm` — values in order, and how a value gets there.
* `Json.equals` — equality of data, numbers by value.

## Main results

* `Json.canonical_normalize` — bringing into order does.
-/

namespace SlotTree

/-- A JSON value. -/
inductive Json where
  /-- The null value. -/
  | null : Json
  /-- A truth value. -/
  | bool (b : Bool) : Json
  /-- A number. -/
  | number (n : Number) : Json
  /-- A text. -/
  | string (s : String) : Json
  /-- A list of values. -/
  | array (items : List Json) : Json
  /-- Named values, in order. -/
  | object (fields : List (String × Json)) : Json
  deriving Repr, Inhabited

namespace Json

/-- A natural number as a value, where it fits. -/
def natural (n : Nat) : Json := ((Number.ofInt? n).map Json.number).getD .null

/-- An integer as a value, where it fits. -/
def integer (n : Int) : Json := ((Number.ofInt? n).map Json.number).getD .null

/-- A binary64 number as a value; one that is not finite has no value but null. -/
def float (x : Binary64) : Json := ((Number.ofBinary64? x).map Json.number).getD .null

/-- A value that may be absent, null standing for its absence. -/
def optional {α : Type} (encode : α → Json) : Option α → Json
  | none => .null
  | some a => encode a

/-- A field of an encoded record that is left out when it has no value. -/
def present {α : Type} (name : String) (encode : α → Json) (value : Option α) :
    List (String × Json) :=
  (value.map fun a => (name, encode a)).toList

/-- A list of texts as a value. -/
def strings (ss : List String) : Json := .array (ss.map .string)

/-- The value of the first field with a name, if the value is an object that has one. -/
def field? (name : String) : Json → Option Json
  | .object fields => List.lookup name fields
  | _ => none

/-! ### Objects in order -/

mutual

/-- The value with the fields of every object in order, of a repeated name the last value. -/
def normalize : Json → Json
  | .null => .null
  | .bool b => .bool b
  | .number n => .number n
  | .string s => .string s
  | .array items => .array (normalizeItems items)
  | .object fields => .object (normalizeFields [] fields)

/-- The values of a list, each brought into order. -/
def normalizeItems : List Json → List Json
  | [] => []
  | v :: rest => normalize v :: normalizeItems rest

/-- Fields put one after the other among fields in order. -/
def normalizeFields (sofar : List (String × Json)) : List (String × Json) → List (String × Json)
  | [] => sofar
  | (k, v) :: rest => normalizeFields (insertEntry k (normalize v) sofar) rest

end

mutual

/-- Whether the names of every object ascend. -/
def canonical : Json → Bool
  | .null => true
  | .bool _ => true
  | .number _ => true
  | .string _ => true
  | .array items => canonicalItems items
  | .object fields => decide (Ascending fields) && canonicalFields fields

/-- Whether all values of a list are in order. -/
def canonicalItems : List Json → Bool
  | [] => true
  | v :: rest => canonical v && canonicalItems rest

/-- Whether all values of fields are in order. -/
def canonicalFields : List (String × Json) → Bool
  | [] => true
  | (_, v) :: rest => canonical v && canonicalFields rest

end

theorem canonicalFields_insertEntry {k : String} {v : Json} {fs : List (String × Json)}
    (hv : canonical v = true) (h : canonicalFields fs = true) :
    canonicalFields (insertEntry k v fs) = true := by
  induction fs with
  | nil => simp [insertEntry, canonicalFields, hv]
  | cons f rest ih =>
    obtain ⟨k', v'⟩ := f
    simp only [canonicalFields, Bool.and_eq_true] at h
    unfold insertEntry
    split
    · simp [canonicalFields, hv, h.1, h.2]
    · split
      · simp [canonicalFields, hv, h.2]
      · simp [canonicalFields, h.1, ih h.2]

mutual

theorem canonical_normalize : ∀ v : Json, canonical (normalize v) = true
  | .null => by simp [normalize, canonical]
  | .bool _ => by simp [normalize, canonical]
  | .number _ => by simp [normalize, canonical]
  | .string _ => by simp [normalize, canonical]
  | .array items => by simp [normalize, canonical, canonicalItems_normalizeItems items]
  | .object fields => by
    have h := canonicalFields_normalizeFields fields [] List.Pairwise.nil
      (by simp [canonicalFields])
    simp [normalize, canonical, h.1, h.2]

theorem canonicalItems_normalizeItems :
    ∀ items : List Json, canonicalItems (normalizeItems items) = true
  | [] => by simp [normalizeItems, canonicalItems]
  | v :: rest => by
    simp [normalizeItems, canonicalItems, canonical_normalize v, canonicalItems_normalizeItems rest]

theorem canonicalFields_normalizeFields :
    ∀ (fields sofar : List (String × Json)), Ascending sofar → canonicalFields sofar = true →
      Ascending (normalizeFields sofar fields) ∧
        canonicalFields (normalizeFields sofar fields) = true
  | [], _, ha, hc => by simp [normalizeFields, ha, hc]
  | (k, v) :: rest, sofar, ha, hc => by
    unfold normalizeFields
    exact canonicalFields_normalizeFields rest _ (ascending_insertEntry ha)
      (canonicalFields_insertEntry (canonical_normalize v) hc)

end

/-! ### Equality of data -/

mutual

/-- Whether two values in order are the same data: numbers are compared by value. -/
def equals : Json → Json → Bool
  | .null, .null => true
  | .bool a, .bool b => a = b
  | .number m, .number n => m.equals n
  | .string s, .string t => s = t
  | .array xs, .array ys => equalItems xs ys
  | .object fs, .object gs => equalFields fs gs
  | _, _ => false

/-- Whether two lists of values are the same data. -/
def equalItems : List Json → List Json → Bool
  | [], [] => true
  | x :: xs, y :: ys => equals x y && equalItems xs ys
  | _, _ => false

/-- Whether two lists of fields are the same data. -/
def equalFields : List (String × Json) → List (String × Json) → Bool
  | [], [] => true
  | (k, x) :: xs, (l, y) :: ys => k = l && equals x y && equalFields xs ys
  | _, _ => false

end

end Json

/-- A value whose objects are all in order. -/
structure FreeForm where
  /-- The value. -/
  json : Json
  /-- The names of every object ascend. -/
  canonical : json.canonical = true
  deriving Repr

instance : Inhabited FreeForm := ⟨⟨.null, by simp [Json.canonical]⟩⟩

/-- The data of a value. -/
def Json.freeForm (v : Json) : FreeForm := ⟨v.normalize, v.canonical_normalize⟩

end SlotTree
