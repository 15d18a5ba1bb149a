import SlotTree.Json.Tagged
import SlotTree.Proofs.Maps

/-!
# Tagged values read back

What is found of a tagged value among its fields, and what free-form data is when it is read back.

## Main results

* `Json.tagged?_object` — the kind and the body of a value that is written with its tag first.
* `Json.once?_cons_self`, `Json.once?_cons_of_ne` — how fields are found, one after the other.
* `Json.absentOr_map`, `Json.absentOr_optional` — values that may be left out.
* `Json.freeForm_json` — data in order stays as it is.
-/

namespace SlotTree

namespace Json

/-! ### Fields -/

@[simp]
theorem once?_nil (name : String) : once? name [] = some none := by
  rw [once?, List.filter_nil]

@[simp]
theorem once?_cons_of_ne {name k : String} (h : k ≠ name) (v : Json)
    (rest : List (String × Json)) : once? name ((k, v) :: rest) = once? name rest := by
  rw [once?, once?, List.filter_cons_of_neg (by simpa using h)]

theorem once?_eq_none_iff {name : String} {fields : List (String × Json)} :
    once? name fields = some none ↔ fields.filter (fun f => f.1 = name) = [] := by
  unfold once?
  split
  · next heq => simp [heq]
  · next heq => simp [heq]
  · next hne _ => simpa using fun heq => hne heq

/-- The value of a field whose name does not occur again. -/
@[simp]
theorem once?_cons_self {name : String} {v : Json} {rest : List (String × Json)}
    (h : once? name rest = some none) :
    once? name ((name, v) :: rest) = some (some v) := by
  rw [once?, List.filter_cons_of_pos (by simp), once?_eq_none_iff.mp h]

/-! ### Tags -/

/-- The kind and the body of a value that is written with its tag first. -/
theorem tagged?_object {κ : Type} {key : String} {kinds : List κ} {tag : κ → String}
    {inside : Bool} {kind : κ} {fields : List (String × Json)}
    (hkind : (kinds.find? fun k => tag k = tag kind) = some kind)
    (hfields : once? key fields = some none) :
    tagged? key kinds tag inside (.object ((key, .string (tag kind)) :: fields)) =
      some (kind, .named fields) := by
  have hrest : fields.filter (fun f => f.1 ≠ key) = fields := by
    have hnone := List.filter_eq_nil_iff.mp (once?_eq_none_iff.mp hfields)
    exact List.filter_eq_self.mpr fun f hf => by simpa using hnone f hf
  rw [tagged?, once?_cons_self hfields, List.filter_cons_of_neg (by simp), hrest]
  simp only [kindOfTag?, hkind, Option.map_some]

/-! ### Values that may be left out -/

variable {α : Type} {f : Json → Option α} {encode : α → Json}

@[simp]
theorem absentOr_null : absentOr f (some .null) = some none := rfl

/-- A field that is left out when it has no value. -/
theorem absentOr_map {o : Option α} (h : ∀ a ∈ o, f (encode a) = some a)
    (hnull : ∀ a, encode a ≠ .null) : absentOr f (o.map encode) = some o := by
  cases o with
  | none => rfl
  | some a =>
    rw [Option.map_some, absentOr, h a rfl, Option.map_some]
    exact hnull a

/-- A field that is null when it has no value. -/
theorem absentOr_optional {o : Option α} (h : ∀ a ∈ o, f (encode a) = some a)
    (hnull : ∀ a, encode a ≠ .null) : absentOr f (some (optional encode o)) = some o := by
  cases o with
  | none => rfl
  | some a => exact absentOr_map h hnull

/-! ### Free-form data -/

mutual

/-- Data in order stays as it is. -/
theorem normalize_of_canonical : ∀ v : Json, v.canonical = true → v.normalize = v
  | .null, _ | .bool _, _ | .number _, _ | .string _, _ => by simp [normalize]
  | .array items, h => by
    rw [canonical] at h
    rw [normalize, normalizeItems_of_canonical items h]
  | .object fields, h => by
    rw [canonical, Bool.and_eq_true, decide_eq_true_eq] at h
    rw [normalize, normalizeFields_of_canonical fields [] h.1 h.2, List.nil_append]

theorem normalizeItems_of_canonical :
    ∀ items : List Json, canonicalItems items = true → normalizeItems items = items
  | [], _ => rfl
  | v :: rest, h => by
    rw [canonicalItems, Bool.and_eq_true] at h
    rw [normalizeItems, normalize_of_canonical v h.1, normalizeItems_of_canonical rest h.2]

theorem normalizeFields_of_canonical : ∀ fields sofar : List (String × Json),
    Ascending (sofar ++ fields) → canonicalFields fields = true →
      normalizeFields sofar fields = sofar ++ fields
  | [], sofar, _, _ => by simp [normalizeFields]
  | (k, v) :: rest, sofar, ha, hc => by
    rw [canonicalFields, Bool.and_eq_true] at hc
    have hlt : ∀ e ∈ sofar, e.1 < k := fun e he =>
      (List.pairwise_append.mp ha).2.2 e he (k, v) List.mem_cons_self
    rw [List.append_cons] at ha ⊢
    rw [normalizeFields, normalize_of_canonical v hc.1, insertEntry_of_forall_lt hlt,
      normalizeFields_of_canonical rest _ ha hc.2]

end

@[simp]
theorem freeForm_json (v : FreeForm) : v.json.freeForm = v := by
  cases v with
  | mk v h => simp only [freeForm, normalize_of_canonical v h]

end Json

end SlotTree
