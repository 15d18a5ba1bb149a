import Mathlib.Data.List.Forall2
import SlotTree.Proofs.Json.Tagged
import SlotTree.Proofs.Maps

/-!
# Values with the same data

Two values have the same data if they are equal once they are in order: lists item by item, objects
field by field under each name, numbers by value.

## Main definitions

* `Json.Same` — values with the same data.
* `Json.sameField` — whether two values have the same data in a field.

## Main results

* `Json.same_array_iff`, `Json.Same.fields` — lists and objects with the same data.
* `Json.Same.optional` — values that may be absent with the same data.
-/

namespace SlotTree.Json

/-- Two values have the same data: in order they are equal, numbers by value. -/
def Same (v w : Json) : Prop := equals (normalize v) (normalize w) = true

/-! ### Values without parts -/

theorem same_string_iff {s t : String} : Same (.string s) (.string t) ↔ s = t := by
  rw [Same, normalize, normalize, equals, decide_eq_true_eq]

theorem same_bool_iff {a b : Bool} : Same (.bool a) (.bool b) ↔ a = b := by
  rw [Same, normalize, normalize, equals, decide_eq_true_eq]

theorem same_number_iff {m n : Number} :
    Same (.number m) (.number n) ↔ m.equals n = true := by
  rw [Same, normalize, normalize, equals]

/-- A natural number that fits into 64 bits is a number. -/
theorem natural_eq {n : Nat} (h : n < UInt64.size) :
    natural n = .number (.integer n ⟨by omega, by rw [UInt64.size] at h; omega⟩) := by
  rw [natural, Number.ofInt?, dif_pos]
  rfl

theorem natural_ne_null {n : Nat} (h : n < UInt64.size) : natural n ≠ .null := by
  rw [natural_eq h]
  nofun

theorem same_natural_iff {m n : Nat} (hm : m < UInt64.size) (hn : n < UInt64.size) :
    Same (natural m) (natural n) ↔ m = n := by
  rw [natural_eq hm, natural_eq hn, same_number_iff, Number.equals, decide_eq_true_eq,
    Int.ofNat_inj]

/-! ### Values that may be absent -/

/-- Only null has the data of null. -/
theorem Same.eq_null_iff {v w : Json} (h : Same v w) : v = .null ↔ w = .null := by
  cases v <;> cases w <;> simp [Same, normalize, equals] at h ⊢

theorem exists_of_rel {α β : Type} {R : α → β → Prop} {a : Option α} {b : Option β}
    (h : Option.Rel R a b) {x : α} (hx : a = some x) : ∃ y, b = some y ∧ R x y := by
  subst hx
  cases h with
  | some hxy => exact ⟨_, rfl, hxy⟩

theorem rel_imp {α β : Type} {R S : α → β → Prop} {a : Option α} {b : Option β}
    (h : Option.Rel R a b) (hRS : ∀ x ∈ a, ∀ y ∈ b, R x y → S x y) : Option.Rel S a b := by
  cases h with
  | none => exact .none
  | some hxy => exact .some (hRS _ rfl _ rfl hxy)

/-- What relates the images relates the values. -/
theorem rel_of_rel_map {α β : Type} {R : β → β → Prop} {f : α → β} {a b : Option α}
    (h : Option.Rel R (a.map f) (b.map f)) : Option.Rel (fun x y => R (f x) (f y)) a b := by
  cases a <;> cases b <;> cases h
  · exact .none
  · exact .some ‹_›

/-- Values that may be absent have the same data only if both are absent, or both are there. -/
theorem Same.optional {α : Type} {f : α → Json} {a b : Option α} (ha : ∀ x ∈ a, f x ≠ .null)
    (hb : ∀ y ∈ b, f y ≠ .null) (h : Same (Json.optional f a) (Json.optional f b)) :
    Option.Rel (fun x y => Same (f x) (f y)) a b := by
  cases a with
  | none =>
    cases b with
    | none => exact .none
    | some y => exact absurd (h.eq_null_iff.mp rfl) (hb y rfl)
  | some x =>
    cases b with
    | none => exact absurd (h.eq_null_iff.mpr rfl) (ha x rfl)
    | some y => exact .some h

/-- Values that may be absent are the same if they have the same data, and are known by it. -/
theorem Same.optional_inj {α : Type} {f : α → Json} {a b : Option α} (ha : ∀ x ∈ a, f x ≠ .null)
    (hb : ∀ y ∈ b, f y ≠ .null) (hf : ∀ x ∈ a, ∀ y ∈ b, Same (f x) (f y) → x = y)
    (h : Same (Json.optional f a) (Json.optional f b)) : a = b := by
  cases a with
  | none =>
    cases b with
    | none => rfl
    | some y => cases h.optional ha hb
  | some x =>
    cases b with
    | none => cases h.optional ha hb
    | some y =>
      cases h.optional ha hb with
      | some hxy => rw [hf x rfl y rfl hxy]

/-! ### Lists -/

theorem normalizeItems_eq (vs : List Json) : normalizeItems vs = vs.map normalize := by
  induction vs with
  | nil => rfl
  | cons v rest ih => rw [normalizeItems, ih, List.map_cons]

theorem equalItems_iff {vs : List Json} : ∀ {ws : List Json},
    equalItems vs ws = true ↔ List.Forall₂ (fun v w => equals v w = true) vs ws := by
  induction vs with
  | nil =>
    intro ws
    cases ws <;> simp [equalItems]
  | cons v rest ih =>
    intro ws
    cases ws with
    | nil => simp [equalItems]
    | cons w ws => rw [equalItems, Bool.and_eq_true, ih, List.forall₂_cons]

/-- Lists have the same data if their items do, one by one. -/
theorem same_array_iff {vs ws : List Json} :
    Same (.array vs) (.array ws) ↔ List.Forall₂ Same vs ws := by
  rw [Same, normalize, normalize, equals, equalItems_iff, normalizeItems_eq, normalizeItems_eq,
    List.forall₂_map_left_iff, List.forall₂_map_right_iff]
  rfl

/-! ### Objects -/

theorem normalizeFields_eq (fs : List (String × Json)) (m : SortedMap Json) :
    normalizeFields m.entries fs =
      ((fs.map fun f => (f.1, normalize f.2)).foldl (fun m e => m.insert e.1 e.2) m).entries := by
  induction fs generalizing m with
  | nil => rfl
  | cons f rest ih =>
    obtain ⟨k, v⟩ := f
    exact ih (m.insert k (normalize v))

/-- What stands under a name in an object in order, the names of the object being distinct. -/
theorem lookup_normalizeFields {fs : List (String × Json)} (hd : (fs.map Prod.fst).Nodup)
    (k : String) :
    List.lookup k (normalizeFields [] fs) = (List.lookup k fs).map normalize := by
  have hd' : ((fs.map fun f => (f.1, normalize f.2)).map Prod.fst).Nodup := by
    rw [List.map_map]
    exact hd
  refine (congrArg (List.lookup k) (normalizeFields_eq fs .empty)).trans ?_
  exact (SortedMap.get?_ofList hd' k).trans (lookup_map (fun _ v => normalize v) k fs)

theorem rel_lookup_of_equalFields : ∀ {fs gs : List (String × Json)},
    equalFields fs gs = true → ∀ k,
      Option.Rel (fun v w => equals v w = true) (List.lookup k fs) (List.lookup k gs)
  | [], [], _, _ => .none
  | (k, v) :: fs, (l, w) :: gs, h, j => by
    rw [equalFields, Bool.and_eq_true, Bool.and_eq_true, decide_eq_true_eq] at h
    obtain ⟨⟨rfl, hvw⟩, hrest⟩ := h
    rw [lookup_cons_eq_ite, lookup_cons_eq_ite]
    split
    · exact .some hvw
    · exact rel_lookup_of_equalFields hrest j

/-- A field of an object in order, the names of the object being distinct. -/
theorem field?_freeForm {fs : List (String × Json)} (hd : (fs.map Prod.fst).Nodup) (k : String) :
    (Json.object fs).freeForm.json.field? k = (List.lookup k fs).map normalize := by
  have hjson : (Json.object fs).freeForm.json = .object (normalizeFields [] fs) := by
    show normalize (.object fs) = _
    rw [normalize]
  rw [hjson, field?, lookup_normalizeFields hd]

/-- Whether two values have a field, and the same data in it. -/
def sameField (name : String) (v w : Json) : Bool :=
  match v.field? name, w.field? name with
  | some x, some y => equals x y
  | _, _ => false

/-- A field that two objects have, once they are in order. -/
theorem sameField_freeForm_iff {fs gs : List (String × Json)} (hf : (fs.map Prod.fst).Nodup)
    (hg : (gs.map Prod.fst).Nodup) {k : String} {v w : Json} (hv : List.lookup k fs = some v)
    (hw : List.lookup k gs = some w) :
    sameField k (Json.object fs).freeForm.json (Json.object gs).freeForm.json = true ↔
      Same v w := by
  rw [sameField, field?_freeForm hf, field?_freeForm hg, hv, hw]
  rfl

/-- Objects with the same data have the same data under each name, if no name is repeated. -/
theorem Same.fields {fs gs : List (String × Json)} (h : Same (.object fs) (.object gs))
    (hf : (fs.map Prod.fst).Nodup) (hg : (gs.map Prod.fst).Nodup) (k : String) :
    Option.Rel Same (List.lookup k fs) (List.lookup k gs) := by
  rw [Same, normalize, normalize, equals] at h
  have hrel := rel_lookup_of_equalFields h k
  rw [lookup_normalizeFields hf, lookup_normalizeFields hg] at hrel
  exact rel_of_rel_map (f := normalize) hrel

/-- The values of a field that both objects have. -/
theorem Same.field {fs gs : List (String × Json)} (h : Same (.object fs) (.object gs))
    (hf : (fs.map Prod.fst).Nodup) (hg : (gs.map Prod.fst).Nodup) (k : String) {v w : Json}
    (hv : List.lookup k fs = some v) (hw : List.lookup k gs = some w) : Same v w := by
  have hrel := h.fields hf hg k
  rw [hv, hw] at hrel
  cases hrel with
  | some hvw => exact hvw

end SlotTree.Json
