import Mathlib.Data.List.Nodup
import Mathlib.Data.List.Perm.Subperm
import SlotTree.Map.Ordered
import SlotTree.Map.Sorted

/-!
# Maps and their entries

The laws of the two kinds of maps that the rest of the theory goes by: an entry is in the list of a
map exactly when a look-up finds it, and a map is known by its look-ups.

## Main definitions

* `SortedMap.map` — a function applied to every value of a sorted map.

## Main results

* `SortedMap.mem_entries_iff`, `OrderedMap.mem_entries_iff` — entries are what look-ups find.
* `SortedMap.get?_ofList` — the look-ups of a map that is made of entries with distinct names.
* `SortedMap.length_le_size` — a map is at least as large as any list of distinct names in use.
* `OrderedMap.ext_keys` — ordered maps with the same names and look-ups are equal.
* `OrderedMap.ofList_entries` — a map is made of its entries.
-/

namespace SlotTree

variable {α β : Type}

/-! ### Lists of entries -/

theorem lookup_eq_none_iff {k : String} {es : List (String × α)} :
    List.lookup k es = none ↔ k ∉ es.map Prod.fst := by
  simp only [List.lookup_eq_none_iff, bne_iff_ne, List.mem_map, not_exists, not_and, ne_comm]

theorem lookup_isSome_iff {k : String} {es : List (String × α)} :
    (List.lookup k es).isSome ↔ k ∈ es.map Prod.fst := by
  rw [← not_iff_not, Bool.not_eq_true, Option.isSome_eq_false_iff, Option.isNone_iff_eq_none,
    lookup_eq_none_iff]

/-- Under distinct names every entry is found. -/
theorem lookup_eq_some_of_mem {k : String} {v : α} {es : List (String × α)}
    (hd : (es.map Prod.fst).Nodup) (h : (k, v) ∈ es) : List.lookup k es = some v := by
  induction es with
  | nil => simp at h
  | cons e rest ih =>
    obtain ⟨k', v'⟩ := e
    rw [List.map_cons, List.nodup_cons] at hd
    rcases List.mem_cons.mp h with he | hr
    · cases he
      simp
    · have hmem : k ∈ rest.map Prod.fst := List.mem_map.mpr ⟨(k, v), hr, rfl⟩
      have hne : k' ≠ k := fun he => hd.1 (he ▸ hmem)
      rw [lookup_cons_eq_ite, if_neg hne]
      exact ih hd.2 hr

theorem lookup_map (f : String → α → β) (k : String) (es : List (String × α)) :
    List.lookup k (es.map fun e => (e.1, f e.1 e.2)) = (List.lookup k es).map (f k) := by
  induction es with
  | nil => rfl
  | cons e rest ih =>
    by_cases h : e.1 = k
    · simp [h]
    · simp [h, ih]

/-- In a list with other names, an entry is found under its other name. -/
theorem lookup_map_names {f : String → String} (hf : f.Injective) (g : α → β)
    (k : String) (es : List (String × α)) :
    List.lookup (f k) (es.map fun e => (f e.1, g e.2)) = (List.lookup k es).map g := by
  induction es with
  | nil => rfl
  | cons e rest ih =>
    by_cases h : e.1 = k
    · simp [h]
    · simp [h, hf.ne h, ih]

theorem map_fst_setEntry {k : String} {v : α} {es : List (String × α)}
    (h : k ∈ es.map Prod.fst) : (setEntry k v es).map Prod.fst = es.map Prod.fst := by
  induction es with
  | nil => simp at h
  | cons e rest ih =>
    by_cases he : e.1 = k
    · simp [setEntry, he]
    · have hr : k ∈ rest.map Prod.fst := by
        rcases List.mem_cons.mp h with hk | hr
        · exact absurd hk.symm he
        · exact hr
      simp [setEntry, he, ih hr]

theorem setEntry_of_notMem {k : String} {es : List (String × α)} (h : k ∉ es.map Prod.fst) (v : α) :
    setEntry k v es = es ++ [(k, v)] := by
  induction es with
  | nil => rfl
  | cons e rest ih =>
    rw [List.map_cons, List.mem_cons, not_or] at h
    rw [setEntry, if_neg (Ne.symm h.1), ih h.2, List.cons_append]

theorem ext_keys_lookup {es fs : List (String × α)} (hd : (es.map Prod.fst).Nodup)
    (hk : es.map Prod.fst = fs.map Prod.fst) (h : ∀ k, List.lookup k es = List.lookup k fs) :
    es = fs := by
  induction es generalizing fs with
  | nil =>
    cases fs with
    | nil => rfl
    | cons f rest => simp at hk
  | cons e es ih =>
    cases fs with
    | nil => simp at hk
    | cons f fs =>
      obtain ⟨k, v⟩ := e
      obtain ⟨l, w⟩ := f
      simp only [List.map_cons, List.cons.injEq] at hk
      obtain ⟨rfl, hk⟩ := hk
      rw [List.map_cons, List.nodup_cons] at hd
      have hvw : v = w := by simpa using h k
      have hrest : es = fs := by
        refine ih hd.2 hk fun j => ?_
        by_cases hj : k = j
        · subst hj
          rw [lookup_eq_none_iff.mpr hd.1, lookup_eq_none_iff.mpr (hk ▸ hd.1)]
        · simpa [hj] using h j
      rw [hvw, hrest]

theorem map_fst_insertEntry_of_mem {k : String} {v : α} {es : List (String × α)}
    (ha : Ascending es) (h : k ∈ es.map Prod.fst) :
    (insertEntry k v es).map Prod.fst = es.map Prod.fst := by
  induction es with
  | nil => simp at h
  | cons e rest ih =>
    obtain ⟨k', v'⟩ := e
    obtain ⟨hhead, htail⟩ := List.pairwise_cons.mp ha
    by_cases he : k = k'
    · subst he
      simp [insertEntry]
    · have hr : k ∈ rest.map Prod.fst := (List.mem_cons.mp h).resolve_left he
      obtain ⟨f, hf, hfk⟩ := List.mem_map.mp hr
      have hlt : ¬ k < k' := fun hlt =>
        String.lt_irrefl k (String.lt_trans hlt (hfk ▸ hhead f hf))
      simp [insertEntry, hlt, he, ih htail hr]

theorem insertEntry_of_forall_lt {k : String} {es : List (String × α)} (h : ∀ e ∈ es, e.1 < k)
    (v : α) : insertEntry k v es = es ++ [(k, v)] := by
  induction es with
  | nil => rfl
  | cons e rest ih =>
    rw [List.forall_mem_cons] at h
    have hlt : ¬ k < e.1 := fun hlt => String.lt_irrefl k (String.lt_trans hlt h.1)
    have hne : k ≠ e.1 := fun heq => String.lt_irrefl k (heq ▸ h.1)
    rw [insertEntry, if_neg hlt, if_neg hne, ih h.2, List.cons_append]

/-! ### Sorted maps -/

namespace SortedMap

theorem nodup_keys (m : SortedMap α) : m.keys.Nodup := by
  have h : m.keys.Pairwise (· < ·) := List.pairwise_map.mpr m.ascending
  refine h.imp ?_
  rintro a b hab rfl
  exact String.lt_irrefl a hab

/-- The entries of a map are what its look-ups find. -/
theorem mem_entries_iff {m : SortedMap α} {k : String} {v : α} :
    (k, v) ∈ m.entries ↔ m.get? k = some v :=
  ⟨lookup_eq_some_of_mem m.nodup_keys, mem_of_lookup⟩

theorem mem_keys_iff {m : SortedMap α} {k : String} : k ∈ m.keys ↔ (m.get? k).isSome :=
  lookup_isSome_iff.symm

/-- A name in use is not one that is not. -/
theorem ne_of_get? {m : SortedMap α} {j k : String} {v : α} (hj : m.get? j = some v)
    (hk : m.get? k = none) : j ≠ k := by
  rintro rfl
  rw [hj] at hk
  cases hk

theorem contains_eq_false_iff {m : SortedMap α} {k : String} :
    m.contains k = false ↔ m.get? k = none := by
  rw [contains, Option.isSome_eq_false_iff, Option.isNone_iff_eq_none]

@[simp]
theorem insert_insert (m : SortedMap α) (k : String) (v w : α) :
    (m.insert k v).insert k w = m.insert k w := by
  refine ext_get? fun j => ?_
  simp only [get?_insert]
  split <;> rfl

@[simp]
theorem erase_insert (m : SortedMap α) (k : String) (v : α) :
    (m.insert k v).erase k = m.erase k := by
  refine ext_get? fun j => ?_
  simp only [get?_insert, get?_erase]
  split <;> rfl

@[simp]
theorem insert_erase (m : SortedMap α) (k : String) (v : α) :
    (m.erase k).insert k v = m.insert k v := by
  refine ext_get? fun j => ?_
  simp only [get?_insert, get?_erase]
  split <;> rfl

theorem erase_erase (m : SortedMap α) (k : String) : (m.erase k).erase k = m.erase k := by
  refine ext_get? fun j => ?_
  simp only [get?_erase]
  split <;> rfl

theorem insert_self {m : SortedMap α} {k : String} {v : α} (h : m.get? k = some v) :
    m.insert k v = m := by
  refine ext_get? fun j => ?_
  rw [get?_insert]
  split
  · next hk => rw [← hk, h]
  · rfl

theorem erase_self {m : SortedMap α} {k : String} (h : m.get? k = none) : m.erase k = m := by
  refine ext_get? fun j => ?_
  rw [get?_erase]
  split
  · next hk => rw [← hk, h]
  · rfl

/-- A value put in place of another leaves the size as it is. -/
theorem size_insert_of_get? {m : SortedMap α} {k : String} {v : α} (h : m.get? k = some v)
    (w : α) : (m.insert k w).size = m.size := by
  have hk : k ∈ m.entries.map Prod.fst := List.mem_map_of_mem (mem_entries_iff.mpr h)
  have := congrArg List.length (map_fst_insertEntry_of_mem (v := w) m.ascending hk)
  simpa [size, insert] using this

/-- Distinct names in use are no more than there are entries. -/
theorem length_le_size {m : SortedMap α} {ids : List String} (hd : ids.Nodup)
    (h : ∀ id ∈ ids, (m.get? id).isSome) : ids.length ≤ m.size := by
  have hsub : ids ⊆ m.keys := fun id hid => mem_keys_iff.mpr (h id hid)
  have := (List.subperm_of_subset hd hsub).length_le
  simpa [keys, size] using this

/-- The look-ups after entries with distinct names have been put in. -/
theorem get?_foldl_insert {es : List (String × α)} (hd : (es.map Prod.fst).Nodup)
    (m : SortedMap α) (k : String) :
    (es.foldl (fun m e => m.insert e.1 e.2) m).get? k = (List.lookup k es).or (m.get? k) := by
  induction es generalizing m with
  | nil => simp
  | cons e rest ih =>
    rw [List.map_cons, List.nodup_cons] at hd
    rw [List.foldl_cons, ih hd.2, get?_insert]
    by_cases hk : e.1 = k
    · subst hk
      simp [lookup_eq_none_iff.mpr hd.1]
    · simp [hk]

theorem get?_ofList {es : List (String × α)} (hd : (es.map Prod.fst).Nodup) (k : String) :
    (ofList es).get? k = List.lookup k es := by
  rw [ofList, get?_foldl_insert hd]
  simp

/-- The map with a function applied to every value. -/
def map (f : α → β) (m : SortedMap α) : SortedMap β where
  entries := m.entries.map fun e => (e.1, f e.2)
  ascending := List.pairwise_map.mpr m.ascending

@[simp]
theorem get?_map (f : α → β) (m : SortedMap α) (k : String) :
    (m.map f).get? k = (m.get? k).map f :=
  lookup_map (fun _ => f) k m.entries

theorem map_self (m : SortedMap α) : m.map (fun v => v) = m :=
  ext_get? fun k => by rw [get?_map, Option.map_id']

theorem size_map (f : α → β) (m : SortedMap α) : (m.map f).size = m.size := by
  rw [size, size, map, List.length_map]

theorem map_map (f g : α → α) (m : SortedMap α) (h : ∀ v, g (f v) = v) :
    (m.map f).map g = m := by
  refine ext_get? fun k => ?_
  rw [get?_map, get?_map, Option.map_map]
  cases m.get? k with
  | none => rfl
  | some v => simp [h]

end SortedMap

/-! ### Ordered maps -/

namespace OrderedMap

/-- The entries of a map are what its look-ups find. -/
theorem mem_entries_iff {m : OrderedMap α} {k : String} {v : α} :
    (k, v) ∈ m.entries ↔ m.get? k = some v :=
  ⟨lookup_eq_some_of_mem m.distinct, mem_of_lookup⟩

theorem mem_keys_iff {m : OrderedMap α} {k : String} : k ∈ m.keys ↔ ∃ v, m.get? k = some v := by
  rw [← Option.isSome_iff_exists]
  exact lookup_isSome_iff.symm

theorem contains_iff {m : OrderedMap α} {k : String} : m.contains k = true ↔ k ∈ m.keys :=
  lookup_isSome_iff

@[simp]
theorem get?_mapValues (f : String → α → β) (m : OrderedMap α) (k : String) :
    (m.mapValues f).get? k = (m.get? k).map (f k) :=
  lookup_map f k m.entries

@[simp]
theorem keys_mapValues (f : String → α → β) (m : OrderedMap α) : (m.mapValues f).keys = m.keys := by
  simp [keys, mapValues, Function.comp_def]

theorem keys_insert {m : OrderedMap α} {k : String} {v : α} (h : m.get? k = some v) (w : α) :
    (m.insert k w).keys = m.keys :=
  map_fst_setEntry (mem_keys_iff.mpr ⟨v, h⟩)

theorem ext_keys {m n : OrderedMap α} (hk : m.keys = n.keys) (h : ∀ k, m.get? k = n.get? k) :
    m = n := by
  have := ext_keys_lookup m.distinct hk h
  cases m
  cases n
  simpa using this

/-- Entries with distinct names come in as they stand. -/
theorem entries_foldl_insert {es : List (String × α)} {m : OrderedMap α}
    (hd : ((m.entries ++ es).map Prod.fst).Nodup) :
    (es.foldl (fun m e => m.insert e.1 e.2) m).entries = m.entries ++ es := by
  induction es generalizing m with
  | nil => simp
  | cons e es ih =>
    have hnew : e.1 ∉ m.entries.map Prod.fst := by
      simp only [List.map_append, List.map_cons, List.nodup_append, List.mem_cons] at hd
      exact fun he => hd.2.2 e.1 he e.1 (.inl rfl) rfl
    have hinsert : (m.insert e.1 e.2).entries = m.entries ++ [e] := setEntry_of_notMem hnew e.2
    rw [List.append_cons, ← hinsert] at hd ⊢
    exact ih hd

theorem entries_ofList {es : List (String × α)} (hd : (es.map Prod.fst).Nodup) :
    (ofList es).entries = es :=
  entries_foldl_insert (m := empty) hd

@[simp]
theorem ofList_entries (m : OrderedMap α) : ofList m.entries = m := by
  have := entries_ofList m.distinct
  cases h : ofList m.entries
  cases m
  simpa [h] using this

end OrderedMap

end SlotTree
