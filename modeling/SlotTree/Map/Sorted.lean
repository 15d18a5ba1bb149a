import SlotTree.Map.Ordered

/-!
# Sorted maps

Finite maps from texts, kept as a list of entries whose names ascend by code point.  Each map has
one representation, so that equal maps are equal values (`SortedMap.ext_get?`), whatever the order
in which their entries were put in.

## Main definitions

* `Ascending`, `insertEntry`, `eraseEntry` — lists of entries in order.
* `SortedMap` — the maps, with `get?`, `insert`, `erase`, `size`, `keys`.

## Main results

* `SortedMap.get?_insert`, `SortedMap.get?_erase` — what an operation does to a look-up.
* `SortedMap.ext_get?` — maps with the same look-ups are equal.
-/

namespace SlotTree

variable {α β : Type}

/-! ### Entries in order -/

/-- Entries whose names ascend. -/
abbrev Ascending (es : List (String × α)) : Prop := es.Pairwise fun a b => a.1 < b.1

/-- Put an entry among entries in order, in place of one with an equal name. -/
def insertEntry (k : String) (v : α) : List (String × α) → List (String × α)
  | [] => [(k, v)]
  | (k', v') :: rest =>
    if k < k' then (k, v) :: (k', v') :: rest
    else if k = k' then (k, v) :: rest
    else (k', v') :: insertEntry k v rest

/-- Take the entry with a name away. -/
def eraseEntry (k : String) : List (String × α) → List (String × α)
  | [] => []
  | (k', v) :: rest => if k' = k then rest else (k', v) :: eraseEntry k rest

theorem mem_insertEntry {k : String} {v : α} {es : List (String × α)} {e : String × α}
    (h : e ∈ insertEntry k v es) : e = (k, v) ∨ e ∈ es := by
  induction es with
  | nil => simpa [insertEntry] using h
  | cons f rest ih =>
    unfold insertEntry at h
    split at h
    · simpa using h
    · split at h
      · rcases List.mem_cons.1 h with h | h
        · exact .inl h
        · exact .inr (List.mem_cons_of_mem _ h)
      · rcases List.mem_cons.1 h with h | h
        · exact .inr (h ▸ List.mem_cons_self)
        · rcases ih h with h | h
          · exact .inl h
          · exact .inr (List.mem_cons_of_mem _ h)

theorem mem_of_mem_eraseEntry {k : String} {es : List (String × α)} {e : String × α}
    (h : e ∈ eraseEntry k es) : e ∈ es := by
  induction es with
  | nil => simp [eraseEntry] at h
  | cons f rest ih =>
    unfold eraseEntry at h
    split at h
    · exact List.mem_cons_of_mem _ h
    · rcases List.mem_cons.1 h with h | h
      · exact h ▸ List.mem_cons_self
      · exact List.mem_cons_of_mem _ (ih h)

/-- Of two different texts, one not below the other lies above it. -/
theorem Text.lt_of_not_lt_of_ne {a b : String} (h : ¬ a < b) (hne : a ≠ b) : b < a :=
  Std.lt_of_le_of_ne (String.not_lt.1 h) hne.symm

theorem ascending_insertEntry {k : String} {v : α} {es : List (String × α)} (h : Ascending es) :
    Ascending (insertEntry k v es) := by
  induction es with
  | nil => simp [insertEntry]
  | cons f rest ih =>
    obtain ⟨k', v'⟩ := f
    obtain ⟨hhead, htail⟩ := List.pairwise_cons.1 h
    unfold insertEntry
    split
    · rename_i hlt
      refine List.pairwise_cons.2 ⟨fun e he => ?_, h⟩
      rcases List.mem_cons.1 he with rfl | he
      · exact hlt
      · exact String.lt_trans hlt (hhead e he)
    · split
      · rename_i heq
        subst heq
        exact List.pairwise_cons.2 ⟨hhead, htail⟩
      · rename_i hlt hne
        refine List.pairwise_cons.2 ⟨fun e he => ?_, ih htail⟩
        rcases mem_insertEntry he with rfl | he
        · exact Text.lt_of_not_lt_of_ne hlt hne
        · exact hhead e he

theorem ascending_eraseEntry {k : String} {es : List (String × α)} (h : Ascending es) :
    Ascending (eraseEntry k es) := by
  induction es with
  | nil => simp [eraseEntry]
  | cons f rest ih =>
    obtain ⟨hhead, htail⟩ := List.pairwise_cons.1 h
    unfold eraseEntry
    split
    · exact htail
    · exact List.pairwise_cons.2 ⟨fun e he => hhead e (mem_of_mem_eraseEntry he), ih htail⟩

theorem lookup_insertEntry (k j : String) (v : α) (es : List (String × α)) :
    List.lookup j (insertEntry k v es) = if k = j then some v else List.lookup j es := by
  induction es with
  | nil => simp [insertEntry]
  | cons f rest ih =>
    obtain ⟨k', v'⟩ := f
    unfold insertEntry
    split
    · simp
    · split
      · rename_i heq
        subst heq
        by_cases hj : k = j <;> simp [hj]
      · rename_i hne
        by_cases hj : k = j
        · subst hj
          simp [ih, Ne.symm hne]
        · simp [ih, hj]

theorem lookup_eq_none_of_lt {k : String} {es : List (String × α)}
    (h : ∀ e ∈ es, k < e.1) : List.lookup k es = none :=
  List.lookup_eq_none_iff.mpr fun e he =>
    bne_iff_ne.mpr fun heq => String.lt_irrefl k (heq ▸ h e he)

theorem lookup_cons_eq_none_of_lt {k : String} {e : String × α} {es : List (String × α)}
    (h : Ascending (e :: es)) (hlt : k < e.1) : List.lookup k (e :: es) = none :=
  lookup_eq_none_of_lt <| List.forall_mem_cons.2
    ⟨hlt, fun f hf => String.lt_trans hlt ((List.pairwise_cons.1 h).1 f hf)⟩

theorem lookup_eraseEntry {es : List (String × α)} (h : Ascending es) (k j : String) :
    List.lookup j (eraseEntry k es) = if k = j then none else List.lookup j es := by
  induction es with
  | nil => simp [eraseEntry]
  | cons f rest ih =>
    obtain ⟨hhead, htail⟩ := List.pairwise_cons.1 h
    unfold eraseEntry
    split
    · rename_i heq
      by_cases hj : k = j
      · subst hj
        simp [lookup_eq_none_of_lt (k := k) fun e he => heq ▸ hhead e he]
      · simp [hj, heq]
    · rename_i hne
      by_cases hj : k = j
      · subst hj
        simp [ih htail, hne]
      · simp [ih htail, hj]

theorem ext_lookup {es fs : List (String × α)} (hes : Ascending es) (hfs : Ascending fs)
    (h : ∀ k, List.lookup k es = List.lookup k fs) : es = fs := by
  induction es generalizing fs with
  | nil =>
    cases fs with
    | nil => rfl
    | cons f rest =>
      have := h f.1
      simp at this
  | cons e es ih =>
    obtain ⟨k, v⟩ := e
    obtain ⟨hehead, hetail⟩ := List.pairwise_cons.1 hes
    cases fs with
    | nil =>
      have := h k
      simp at this
    | cons f fs =>
      obtain ⟨l, w⟩ := f
      obtain ⟨hfhead, hftail⟩ := List.pairwise_cons.1 hfs
      have hkl : k = l := by
        by_cases hlt : k < l
        · have hk := h k
          rw [lookup_cons_eq_none_of_lt hfs hlt] at hk
          simp at hk
        · by_cases heq : k = l
          · exact heq
          · have hl := h l
            rw [lookup_cons_eq_none_of_lt hes (Text.lt_of_not_lt_of_ne hlt heq)] at hl
            simp at hl
      subst hkl
      have hvw : v = w := by simpa using h k
      subst hvw
      have : es = fs := by
        refine ih hetail hftail fun j => ?_
        by_cases hj : k = j
        · subst hj
          rw [lookup_eq_none_of_lt fun e he => hehead e he,
            lookup_eq_none_of_lt fun e he => hfhead e he]
        · simpa [hj] using h j
      rw [this]

/-! ### Maps -/

/-- A finite map from texts. -/
structure SortedMap (α : Type) where
  /-- The entries, in order. -/
  entries : List (String × α)
  /-- The names ascend. -/
  ascending : Ascending entries
  deriving Repr, DecidableEq

namespace SortedMap

/-- The map without entries. -/
def empty : SortedMap α := ⟨[], List.Pairwise.nil⟩

instance : Inhabited (SortedMap α) := ⟨empty⟩

/-- The value under a name. -/
def get? (m : SortedMap α) (k : String) : Option α := List.lookup k m.entries

/-- Whether there is a value under a name. -/
def contains (m : SortedMap α) (k : String) : Bool := (m.get? k).isSome

/-- The map with a value put under a name, in place of any other. -/
def insert (m : SortedMap α) (k : String) (v : α) : SortedMap α :=
  ⟨insertEntry k v m.entries, ascending_insertEntry m.ascending⟩

/-- The map without the value under a name. -/
def erase (m : SortedMap α) (k : String) : SortedMap α :=
  ⟨eraseEntry k m.entries, ascending_eraseEntry m.ascending⟩

/-- The number of entries. -/
def size (m : SortedMap α) : Nat := m.entries.length

/-- Whether there are no entries. -/
def isEmpty (m : SortedMap α) : Bool := m.entries.isEmpty

/-- The names, ascending. -/
def keys (m : SortedMap α) : List String := m.entries.map Prod.fst

/-- The map of entries put in one after the other; of a repeated name the last value counts. -/
def ofList (es : List (String × α)) : SortedMap α :=
  es.foldl (fun m e => m.insert e.1 e.2) empty

@[simp]
theorem get?_empty (k : String) : (empty : SortedMap α).get? k = none := rfl

@[simp]
theorem get?_insert (m : SortedMap α) (k j : String) (v : α) :
    (m.insert k v).get? j = if k = j then some v else m.get? j :=
  lookup_insertEntry k j v m.entries

@[simp]
theorem get?_erase (m : SortedMap α) (k j : String) :
    (m.erase k).get? j = if k = j then none else m.get? j :=
  lookup_eraseEntry m.ascending k j

theorem ext_get? {m n : SortedMap α} (h : ∀ k, m.get? k = n.get? k) : m = n := by
  have := ext_lookup m.ascending n.ascending h
  cases m
  cases n
  simpa using this

end SortedMap

end SlotTree
