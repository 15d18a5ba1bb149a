/-!
# Ordered maps

Finite maps from texts that keep the order in which their names first came in.  A value put under a
name that is there already takes the place of the old one.

The common ground of the maps of this library, and of the fields of an object, is a list of values
under names.  The value under a name is what `List.lookup` finds: the first entry with a name is the
one that counts.

## Main definitions

* `OrderedMap` — the maps, with `get?`, `insert`, `ofList`, `keys`.

## Main results

* `OrderedMap.get?_insert` — what an insertion does to a look-up.
-/

namespace SlotTree

variable {α : Type}

/-! ### Lists of entries -/

/-- The first entry with a name is the one that counts. -/
@[simp]
theorem lookup_cons_eq_ite (k : String) (e : String × α) (es : List (String × α)) :
    List.lookup k (e :: es) = if e.1 = k then some e.2 else List.lookup k es := by
  obtain ⟨k', v⟩ := e
  by_cases h : k' = k
  · rw [h, List.lookup_cons_self, if_pos rfl]
  · rw [List.lookup_cons, beq_eq_false_iff_ne.mpr (Ne.symm h), if_neg h]

theorem mem_of_lookup {k : String} {v : α} {es : List (String × α)}
    (h : List.lookup k es = some v) : (k, v) ∈ es := by
  obtain ⟨before, after, rfl, -⟩ := List.lookup_eq_some_iff.mp h
  exact List.mem_append_right before List.mem_cons_self

/-- Put a value under a name: in place of the old one, or else at the end. -/
def setEntry (k : String) (v : α) : List (String × α) → List (String × α)
  | [] => [(k, v)]
  | (k', v') :: rest => if k' = k then (k', v) :: rest else (k', v') :: setEntry k v rest

theorem mem_keys_setEntry {k j : String} {v : α} {es : List (String × α)}
    (h : j ∈ (setEntry k v es).map Prod.fst) : j = k ∨ j ∈ es.map Prod.fst := by
  induction es with
  | nil => simpa [setEntry] using h
  | cons e rest ih =>
    unfold setEntry at h
    split at h
    · exact .inr (by simpa using h)
    · simp only [List.map_cons, List.mem_cons] at h
      rcases h with h | h
      · exact .inr (by simp [h])
      · rcases ih h with h | h
        · exact .inl h
        · exact .inr (by simp [List.mem_map] at h ⊢; exact .inr h)

theorem nodup_keys_setEntry {k : String} {v : α} {es : List (String × α)}
    (h : (es.map Prod.fst).Nodup) : ((setEntry k v es).map Prod.fst).Nodup := by
  induction es with
  | nil => simp [setEntry]
  | cons e rest ih =>
    simp only [List.map_cons, List.nodup_cons] at h
    unfold setEntry
    split
    · simpa using h
    · rename_i hne
      simp only [List.map_cons, List.nodup_cons]
      refine ⟨fun hmem => ?_, ih h.2⟩
      rcases mem_keys_setEntry hmem with heq | hmem
      · exact hne heq
      · exact h.1 hmem

theorem lookup_setEntry (k j : String) (v : α) (es : List (String × α)) :
    List.lookup j (setEntry k v es) = if k = j then some v else List.lookup j es := by
  induction es with
  | nil => simp [setEntry]
  | cons e rest ih =>
    obtain ⟨k', v'⟩ := e
    unfold setEntry
    split
    · rename_i heq
      subst heq
      by_cases hj : k' = j <;> simp [hj]
    · rename_i hne
      by_cases hj : k = j
      · subst hj
        simp [ih, hne]
      · simp [ih, hj]

/-! ### Maps -/

/-- A finite map from texts with an order of its own. -/
structure OrderedMap (α : Type) where
  /-- The entries, in their order. -/
  entries : List (String × α)
  /-- No name occurs twice. -/
  distinct : (entries.map Prod.fst).Nodup
  deriving Repr, DecidableEq

namespace OrderedMap

/-- The map without entries. -/
def empty : OrderedMap α := ⟨[], List.nodup_nil⟩

instance : Inhabited (OrderedMap α) := ⟨empty⟩

/-- The value under a name. -/
def get? (m : OrderedMap α) (k : String) : Option α := List.lookup k m.entries

/-- Whether there is a value under a name. -/
def contains (m : OrderedMap α) (k : String) : Bool := (m.get? k).isSome

/-- The map with a value put under a name: in place of the old one, or else at the end. -/
def insert (m : OrderedMap α) (k : String) (v : α) : OrderedMap α :=
  ⟨setEntry k v m.entries, nodup_keys_setEntry m.distinct⟩

/-- The names, in order. -/
def keys (m : OrderedMap α) : List String := m.entries.map Prod.fst

/-- The values, in the order of their names. -/
def values (m : OrderedMap α) : List α := m.entries.map Prod.snd

/-- The number of entries. -/
def size (m : OrderedMap α) : Nat := m.entries.length

/-- The map of entries put in one after the other: of a repeated name the last value counts, and the
first place. -/
def ofList (es : List (String × α)) : OrderedMap α :=
  es.foldl (fun m e => m.insert e.1 e.2) empty

/-- The map with a function applied to every entry; the names stay. -/
def mapValues {β : Type} (f : String → α → β) (m : OrderedMap α) : OrderedMap β where
  entries := m.entries.map fun e => (e.1, f e.1 e.2)
  distinct := by simpa [List.map_map, Function.comp_def] using m.distinct

/-- Whether two maps have equal values under equal names, whatever the order. -/
def equals (same : α → α → Bool) (m n : OrderedMap α) : Bool :=
  m.size = n.size &&
    m.entries.all fun e =>
      match n.get? e.1 with
      | some v => same e.2 v
      | none => false

@[simp]
theorem get?_empty (k : String) : (empty : OrderedMap α).get? k = none := rfl

@[simp]
theorem get?_insert (m : OrderedMap α) (k j : String) (v : α) :
    (m.insert k v).get? j = if k = j then some v else m.get? j :=
  lookup_setEntry k j v m.entries

end OrderedMap

end SlotTree
