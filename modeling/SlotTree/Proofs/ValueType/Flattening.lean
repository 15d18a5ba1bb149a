import SlotTree.Proofs.Maps
import SlotTree.Proofs.ValueType.Preorder

/-!
# Flattened types

A union inside a union says no more than its variants would in its place, and a union of one variant
no more than that variant.  Flattening takes the unions of a type apart, at any depth, and puts
every part of a type into a union of its own.  Types that are flattened to the same variants go to
each other.

## Main definitions

* `ValueType.variants` — the flattened variants of a type.
* `ValueType.flatten` — the union of them.

## Main results

* `ValueType.Assigns.of_variants` — a type goes wherever all its variants are among the variants.
-/

namespace SlotTree.ValueType

mutual

/-- The variants of a type that is no union, or those of all its variants, with every part inside
them flattened. -/
def variants : ValueType → List ValueType
  | .any => [.any]
  | .string => [.string]
  | .number => [.number]
  | .boolean => [.boolean]
  | .null => [.null]
  | .undefined => [.undefined]
  | .void => [.void]
  | .array t => [.array (.union (variants t))]
  | .tuple ts => [.tuple (flattenList ts)]
  | .object ps => [.object (flattenProperties ps)]
  | .union ts => variantsList ts
  | .function ts t => [.function (flattenList ts) (.union (variants t))]
  | .entity name => [.entity name]

/-- The variants of some types, one after the other. -/
def variantsList : List ValueType → List ValueType
  | [] => []
  | t :: rest => variants t ++ variantsList rest

/-- Some types, each flattened. -/
def flattenList : List ValueType → List ValueType
  | [] => []
  | t :: rest => .union (variants t) :: flattenList rest

/-- Some properties, the type of each flattened. -/
def flattenProperties : List (String × ValueType) → List (String × ValueType)
  | [] => []
  | (name, t) :: rest => (name, .union (variants t)) :: flattenProperties rest

end

/-- The union of the variants of a type. -/
def flatten (t : ValueType) : ValueType := .union (variants t)

theorem flatten_inj {s t : ValueType} : s.flatten = t.flatten ↔ variants s = variants t :=
  ⟨fun h => union.inj h, congrArg union⟩

theorem flattenList_eq (ts : List ValueType) : flattenList ts = ts.map flatten := by
  induction ts with
  | nil => rfl
  | cons t rest ih => rw [flattenList, ih, List.map_cons, flatten]

theorem flattenProperties_eq (ps : List (String × ValueType)) :
    flattenProperties ps = ps.map fun p => (p.1, p.2.flatten) := by
  induction ps with
  | nil => rfl
  | cons p rest ih => rw [flattenProperties, ih, List.map_cons, flatten]

theorem variantsList_eq (ts : List ValueType) : variantsList ts = ts.flatMap variants := by
  induction ts with
  | nil => rfl
  | cons t rest ih => rw [variantsList, ih, List.flatMap_cons]

theorem mem_variants_union {v : ValueType} {ts : List ValueType} :
    v ∈ variants (.union ts) ↔ ∃ t ∈ ts, v ∈ variants t := by
  rw [variants, variantsList_eq, List.mem_flatMap]

/-- A type that is no union has one variant. -/
theorem exists_variants_eq {t : ValueType} (h : ¬∃ ts, t = .union ts) : ∃ v, variants t = [v] := by
  cases t with
  | union ts => exact absurd ⟨ts, rfl⟩ h
  | _ => exact ⟨_, by rw [variants]⟩

/-- Of two lists with the same flattened types, the types at one place have the same variants. -/
theorem variants_eq_of_flattenList {ss ts : List ValueType} (h : flattenList ss = flattenList ts)
    {i : Nat} {s t : ValueType} (hs : ss[i]? = some s) (ht : ts[i]? = some t) :
    variants s = variants t := by
  rw [flattenList_eq, flattenList_eq] at h
  have heq := congrArg (fun us => us[i]?) h
  simp only [List.getElem?_map, hs, ht, Option.map_some, Option.some.injEq] at heq
  exact flatten_inj.mp heq

theorem length_eq_of_flattenList {ss ts : List ValueType} (h : flattenList ss = flattenList ts) :
    ss.length = ts.length := by
  have heq := congrArg List.length h
  rwa [flattenList_eq, flattenList_eq, List.length_map, List.length_map] at heq

/-- Of two objects with the same flattened properties, the properties with one name have the same
variants. -/
theorem exists_of_flattenProperties {ps qs : List (String × ValueType)}
    (h : flattenProperties ps = flattenProperties qs) {name : String} {t : ValueType}
    (ht : List.lookup name qs = some t) :
    ∃ s, List.lookup name ps = some s ∧ variants s = variants t := by
  rw [flattenProperties_eq, flattenProperties_eq] at h
  have heq := congrArg (List.lookup name) h
  rw [lookup_map (fun _ t => flatten t), lookup_map (fun _ t => flatten t), ht,
    Option.map_some, Option.map_eq_some_iff] at heq
  obtain ⟨s, hs, heq⟩ := heq
  exact ⟨s, hs, flatten_inj.mp heq⟩

/-- A type whose variants are among those of another goes to it.  What goes the other way round, as
parameters do, has the same variants on both sides, so one induction on both types is enough. -/
theorem Assigns.of_variants (s t : ValueType) (hs : s.DistinctNames) (ht : t.DistinctNames)
    (h : variants s ⊆ variants t) : Assigns s t := by
  by_cases hsource : ∃ ss, s = .union ss
  · obtain ⟨ss, rfl⟩ := hsource
    rw [DistinctNames, distinctNamesAll_iff] at hs
    exact .union fun s hmem => of_variants s t (hs s hmem) ht
      fun v hv => h (mem_variants_union.mpr ⟨s, hmem, hv⟩)
  obtain ⟨v, hv⟩ := exists_variants_eq hsource
  by_cases htarget : ∃ ts, t = .union ts
  · obtain ⟨ts, rfl⟩ := htarget
    rw [DistinctNames, distinctNamesAll_iff] at ht
    rw [hv, List.cons_subset] at h
    obtain ⟨t, hmem, hvt⟩ := mem_variants_union.mp h.1
    exact .variant hmem (of_variants s t hs (ht t hmem)
      (hv ▸ List.cons_subset.mpr ⟨hvt, List.nil_subset _⟩))
  -- two types with one variant each have the same shape
  obtain ⟨w, hw⟩ := exists_variants_eq htarget
  have heq : variants s = variants t := by
    rw [hv, hw, List.cons_subset, List.mem_singleton] at h
    rw [hv, hw, h.1]
  clear h hv hw
  cases s with
  | union ss => exact absurd ⟨ss, rfl⟩ hsource
  | any | string | number | boolean | null | undefined | void | entity _ =>
    cases t with
    | union ts => exact absurd ⟨ts, rfl⟩ htarget
    | _ => cases heq <;> exact refl _ hs
  | array s =>
    cases t with
    | array t =>
      rw [DistinctNames] at hs ht
      simp only [variants, List.cons.injEq, array.injEq, union.injEq, and_true] at heq
      exact .array (of_variants s t hs ht fun _ hv => heq ▸ hv)
    | union ts => exact absurd ⟨ts, rfl⟩ htarget
    | _ => cases heq
  | tuple ss =>
    cases t with
    | tuple ts =>
      rw [DistinctNames, distinctNamesAll_iff] at hs ht
      simp only [variants, List.cons.injEq, tuple.injEq, and_true] at heq
      refine .tuple (length_eq_of_flattenList heq) fun i s t hsi hti => ?_
      exact of_variants s t (hs s (List.mem_of_getElem? hsi)) (ht t (List.mem_of_getElem? hti))
        fun _ hv => variants_eq_of_flattenList heq hsi hti ▸ hv
    | union ts => exact absurd ⟨ts, rfl⟩ htarget
    | _ => cases heq
  | object ps =>
    cases t with
    | object qs =>
      rw [DistinctNames, distinctNamesFields_iff] at hs ht
      simp only [variants, List.cons.injEq, object.injEq, and_true] at heq
      refine .of_exists_property fun name t hmem => ?_
      obtain ⟨s, hfound, hst⟩ :=
        exists_of_flattenProperties heq (lookup_eq_some_of_mem ht.1 hmem)
      exact ⟨s, hfound, of_variants s t (hs.2 _ (mem_of_lookup hfound)) (ht.2 _ hmem)
        fun _ hv => hst ▸ hv⟩
    | union ts => exact absurd ⟨ts, rfl⟩ htarget
    | _ => cases heq
  | function ss s =>
    cases t with
    | function ts t =>
      rw [DistinctNames, distinctNamesAll_iff] at hs ht
      simp only [variants, List.cons.injEq, function.injEq, union.injEq, and_true] at heq
      refine .function (length_eq_of_flattenList heq.1.symm) (fun i t s hti hsi => ?_)
        (of_variants s t hs.2 ht.2 fun _ hv => heq.2 ▸ hv)
      exact of_variants t s (ht.1 t (List.mem_of_getElem? hti)) (hs.1 s (List.mem_of_getElem? hsi))
        fun _ hv => variants_eq_of_flattenList heq.1.symm hti hsi ▸ hv
    | union ts => exact absurd ⟨ts, rfl⟩ htarget
    | _ => cases heq
termination_by sizeOf s + sizeOf t
decreasing_by
  all_goals subst_vars
  · have := sizeOf_lt_union hmem
    omega
  · have := sizeOf_lt_union hmem
    omega
  · rw [array.sizeOf_spec, array.sizeOf_spec]
    omega
  · have := sizeOf_lt_tuple (List.mem_of_getElem? hsi)
    have := sizeOf_lt_tuple (List.mem_of_getElem? hti)
    omega
  · have := sizeOf_lt_object (mem_of_lookup hfound)
    have := sizeOf_lt_object hmem
    omega
  · have := List.sizeOf_lt_of_mem (List.mem_of_getElem? hsi)
    have := List.sizeOf_lt_of_mem (List.mem_of_getElem? hti)
    rw [function.sizeOf_spec, function.sizeOf_spec]
    omega
  · rw [function.sizeOf_spec, function.sizeOf_spec]
    omega

end SlotTree.ValueType
