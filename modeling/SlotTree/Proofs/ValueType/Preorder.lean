import SlotTree.Proofs.Maps
import SlotTree.Proofs.ValueType.Rules

/-!
# Assignability as a preorder

Every type goes to itself.  Where no property is optional, what goes to a type also goes wherever
that type goes.  Optional properties break this: an object type that leaves a property open goes to
one where the property is optional, whatever the property is in the types that go to the open one.

## Main definitions

* `ValueType.Strict` — types without optional properties.

## Main results

* `ValueType.Assigns.refl` — every type goes to itself.
* `ValueType.Assigns.trans` — without optional properties the rules can be chained.
* `ValueType.assignable_preorder` — both, for the check.
-/

namespace SlotTree.ValueType

/-! ### Types without optional properties -/

mutual

/-- No object type, at any depth, has a property whose type is optional. -/
def Strict : ValueType → Prop
  | .array t => Strict t
  | .tuple ts => StrictAll ts
  | .object ps => StrictFields ps
  | .union ts => StrictAll ts
  | .function ts t => StrictAll ts ∧ Strict t
  | _ => True

/-- `Strict` for every type of a list. -/
def StrictAll : List ValueType → Prop
  | [] => True
  | t :: rest => Strict t ∧ StrictAll rest

/-- No property is optional, and the type of each is strict. -/
def StrictFields : List (String × ValueType) → Prop
  | [] => True
  | (_, t) :: rest => (t.isOptional = false ∧ Strict t) ∧ StrictFields rest

end

theorem strictAll_iff {ts : List ValueType} : StrictAll ts ↔ ∀ t ∈ ts, t.Strict := by
  induction ts with
  | nil => simp [StrictAll]
  | cons t rest ih => rw [StrictAll, ih, List.forall_mem_cons]

theorem strictFields_iff {ps : List (String × ValueType)} :
    StrictFields ps ↔ ∀ p ∈ ps, p.2.isOptional = false ∧ p.2.Strict := by
  induction ps with
  | nil => simp [StrictFields]
  | cons p rest ih =>
    obtain ⟨name, t⟩ := p
    rw [StrictFields, ih, List.forall_mem_cons]

theorem strict_tuple_iff {ts : List ValueType} : (tuple ts).Strict ↔ ∀ t ∈ ts, t.Strict := by
  rw [Strict, strictAll_iff]

theorem strict_union_iff {ts : List ValueType} : (union ts).Strict ↔ ∀ t ∈ ts, t.Strict := by
  rw [Strict, strictAll_iff]

theorem strict_object_iff {ps : List (String × ValueType)} :
    (object ps).Strict ↔ ∀ p ∈ ps, p.2.isOptional = false ∧ p.2.Strict := by
  rw [Strict, strictFields_iff]

theorem strict_function_iff {ts : List ValueType} {t : ValueType} :
    (function ts t).Strict ↔ (∀ t ∈ ts, t.Strict) ∧ t.Strict := by
  rw [Strict, strictAll_iff]

theorem distinctNamesAll_iff {ts : List ValueType} :
    DistinctNamesAll ts ↔ ∀ t ∈ ts, t.DistinctNames := by
  induction ts with
  | nil => simp [DistinctNamesAll]
  | cons t rest ih => rw [DistinctNamesAll, ih, List.forall_mem_cons]

theorem distinctNamesFields_iff {ps : List (String × ValueType)} :
    DistinctNamesFields ps ↔ ∀ p ∈ ps, p.2.DistinctNames := by
  induction ps with
  | nil => simp [DistinctNamesFields]
  | cons p rest ih =>
    obtain ⟨name, t⟩ := p
    rw [DistinctNamesFields, ih, List.forall_mem_cons]

/-! ### Every type goes to itself -/

theorem Assigns.refl (t : ValueType) (h : t.DistinctNames) : Assigns t t := by
  cases t with
  | any => exact .any _
  | string => exact .string
  | number => exact .number
  | boolean => exact .boolean
  | null => exact .null
  | undefined => exact .undefined
  | void => exact .void
  | entity name => exact .entity name
  | array t =>
    rw [DistinctNames] at h
    exact .array (refl t h)
  | tuple ts =>
    rw [DistinctNames, distinctNamesAll_iff] at h
    refine .tuple rfl fun i s t hs ht => ?_
    rw [hs, Option.some.injEq] at ht
    subst ht
    exact refl s (h s (List.mem_of_getElem? hs))
  | union ts =>
    rw [DistinctNames, distinctNamesAll_iff] at h
    exact .union fun s hs => .variant hs (refl s (h s hs))
  | function ts t =>
    rw [DistinctNames, distinctNamesAll_iff] at h
    refine .function rfl (fun i s s' hs hs' => ?_) (refl t h.2)
    rw [hs, Option.some.injEq] at hs'
    subst hs'
    exact refl s (h.1 s (List.mem_of_getElem? hs))
  | object ps =>
    rw [DistinctNames, distinctNamesFields_iff] at h
    -- what is looked up under a name is the property of that name
    refine .object (fun name s t ht hs => ?_) fun name t ht hnone => ?_
    · rw [lookup_eq_some_of_mem h.1 ht, Option.some.injEq] at hs
      subst hs
      exact refl t (h.2 _ ht)
    · rw [lookup_eq_some_of_mem h.1 ht] at hnone
      cases hnone
termination_by sizeOf t
decreasing_by
  all_goals subst_vars
  · rw [array.sizeOf_spec]
    omega
  · exact sizeOf_lt_tuple (List.mem_of_getElem? hs)
  · exact sizeOf_lt_object ht
  · exact sizeOf_lt_union hs
  · have := List.sizeOf_lt_of_mem (List.mem_of_getElem? hs)
    rw [function.sizeOf_spec]
    omega
  · rw [function.sizeOf_spec]
    omega

/-! ### The rules in a chain -/

/-- Where one of two lists of the same length has an item, the other one has. -/
theorem exists_getElem? {ss ts : List ValueType} (hlen : ss.length = ts.length) {i : Nat}
    {s : ValueType} (hs : ss[i]? = some s) : ∃ t, ts[i]? = some t := by
  obtain ⟨hlt, -⟩ := List.getElem?_eq_some_iff.mp hs
  exact ⟨_, List.getElem?_eq_getElem (hlen ▸ hlt)⟩

/-- Each property that a strict object type names is one of every object type that goes to it. -/
theorem Assigns.exists_property {ps qs : List (String × ValueType)}
    (h : Assigns (.object ps) (.object qs)) (hqs : Strict (.object qs)) {name : String}
    {t : ValueType} (ht : (name, t) ∈ qs) :
    ∃ s, List.lookup name ps = some s ∧ Assigns s t := by
  cases h with
  | object hdeclared hmissing =>
    cases hs : List.lookup name ps with
    | none =>
      rw [strict_object_iff] at hqs
      exact absurd (hmissing name t ht hs) (Bool.eq_false_iff.mp (hqs _ ht).1)
    | some s => exact ⟨s, rfl, hdeclared name s t ht hs⟩

theorem Assigns.of_exists_property {ps qs : List (String × ValueType)}
    (h : ∀ name t, (name, t) ∈ qs → ∃ s, List.lookup name ps = some s ∧ Assigns s t) :
    Assigns (.object ps) (.object qs) := by
  refine .object (fun name s t ht hs => ?_) fun name t ht hnone => ?_
  · obtain ⟨s', hs', hst⟩ := h name t ht
    rw [hs, Option.some.injEq] at hs'
    exact hs' ▸ hst
  · obtain ⟨s, hs, -⟩ := h name t ht
    rw [hnone] at hs
    cases hs

/-- What goes to a type goes wherever that type goes, if no property is optional.  The parameters of
functions go the other way round, so this is by induction on all three types at once. -/
theorem Assigns.trans {a b c : ValueType} (hab : Assigns a b) (hbc : Assigns b c) (ha : a.Strict)
    (hb : b.Strict) (hc : c.Strict) : Assigns a c := by
  by_cases hunion : ∃ ss, a = .union ss
  · obtain ⟨ss, rfl⟩ := hunion
    rw [strict_union_iff] at ha
    exact .union fun s hs => (hab.of_union s hs).trans hbc (ha s hs) hb hc
  cases hbc with
  | any _ => exact .any a
  | variant hmem hbc =>
    rw [strict_union_iff] at hc
    exact .variant hmem (hab.trans hbc ha hb (hc _ hmem))
  | union hall =>
    cases hab with
    | union _ => exact absurd ⟨_, rfl⟩ hunion
    | variant hmem hab =>
      rw [strict_union_iff] at hb
      exact hab.trans (hall _ hmem) ha (hb _ hmem) hc
  | string | number | boolean | null | undefined | void | entity _ => exact hab
  | array hbc =>
    cases hab with
    | union _ => exact absurd ⟨_, rfl⟩ hunion
    | array hab => exact .array (hab.trans hbc ha hb hc)
    | items hall =>
      rw [strict_tuple_iff] at ha
      exact .items fun s hs => (hall s hs).trans hbc (ha s hs) hb hc
  | tuple hlen hbc =>
    cases hab with
    | union _ => exact absurd ⟨_, rfl⟩ hunion
    | tuple hlen' hab =>
      rw [strict_tuple_iff] at ha hb hc
      refine .tuple (hlen'.trans hlen) fun i s u hs hu => ?_
      obtain ⟨t, ht⟩ := exists_getElem? hlen.symm hu
      exact (hab i s t hs ht).trans (hbc i t u ht hu) (ha s (List.mem_of_getElem? hs))
        (hb t (List.mem_of_getElem? ht)) (hc u (List.mem_of_getElem? hu))
  | items hall =>
    cases hab with
    | union _ => exact absurd ⟨_, rfl⟩ hunion
    | tuple hlen hab =>
      rw [strict_tuple_iff] at ha hb
      refine .items fun s hs => ?_
      obtain ⟨i, hi⟩ := List.mem_iff_getElem?.mp hs
      obtain ⟨t, ht⟩ := exists_getElem? hlen hi
      have hmem := List.mem_of_getElem? ht
      exact (hab i s t hi ht).trans (hall t hmem) (ha s hs) (hb t hmem) hc
  | object hdeclared hmissing =>
    have hbc := Assigns.object hdeclared hmissing
    cases hab with
    | union _ => exact absurd ⟨_, rfl⟩ hunion
    | object hdeclared' hmissing' =>
      have hab := Assigns.object hdeclared' hmissing'
      -- a property of the target is one of the type between, and so one of the source
      refine .of_exists_property fun name u hu => ?_
      obtain ⟨t, ht, htu⟩ := hbc.exists_property hc hu
      obtain ⟨s, hs, hst⟩ := hab.exists_property hb (mem_of_lookup ht)
      rw [strict_object_iff] at ha hb hc
      exact ⟨s, hs, hst.trans htu (ha _ (mem_of_lookup hs)).2
        (hb _ (mem_of_lookup ht)).2 (hc _ hu).2⟩
  | function hlen hbc hbc' =>
    cases hab with
    | union _ => exact absurd ⟨_, rfl⟩ hunion
    | function hlen' hab hab' =>
      rw [strict_function_iff] at ha hb hc
      refine .function (hlen.trans hlen') (fun i z x hz hx => ?_)
        (hab'.trans hbc' ha.2 hb.2 hc.2)
      obtain ⟨y, hy⟩ := exists_getElem? hlen hz
      exact (hbc i z y hz hy).trans (hab i y x hy hx) (hc.1 z (List.mem_of_getElem? hz))
        (hb.1 y (List.mem_of_getElem? hy)) (ha.1 x (List.mem_of_getElem? hx))
termination_by sizeOf a + sizeOf b + sizeOf c
decreasing_by
  all_goals subst_vars
  · have := sizeOf_lt_union hs
    omega
  · have := sizeOf_lt_union hmem
    omega
  · have := sizeOf_lt_union hmem
    omega
  · simp only [array.sizeOf_spec]
    omega
  · have := sizeOf_lt_tuple hs
    simp only [array.sizeOf_spec]
    omega
  · have := sizeOf_lt_tuple (List.mem_of_getElem? hs)
    have := sizeOf_lt_tuple (List.mem_of_getElem? ht)
    have := sizeOf_lt_tuple (List.mem_of_getElem? hu)
    omega
  · have := sizeOf_lt_tuple hs
    have := sizeOf_lt_tuple hmem
    simp only [array.sizeOf_spec]
    omega
  · have := sizeOf_lt_object (mem_of_lookup hs)
    have := sizeOf_lt_object (mem_of_lookup ht)
    have := sizeOf_lt_object hu
    omega
  · have := List.sizeOf_lt_of_mem (List.mem_of_getElem? hx)
    have := List.sizeOf_lt_of_mem (List.mem_of_getElem? hy)
    have := List.sizeOf_lt_of_mem (List.mem_of_getElem? hz)
    simp only [function.sizeOf_spec]
    omega
  · simp only [function.sizeOf_spec]
    omega

/-! ### The check -/

/-- Every type that names no property twice passes the check against itself.  And without optional
properties, what passes it against a type passes it wherever that type does. -/
theorem assignable_preorder :
    (∀ t : ValueType, t.DistinctNames → t.assignable t = true) ∧
    ∀ a b c : ValueType, a.Strict → b.Strict → c.Strict → a.assignable b = true →
      b.assignable c = true → a.assignable c = true := by
  simp only [assignable_iff]
  exact ⟨Assigns.refl, fun a b c ha hb hc hab hbc => hab.trans hbc ha hb hc⟩

/-- An optional property breaks the chain. -/
example :
    (object [("size", .string)]).assignable (object []) = true ∧
    (object []).assignable (object [("size", .union [.number, .undefined])]) = true ∧
    (object [("size", .string)]).assignable
      (object [("size", .union [.number, .undefined])]) = false := by
  decide +kernel

/-- Two texts with a way to choose one of any texts. -/
def pairChoice : ValueType :=
  .object [("size", .number), ("items", .tuple [.string, .union [.string]]),
    ("choose", .function [.array (.union [.string, .null])] .string)]

/-- Texts with a way to choose one of them, or to choose none. -/
def listChoice : ValueType :=
  .object [("items", .array .string),
    ("choose", .function [.array .string] (.union [.null, .string]))]

/-- Values of any kind with a way to choose one of two texts, or nothing at all. -/
def anyChoice : ValueType :=
  .union [.null, .object [
    ("choose", .function [.tuple [.string, .union []]] (.union [.null, .string])),
    ("items", .array (.union [.number, .string]))]]

/-- What gives two texts gives a list of texts, and that in turn gives anything. -/
theorem assignable_preorder_choices :
    pairChoice.DistinctNames ∧ pairChoice.Strict ∧ listChoice.Strict ∧ anyChoice.Strict ∧
    pairChoice.assignable listChoice = true ∧ listChoice.assignable anyChoice = true ∧
    pairChoice.assignable pairChoice = true ∧ pairChoice.assignable anyChoice = true := by
  have hdistinct : pairChoice.DistinctNames := by
    simp [pairChoice, DistinctNames, DistinctNamesFields, DistinctNamesAll]
  have hpair : pairChoice.Strict := by
    simp [pairChoice, Strict, StrictFields, StrictAll, isOptional]
  have hlist : listChoice.Strict := by
    simp [listChoice, Strict, StrictFields, StrictAll, isOptional]
  have hany : anyChoice.Strict := by
    simp [anyChoice, Strict, StrictFields, StrictAll, isOptional]
  have h : pairChoice.assignable listChoice = true := by decide +kernel
  have h' : listChoice.assignable anyChoice = true := by decide +kernel
  exact ⟨hdistinct, hpair, hlist, hany, h, h', assignable_preorder.1 _ hdistinct,
    assignable_preorder.2 _ _ _ hpair hlist hany h h'⟩

end SlotTree.ValueType
