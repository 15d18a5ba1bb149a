import SlotTree.ValueType.Assignable

/-!
# Rules of assignability

The rules by which a value of one type may stand where another is asked for, one constructor for
each.  Where the check tries the rules in order and walks along lists, a rule just says what it
needs, so statements about the relation go by induction on the rules.

## Main definitions

* `ValueType.Assigns` — the rules.

## Main results

* `ValueType.Assigns.of_assignable` — whatever passes the check follows from the rules.
* `ValueType.assignable_iff` — and the other way round.
-/

namespace SlotTree.ValueType

/-- The rules by which a value of one type may stand where another is asked for. -/
inductive Assigns : ValueType → ValueType → Prop where
  /-- Everything goes where any value is asked for. -/
  | any (s : ValueType) : Assigns s .any
  /-- A union goes where all its variants go. -/
  | union {ss : List ValueType} {t : ValueType} : (∀ s ∈ ss, Assigns s t) → Assigns (.union ss) t
  /-- What goes to one variant goes to a union. -/
  | variant {s t : ValueType} {ts : List ValueType} : t ∈ ts → Assigns s t → Assigns s (.union ts)
  /-- Texts go to texts. -/
  | string : Assigns .string .string
  /-- Numbers go to numbers. -/
  | number : Assigns .number .number
  /-- Truth values go to truth values. -/
  | boolean : Assigns .boolean .boolean
  /-- Null goes to null. -/
  | null : Assigns .null .null
  /-- A missing value goes to a missing value. -/
  | undefined : Assigns .undefined .undefined
  /-- No result goes to no result. -/
  | void : Assigns .void .void
  /-- Lists go to lists if their items do. -/
  | array {s t : ValueType} : Assigns s t → Assigns (.array s) (.array t)
  /-- Lists of one fixed length go to each other if their items do, one by one. -/
  | tuple {ss ts : List ValueType} : ss.length = ts.length →
      (∀ (i : Nat) (s t : ValueType), ss[i]? = some s → ts[i]? = some t → Assigns s t) →
        Assigns (.tuple ss) (.tuple ts)
  /-- A list of fixed length goes to lists if all its items go to theirs. -/
  | items {ss : List ValueType} {t : ValueType} : (∀ s ∈ ss, Assigns s t) →
      Assigns (.tuple ss) (.array t)
  /-- An object goes to another if each property of the other goes to the one that it has under the
  name, and those that it does not declare are optional. -/
  | object {ps qs : List (String × ValueType)} :
      (∀ (name : String) (s t : ValueType), (name, t) ∈ qs → List.lookup name ps = some s →
        Assigns s t) →
      (∀ (name : String) (t : ValueType), (name, t) ∈ qs → List.lookup name ps = none →
        t.isOptional = true) → Assigns (.object ps) (.object qs)
  /-- Functions go to functions of as many parameters, the parameters the other way round. -/
  | function {ss ts : List ValueType} {s t : ValueType} : ts.length = ss.length →
      (∀ (i : Nat) (t s : ValueType), ts[i]? = some t → ss[i]? = some s → Assigns t s) →
        Assigns s t → Assigns (.function ss s) (.function ts t)
  /-- A type known by its name goes to itself. -/
  | entity (name : String) : Assigns (.entity name) (.entity name)

/-! ### Parts are smaller -/

theorem sizeOf_lt_tuple {t : ValueType} {ts : List ValueType} (h : t ∈ ts) :
    sizeOf t < sizeOf (tuple ts) := by
  have := List.sizeOf_lt_of_mem h
  rw [tuple.sizeOf_spec]
  omega

theorem sizeOf_lt_union {t : ValueType} {ts : List ValueType} (h : t ∈ ts) :
    sizeOf t < sizeOf (union ts) := by
  have := List.sizeOf_lt_of_mem h
  rw [union.sizeOf_spec]
  omega

theorem sizeOf_lt_object {name : String} {t : ValueType} {ps : List (String × ValueType)}
    (h : (name, t) ∈ ps) : sizeOf t < sizeOf (object ps) := by
  have := List.sizeOf_lt_of_mem h
  rw [Prod.mk.sizeOf_spec] at this
  rw [object.sizeOf_spec]
  omega

/-! ### Along the lists of the check -/

theorem allAssignable_eq_true_iff {ss : List ValueType} {t : ValueType} :
    allAssignable ss t = true ↔ ∀ s ∈ ss, s.assignable t = true := by
  induction ss with
  | nil => simp [allAssignable]
  | cons s rest ih => rw [allAssignable, Bool.and_eq_true, ih, List.forall_mem_cons]

theorem anyAssignable_eq_true_iff {s : ValueType} {ts : List ValueType} :
    anyAssignable s ts = true ↔ ∃ t ∈ ts, s.assignable t = true := by
  induction ts with
  | nil => simp [anyAssignable]
  | cons t rest ih => simp [anyAssignable, ih]

theorem eachAssignable_eq_true_iff {ss : List ValueType} : ∀ {ts : List ValueType},
    eachAssignable ss ts = true ↔ ss.length = ts.length ∧
      ∀ (i : Nat) (s t : ValueType), ss[i]? = some s → ts[i]? = some t →
        s.assignable t = true := by
  induction ss with
  | nil =>
    intro ts
    cases ts <;> simp [eachAssignable]
  | cons s rest ih =>
    intro ts
    cases ts with
    | nil => simp [eachAssignable]
    | cons t ts =>
      rw [eachAssignable, Bool.and_eq_true, ih, List.length_cons, List.length_cons,
        Nat.add_right_cancel_iff]
      constructor
      · rintro ⟨hfirst, hlen, heach⟩
        refine ⟨hlen, fun i s' t' hs ht => ?_⟩
        cases i with
        | zero =>
          cases hs
          cases ht
          exact hfirst
        | succ i => exact heach i s' t' hs ht
      · rintro ⟨hlen, heach⟩
        exact ⟨heach 0 s t rfl rfl, hlen, fun i s' t' hs ht => heach (i + 1) s' t' hs ht⟩

theorem propertiesAssignable_eq_true_iff {ps qs : List (String × ValueType)} :
    propertiesAssignable ps qs = true ↔
      (∀ (name : String) (s t : ValueType), (name, t) ∈ qs → List.lookup name ps = some s →
        s.assignable t = true) ∧
      ∀ (name : String) (t : ValueType), (name, t) ∈ qs → List.lookup name ps = none →
        t.isOptional = true := by
  induction qs with
  | nil => simp [propertiesAssignable]
  | cons q rest ih =>
    obtain ⟨name, t⟩ := q
    rw [propertiesAssignable, Bool.and_eq_true, ih]
    constructor
    · rintro ⟨hfirst, hdeclared, hmissing⟩
      constructor
      · intro name' s t' ht hs
        rcases List.mem_cons.mp ht with heq | ht
        · cases heq
          rw [hs] at hfirst
          exact hfirst
        · exact hdeclared name' s t' ht hs
      · intro name' t' ht hnone
        rcases List.mem_cons.mp ht with heq | ht
        · cases heq
          rw [hnone] at hfirst
          exact hfirst
        · exact hmissing name' t' ht hnone
    · rintro ⟨hdeclared, hmissing⟩
      refine ⟨?_, fun name' s t' ht => hdeclared name' s t' (List.mem_cons_of_mem _ ht),
        fun name' t' ht => hmissing name' t' (List.mem_cons_of_mem _ ht)⟩
      cases hs : List.lookup name ps with
      | none => exact hmissing name t List.mem_cons_self hs
      | some s => exact hdeclared name s t List.mem_cons_self hs

/-! ### From the check to the rules -/

/-- Whatever passes the check follows from the rules. -/
theorem Assigns.of_assignable {s t : ValueType} (h : assignable s t = true) : Assigns s t := by
  rw [assignable.eq_def] at h
  split at h
  · exact .any _
  · rw [allAssignable_eq_true_iff] at h
    exact .union fun s hs => of_assignable (h s hs)
  · obtain ⟨t, ht, hst⟩ := anyAssignable_eq_true_iff.mp h
    exact .variant ht (of_assignable hst)
  · exact .string
  · exact .number
  · exact .boolean
  · exact .null
  · exact .undefined
  · exact .void
  · exact .array (of_assignable h)
  · obtain ⟨hlen, heach⟩ := eachAssignable_eq_true_iff.mp h
    exact .tuple hlen fun i s t hs ht => of_assignable (heach i s t hs ht)
  · rw [allAssignable_eq_true_iff] at h
    exact .items fun s hs => of_assignable (h s hs)
  · obtain ⟨hdeclared, hmissing⟩ := propertiesAssignable_eq_true_iff.mp h
    exact .object (fun name s t ht hs => of_assignable (hdeclared name s t ht hs)) hmissing
  · rw [Bool.and_eq_true] at h
    obtain ⟨hlen, heach⟩ := eachAssignable_eq_true_iff.mp h.1
    exact .function hlen (fun i t s ht hs => of_assignable (heach i t s ht hs))
      (of_assignable h.2)
  · obtain rfl := of_decide_eq_true h
    exact .entity _
  · cases h
termination_by sizeOf s + sizeOf t
decreasing_by
  all_goals subst_vars
  · have := sizeOf_lt_union hs
    omega
  · have := sizeOf_lt_union ht
    omega
  · rw [array.sizeOf_spec, array.sizeOf_spec]
    omega
  · have := sizeOf_lt_tuple (List.mem_of_getElem? hs)
    have := sizeOf_lt_tuple (List.mem_of_getElem? ht)
    omega
  · have := sizeOf_lt_tuple hs
    rw [array.sizeOf_spec]
    omega
  · have := sizeOf_lt_object (mem_of_lookup hs)
    have := sizeOf_lt_object ht
    omega
  · have := List.sizeOf_lt_of_mem (List.mem_of_getElem? hs)
    have := List.sizeOf_lt_of_mem (List.mem_of_getElem? ht)
    rw [function.sizeOf_spec, function.sizeOf_spec]
    omega
  · rw [function.sizeOf_spec, function.sizeOf_spec]
    omega

/-! ### From the rules to the check -/

/-- What goes from a union goes from each of its variants. -/
theorem Assigns.of_union {ss : List ValueType} {t : ValueType} (h : Assigns (.union ss) t) :
    ∀ s ∈ ss, Assigns s t := by
  generalize hu : ValueType.union ss = u at h
  induction h with
  | any _ => exact fun s _ => .any s
  | union hall _ =>
    cases hu
    exact hall
  | variant hmem _ ih => exact fun s hs => .variant hmem (ih hu s hs)
  | string | number | boolean | null | undefined | void | array _ _ | tuple _ _ _ | items _ _
  | object _ _ _ | function _ _ _ _ _ | entity _ => cases hu

theorem assignable_any (s : ValueType) : s.assignable .any = true := by simp [assignable]

theorem assignable_union_iff {ss : List ValueType} {t : ValueType} :
    (union ss).assignable t = true ↔ ∀ s ∈ ss, s.assignable t = true := by
  by_cases ht : t = .any
  · simp [ht, assignable_any]
  · rw [assignable, allAssignable_eq_true_iff]
    exact ht

/-- What passes the check against one variant passes it against a union.  The check looks at the
variants of the target only after those of the source. -/
theorem assignable_variant {s t : ValueType} {ts : List ValueType} (ht : t ∈ ts)
    (h : s.assignable t = true) : s.assignable (.union ts) = true := by
  by_cases hs : ∃ ss, s = .union ss
  · obtain ⟨ss, rfl⟩ := hs
    rw [assignable_union_iff] at h ⊢
    exact fun s hmem => assignable_variant ht (h s hmem)
  · rw [assignable, anyAssignable_eq_true_iff]
    · exact ⟨t, ht, h⟩
    · exact fun ss heq => hs ⟨ss, heq⟩
termination_by sizeOf s
decreasing_by
  subst_vars
  exact sizeOf_lt_union hmem

/-- Whatever follows from the rules passes the check. -/
theorem Assigns.assignable {s t : ValueType} (h : Assigns s t) : s.assignable t = true := by
  induction h with
  | any s => exact assignable_any s
  | union _ ih => exact assignable_union_iff.mpr ih
  | variant hmem _ ih => exact assignable_variant hmem ih
  | string | number | boolean | null | undefined | void => simp [ValueType.assignable]
  | entity name => simp [ValueType.assignable]
  | array _ ih => rwa [ValueType.assignable]
  | tuple hlen _ ih =>
    rw [ValueType.assignable, eachAssignable_eq_true_iff]
    exact ⟨hlen, ih⟩
  | items _ ih =>
    rw [ValueType.assignable, allAssignable_eq_true_iff]
    exact ih
  | object _ hmissing ih =>
    rw [ValueType.assignable, propertiesAssignable_eq_true_iff]
    exact ⟨ih, hmissing⟩
  | function hlen _ _ ih ih' =>
    rw [ValueType.assignable, Bool.and_eq_true, eachAssignable_eq_true_iff]
    exact ⟨⟨hlen, ih⟩, ih'⟩

/-- The check decides the rules. -/
theorem assignable_iff {s t : ValueType} : s.assignable t = true ↔ Assigns s t :=
  ⟨Assigns.of_assignable, Assigns.assignable⟩

end SlotTree.ValueType
