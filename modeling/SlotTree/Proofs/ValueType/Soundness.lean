import SlotTree.Proofs.Expression.Checking
import SlotTree.Proofs.ValueType.Rules

/-!
# Soundness of assignability

A JSON value that belongs to a type belongs to every type that the first one goes to, with one
exception.  An object may have fields that its type does not declare.  Where the other type declares
such a field as optional, the types go to each other all the same, and the field may hold anything.

## Main definitions

* `Json.HoldsObject` — there is an object in a value.
* `ValueType.Clash` — a value holds such a field, and the other type refuses what is in it.

## Main results

* `ValueType.Assigns.accepts` — without a clash, values go where their types go.
* `ValueType.Assigns.accepts_of_not_holdsObject` — only values with objects in them clash.
* `ValueType.accepts_of_assignable` — in particular the values of JSON literals that pass a check.
-/

namespace SlotTree

/-- A value that is an object, or a list with one in it, at any depth. -/
inductive Json.HoldsObject : Json → Prop where
  /-- The value is an object. -/
  | object (fields : List (String × Json)) : HoldsObject (.object fields)
  /-- An item of the list has an object in it. -/
  | item {items : List Json} {v : Json} : v ∈ items → HoldsObject v → HoldsObject (.array items)

namespace ValueType

/-! ### Membership -/

theorem anyOptional_eq_true_iff {ts : List ValueType} :
    anyOptional ts = true ↔ ∃ t ∈ ts, t.isOptional = true := by
  induction ts with
  | nil => simp [anyOptional]
  | cons t rest ih => simp [anyOptional, ih]

theorem acceptsAny_eq_true_iff {ts : List ValueType} {v : Json} :
    acceptsAny ts v = true ↔ ∃ t ∈ ts, t.accepts v = true := by
  induction ts with
  | nil => simp [acceptsAny]
  | cons t rest ih => simp [acceptsAny, ih]

theorem acceptsFields_cons_eq_true_iff {name : String} {t : ValueType}
    {ps : List (String × ValueType)} {fields : List (String × Json)} :
    acceptsFields ((name, t) :: ps) fields = true ↔
      ((∀ v, List.lookup name fields = some v → t.accepts v = true) ∧
        (List.lookup name fields = none → t.isOptional = true)) ∧
      acceptsFields ps fields = true := by
  rw [acceptsFields, Bool.and_eq_true]
  refine and_congr ?_ Iff.rfl
  cases List.lookup name fields <;> simp

theorem acceptsFields_eq_true_iff {ps : List (String × ValueType)} {fields : List (String × Json)} :
    acceptsFields ps fields = true ↔ ∀ name t, (name, t) ∈ ps →
      (∀ v, List.lookup name fields = some v → t.accepts v = true) ∧
        (List.lookup name fields = none → t.isOptional = true) := by
  induction ps with
  | nil => simp [acceptsFields]
  | cons p rest ih =>
    obtain ⟨name, t⟩ := p
    rw [acceptsFields_cons_eq_true_iff, ih]
    constructor
    · rintro ⟨h, hrest⟩ name' t' hmem
      rcases List.mem_cons.mp hmem with heq | hmem
      · cases heq
        exact h
      · exact hrest name' t' hmem
    · intro h
      exact ⟨h name t List.mem_cons_self, fun name' t' hmem =>
        h name' t' (List.mem_cons_of_mem _ hmem)⟩

theorem acceptsEach_eq_true_iff {ts : List ValueType} : ∀ {vs : List Json},
    acceptsEach ts vs = true ↔ ts.length = vs.length ∧
      ∀ (i : Nat) (t : ValueType) (v : Json), ts[i]? = some t → vs[i]? = some v →
        t.accepts v = true := by
  induction ts with
  | nil =>
    intro vs
    cases vs <;> simp [acceptsEach]
  | cons t rest ih =>
    intro vs
    cases vs with
    | nil => simp [acceptsEach]
    | cons v vs =>
      rw [acceptsEach, Bool.and_eq_true, ih, List.length_cons, List.length_cons,
        Nat.add_right_cancel_iff]
      constructor
      · rintro ⟨hfirst, hlen, heach⟩
        refine ⟨hlen, fun i t' v' ht hv => ?_⟩
        cases i with
        | zero =>
          cases ht
          cases hv
          exact hfirst
        | succ i => exact heach i t' v' ht hv
      · rintro ⟨hlen, heach⟩
        exact ⟨heach 0 t v rfl rfl, hlen, fun i t' v' ht hv => heach (i + 1) t' v' ht hv⟩

/-- The members of a list type are lists. -/
theorem accepts_array_iff {t : ValueType} {v : Json} :
    (array t).accepts v = true ↔
      ∃ items, v = .array items ∧ ∀ w ∈ items, t.accepts w = true := by
  cases v <;> simp [accepts]

/-- The members of a tuple type are lists of its length. -/
theorem accepts_tuple_iff {ts : List ValueType} {v : Json} :
    (tuple ts).accepts v = true ↔
      ∃ items, v = .array items ∧ ts.length = items.length ∧
        ∀ (i : Nat) (t : ValueType) (w : Json), ts[i]? = some t → items[i]? = some w →
          t.accepts w = true := by
  cases v <;> simp [accepts, acceptsEach_eq_true_iff]

/-- The members of an object type are objects. -/
theorem accepts_object_iff {ps : List (String × ValueType)} {v : Json} :
    (object ps).accepts v = true ↔ ∃ fields, v = .object fields ∧ ∀ name t, (name, t) ∈ ps →
      (∀ w, List.lookup name fields = some w → t.accepts w = true) ∧
        (List.lookup name fields = none → t.isOptional = true) := by
  cases v <;> simp [accepts, acceptsFields_eq_true_iff]

/-- The members of a union are those of its variants. -/
theorem accepts_union_iff {ts : List ValueType} {v : Json} :
    (union ts).accepts v = true ↔ ∃ t ∈ ts, t.accepts v = true := by
  simp [accepts, acceptsAny_eq_true_iff]

/-! ### Soundness -/

/-- A type to which an optional type goes is optional. -/
theorem Assigns.isOptional {s t : ValueType} (h : Assigns s t) (hs : s.isOptional = true) :
    t.isOptional = true := by
  induction h with
  | any _ => rfl
  | union _ ih =>
    obtain ⟨s, hmem, hs⟩ := anyOptional_eq_true_iff.mp hs
    exact ih s hmem hs
  | variant hmem _ ih => exact anyOptional_eq_true_iff.mpr ⟨_, hmem, ih hs⟩
  | undefined => rfl
  | string | number | boolean | null | void | array _ _ | tuple _ _ _ | items _ _ | object _ _ _
  | function _ _ _ _ _ | entity _ => cases hs

/-- Somewhere in a value of the source, where an object type of the source stands against one of the
target, there is a field that the source does not declare, and the target declares with a type that
refuses what the field holds. -/
inductive Clash : ValueType → ValueType → Json → Prop where
  /-- The field is one of the object itself. -/
  | field {ps qs : List (String × ValueType)} {fields : List (String × Json)} {name : String}
      {t : ValueType} {w : Json} : (name, t) ∈ qs → List.lookup name ps = none →
      List.lookup name fields = some w → t.accepts w = false →
        Clash (.object ps) (.object qs) (.object fields)
  /-- The field is further down, in a field that both declare. -/
  | property {ps qs : List (String × ValueType)} {fields : List (String × Json)} {name : String}
      {s t : ValueType} {w : Json} : (name, t) ∈ qs → List.lookup name ps = some s →
      List.lookup name fields = some w → Clash s t w →
        Clash (.object ps) (.object qs) (.object fields)
  /-- The field is in an item of a list. -/
  | array {s t : ValueType} {vs : List Json} {w : Json} : w ∈ vs → Clash s t w →
      Clash (.array s) (.array t) (.array vs)
  /-- The field is in an item of a list of fixed length. -/
  | tuple {ss ts : List ValueType} {vs : List Json} {i : Nat} {s t : ValueType} {w : Json} :
      ss[i]? = some s → ts[i]? = some t → vs[i]? = some w → Clash s t w →
        Clash (.tuple ss) (.tuple ts) (.array vs)
  /-- The field is in an item of a list of fixed length that stands for any list. -/
  | items {ss : List ValueType} {t : ValueType} {vs : List Json} {i : Nat} {s : ValueType}
      {w : Json} : ss[i]? = some s → vs[i]? = some w → Clash s t w →
        Clash (.tuple ss) (.array t) (.array vs)
  /-- The source is a union, and there is such a field for every variant of the value. -/
  | union {ss : List ValueType} {t : ValueType} {v : Json} :
      (∀ s ∈ ss, s.accepts v = true → Clash s t v) → Clash (.union ss) t v
  /-- The target is a union.  The source goes to some variant of it, there is such a field for every
  variant to which it goes, and no other variant takes the value. -/
  | variant {s : ValueType} {ts : List ValueType} {v : Json} :
      (∃ t ∈ ts, Assigns s t) → (∀ t ∈ ts, Assigns s t → Clash s t v) →
      (∀ t ∈ ts, ¬ Assigns s t → t.accepts v = false) → Clash s (.union ts) v

/-- Without a clash, a value goes where its type goes. -/
theorem Assigns.accepts {s t : ValueType} (h : Assigns s t) {v : Json} (hs : s.accepts v = true)
    (hclash : ¬ Clash s t v) : t.accepts v = true := by
  cases h with
  | any _ => cases v <;> rfl
  | @union ss _ hall =>
    refine Decidable.byContradiction fun hrefused => hclash (.union fun s hmem hs => ?_)
    exact Classical.byContradiction fun hc => hrefused ((hall s hmem).accepts hs hc)
  | @variant _ t ts hmem hst =>
    refine Decidable.byContradiction fun hrefused => hclash (.variant ⟨t, hmem, hst⟩ ?_ ?_)
    · intro t hmem hst
      exact Classical.byContradiction fun hc =>
        hrefused (accepts_union_iff.mpr ⟨t, hmem, hst.accepts hs hc⟩)
    · intro t hmem _
      exact Bool.eq_false_iff.mpr fun ht => hrefused (accepts_union_iff.mpr ⟨t, hmem, ht⟩)
  | string | number | boolean | null | undefined | void => exact hs
  | array hst =>
    obtain ⟨vs, rfl, hall⟩ := accepts_array_iff.mp hs
    exact accepts_array_iff.mpr ⟨vs, rfl, fun w hw =>
      hst.accepts (hall w hw) fun hc => hclash (.array hw hc)⟩
  | @tuple ss ts hlen hall =>
    obtain ⟨vs, rfl, hlen', heach⟩ := accepts_tuple_iff.mp hs
    refine accepts_tuple_iff.mpr ⟨vs, rfl, hlen.symm.trans hlen', fun i t w ht hw => ?_⟩
    -- the source has an item where the target has one
    obtain ⟨hi, -⟩ := List.getElem?_eq_some_iff.mp ht
    obtain ⟨s, hsi⟩ : ∃ s, ss[i]? = some s := ⟨_, List.getElem?_eq_getElem (hlen ▸ hi)⟩
    exact (hall i s t hsi ht).accepts (heach i s w hsi hw) fun hc => hclash (.tuple hsi ht hw hc)
  | @items ss t hall =>
    obtain ⟨vs, rfl, hlen, heach⟩ := accepts_tuple_iff.mp hs
    refine accepts_array_iff.mpr ⟨vs, rfl, fun w hw => ?_⟩
    obtain ⟨i, hi⟩ := List.mem_iff_getElem?.mp hw
    obtain ⟨hlt, -⟩ := List.getElem?_eq_some_iff.mp hi
    obtain ⟨s, hsi⟩ : ∃ s, ss[i]? = some s := ⟨_, List.getElem?_eq_getElem (hlen ▸ hlt)⟩
    exact (hall s (List.mem_of_getElem? hsi)).accepts (heach i s w hsi hi)
      fun hc => hclash (.items hsi hi hc)
  | @object ps qs hdeclared hmissing =>
    obtain ⟨fields, rfl, hfields⟩ := accepts_object_iff.mp hs
    refine accepts_object_iff.mpr ⟨fields, rfl, fun name t ht => ?_⟩
    cases hp : List.lookup name ps with
    | none =>
      -- a field under a name that the source leaves open is refused in a clash alone
      refine ⟨fun w hw => ?_, fun _ => hmissing name t ht hp⟩
      cases hrefused : t.accepts w with
      | true => rfl
      | false => exact absurd (.field ht hp hw hrefused) hclash
    | some s =>
      obtain ⟨hsome, hnone⟩ := hfields name s (mem_of_lookup hp)
      have hst := hdeclared name s t ht hp
      exact ⟨fun w hw => hst.accepts (hsome w hw) fun hc => hclash (.property ht hp hw hc),
        fun hw => hst.isOptional (hnone hw)⟩
  | function _ _ _ | entity _ => cases v <;> cases hs
termination_by sizeOf s + sizeOf t
decreasing_by
  all_goals subst_vars
  · have := sizeOf_lt_union hmem
    omega
  · have := sizeOf_lt_union hmem
    omega
  · rw [array.sizeOf_spec, array.sizeOf_spec]
    omega
  · have := sizeOf_lt_tuple (List.mem_of_getElem? hsi)
    have := sizeOf_lt_tuple (List.mem_of_getElem? ht)
    omega
  · have := sizeOf_lt_tuple (List.mem_of_getElem? hsi)
    rw [array.sizeOf_spec]
    omega
  · have := sizeOf_lt_object (mem_of_lookup hp)
    have := sizeOf_lt_object ht
    omega

/-- In a clash the target refuses the value. -/
theorem Clash.refused {s t : ValueType} {v : Json} (hclash : Clash s t v) (h : Assigns s t)
    (hs : s.accepts v = true) : t.accepts v = false := by
  refine Bool.eq_false_iff.mpr fun ht => ?_
  induction hclash with
  | field hmem _ hw hrefused =>
    obtain ⟨_, heq, hfields⟩ := accepts_object_iff.mp ht
    cases heq
    rw [(hfields _ _ hmem).1 _ hw] at hrefused
    cases hrefused
  | property hmem hp hw _ ih =>
    cases h with
    | object hdeclared _ =>
      obtain ⟨_, heq, hsource⟩ := accepts_object_iff.mp hs
      cases heq
      obtain ⟨_, heq, htarget⟩ := accepts_object_iff.mp ht
      cases heq
      exact ih (hdeclared _ _ _ hmem hp) ((hsource _ _ (mem_of_lookup hp)).1 _ hw)
        ((htarget _ _ hmem).1 _ hw)
  | array hw _ ih =>
    cases h with
    | array hst =>
      obtain ⟨_, heq, hsource⟩ := accepts_array_iff.mp hs
      cases heq
      obtain ⟨_, heq, htarget⟩ := accepts_array_iff.mp ht
      cases heq
      exact ih hst (hsource _ hw) (htarget _ hw)
  | tuple hsi hti hw _ ih =>
    cases h with
    | tuple _ hall =>
      obtain ⟨_, heq, -, hsource⟩ := accepts_tuple_iff.mp hs
      cases heq
      obtain ⟨_, heq, -, htarget⟩ := accepts_tuple_iff.mp ht
      cases heq
      exact ih (hall _ _ _ hsi hti) (hsource _ _ _ hsi hw) (htarget _ _ _ hti hw)
  | items hsi hw _ ih =>
    cases h with
    | items hall =>
      obtain ⟨_, heq, -, hsource⟩ := accepts_tuple_iff.mp hs
      cases heq
      obtain ⟨_, heq, htarget⟩ := accepts_array_iff.mp ht
      cases heq
      exact ih (hall _ (List.mem_of_getElem? hsi)) (hsource _ _ _ hsi hw)
        (htarget _ (List.mem_of_getElem? hw))
  | union _ ih =>
    obtain ⟨s, hmem, hs⟩ := accepts_union_iff.mp hs
    exact ih s hmem hs (h.of_union s hmem) hs ht
  | @variant s ts v _ _ hrefused ih =>
    obtain ⟨t, hmem, ht⟩ := accepts_union_iff.mp ht
    by_cases hst : Assigns s t
    · exact ih t hmem hst hst hs ht
    · rw [hrefused t hmem hst] at ht
      cases ht

/-- Only values with objects clash. -/
theorem Clash.holdsObject {s t : ValueType} {v : Json} (hclash : Clash s t v)
    (hs : s.accepts v = true) : v.HoldsObject := by
  induction hclash with
  | field _ _ _ _ | property _ _ _ _ _ => exact .object _
  | array hw _ ih =>
    obtain ⟨_, heq, hsource⟩ := accepts_array_iff.mp hs
    cases heq
    exact .item hw (ih (hsource _ hw))
  | tuple hsi _ hw _ ih | items hsi hw _ ih =>
    obtain ⟨_, heq, -, hsource⟩ := accepts_tuple_iff.mp hs
    cases heq
    exact .item (List.mem_of_getElem? hw) (ih (hsource _ _ _ hsi hw))
  | union _ ih =>
    obtain ⟨s, hmem, hs⟩ := accepts_union_iff.mp hs
    exact ih s hmem hs hs
  | variant hgoes _ _ ih =>
    obtain ⟨t, hmem, hst⟩ := hgoes
    exact ih t hmem hst hs

/-- Without objects, values go where their types go, whatever unions there are. -/
theorem Assigns.accepts_of_not_holdsObject {s t : ValueType} (h : Assigns s t) {v : Json}
    (hs : s.accepts v = true) (hv : ¬ v.HoldsObject) : t.accepts v = true :=
  h.accepts hs fun hclash => hv (hclash.holdsObject hs)

/-- A value goes where its type goes, unless there is a clash. -/
theorem Assigns.accepts_iff {s t : ValueType} (h : Assigns s t) {v : Json}
    (hs : s.accepts v = true) : t.accepts v = true ↔ ¬ Clash s t v :=
  ⟨fun ht hclash => Bool.eq_false_iff.mp (hclash.refused h hs) ht, h.accepts hs⟩

/-- A value of a type that may stand for another belongs to the other exactly if there is no clash,
and so does the value of a JSON literal that passes the check against it. -/
theorem accepts_of_assignable :
    (∀ (s t : ValueType) (v : Json), s.assignable t = true → s.accepts v = true →
      (t.accepts v = true ↔ ¬ Clash s t v)) ∧
    ∀ (ctx : Context) (expected : ValueType) (schemaName : String) (value : FreeForm)
      (te : TypedExpression), (Expression.json schemaName value).check ctx expected = .ok te →
        (expected.accepts value.json = true ↔ ¬ Clash te.type expected value.json) := by
  refine ⟨fun s t v hst hs => (Assigns.of_assignable hst).accepts_iff hs, ?_⟩
  intro ctx expected schemaName value te hte
  obtain ⟨hresolve, hst⟩ := Expression.check_eq_ok_iff.mp hte
  obtain ⟨literal, -, haccepts, rfl⟩ := Expression.resolve_json_eq_ok.mp hresolve
  exact (Assigns.of_assignable hst).accepts_iff haccepts

/-- A JSON literal passes the check where its type goes. -/
theorem check_literal {ctx : Context} (literal : JsonLiteral) {value : FreeForm}
    {expected : ValueType} (hliteral : ctx.literal literal.name = .ok literal)
    (haccepts : literal.type.accepts value.json = true)
    (hassign : literal.type.assignable expected = true) :
    (Expression.json literal.name value).check ctx expected =
      .ok (.json literal.name value literal.type) :=
  Expression.check_eq_ok_iff.mpr
    ⟨Expression.resolve_json_eq_ok.mpr ⟨literal, hliteral, haccepts, rfl⟩, hassign⟩

/-- Lists of objects with an id. -/
def identified : JsonLiteral where
  name := "Identified"
  type := .array (.object [("id", .string)])

/-- Lists of objects with an id and a note, or without the note. -/
def annotated : ValueType :=
  .array (.object [("id", .union [.number, .string]), ("note", .union [.string, .undefined])])

/-- Two objects with an id, the second one with a note that is a text. -/
def twoObjects : FreeForm := Json.freeForm (.array
  [.object [("seen", .bool true), ("id", .string "a")],
    .object [("note", .string "new"), ("id", .string "b")]])

/-- A note that is not declared makes no clash if it is a text. -/
theorem accepts_of_assignable_twoObjects :
    identified.type.assignable annotated = true ∧
    identified.type.accepts twoObjects.json = true ∧
    (annotated.accepts twoObjects.json = true ↔
      ¬ Clash identified.type annotated twoObjects.json) ∧
    ∃ te, (Expression.json "Identified" twoObjects).check
      (({ literals := [identified] } : Definitions).context fun nodeId _ =>
        .error (.notAnAncestor nodeId)) annotated = .ok te ∧
      (annotated.accepts twoObjects.json = true ↔ ¬ Clash te.type annotated twoObjects.json) := by
  have hassign : identified.type.assignable annotated = true := by decide +kernel
  have haccepts : identified.type.accepts twoObjects.json = true := by decide
  have hcheck : (Expression.json "Identified" twoObjects).check
      (({ literals := [identified] } : Definitions).context fun nodeId _ =>
        .error (.notAnAncestor nodeId)) annotated =
          .ok (.json "Identified" twoObjects identified.type) :=
    check_literal identified rfl haccepts hassign
  exact ⟨hassign, haccepts, accepts_of_assignable.1 _ _ _ hassign haccepts,
    _, hcheck, accepts_of_assignable.2 _ _ _ _ _ hcheck⟩

/-- Objects whose properties are left open. -/
def openObject : JsonLiteral where
  name := "Open"
  type := .object []

/-- Objects with a note, or without. -/
def noted : ValueType := .object [("note", .union [.string, .undefined])]

/-- An object whose note is no text. -/
def markedNote : FreeForm := Json.freeForm (.object [("note", .bool true)])

/-- The object is one whose properties are left open, and such objects go where a note is optional,
also as literals.  But there the note has to be a text. -/
theorem not_accepts_markedNote :
    openObject.type.assignable noted = true ∧ openObject.type.accepts markedNote.json = true ∧
    (∃ te, (Expression.json "Open" markedNote).check
      (({ literals := [openObject] } : Definitions).context fun nodeId _ =>
        .error (.notAnAncestor nodeId)) noted = .ok te) ∧
    noted.accepts markedNote.json = false := by
  have hassign : openObject.type.assignable noted = true := by decide +kernel
  have haccepts : openObject.type.accepts markedNote.json = true := by decide
  have hcheck : (Expression.json "Open" markedNote).check
      (({ literals := [openObject] } : Definitions).context fun nodeId _ =>
        .error (.notAnAncestor nodeId)) noted =
          .ok (.json "Open" markedNote openObject.type) :=
    check_literal openObject rfl haccepts hassign
  exact ⟨hassign, haccepts, ⟨_, hcheck⟩, by decide⟩

end ValueType

end SlotTree
