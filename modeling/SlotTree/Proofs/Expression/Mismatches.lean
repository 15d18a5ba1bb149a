import SlotTree.Proofs.Outcomes
import SlotTree.Proofs.ValueType.Reader
import SlotTree.Tree.Visibility

/-!
# Reports of types that do not fit

Where the check of an expression reports that one type was expected and another one was found, the
one found may indeed not stand for the one expected.  Types that have the same text go to each
other, so such a report shows two different texts, unless one of its types has a function in front
of another variant of a union.

## Main definitions

* `ExpressionError.Genuine` — a report of types that do not fit is about types that do not fit.
* `Context.Quiet` — look-ups that do not report such types themselves.
* `ValueType.Recognizable` — types that can be told by their texts.

## Main results

* `Tree.quiet_context` — the contexts of a tree are quiet.
* `Expression.genuine_of_check` — what the check reports is so.
* `ValueType.display_unambiguous` — the same text means the same type, so no report shows it twice.
-/

namespace SlotTree

/-! ### Reports -/

/-- A report of types that do not fit is about types that do not fit. -/
def ExpressionError.Genuine : ExpressionError → Prop
  | .typeMismatch expected actual => actual.assignable expected = false
  | _ => True

/-- A computation that fails, if it does, with a genuine report. -/
def Candid {α : Type} (x : Except ExpressionError α) : Prop := ∀ e, x = .error e → e.Genuine

namespace Candid

variable {α β : Type} {x : Except ExpressionError α}

theorem ok (a : α) : Candid (.ok a : Except ExpressionError α) := nofun

theorem error {e : ExpressionError} (h : e.Genuine) :
    Candid (.error e : Except ExpressionError α) := by
  rintro _ ⟨⟩
  exact h

theorem bind {f : α → Except ExpressionError β} (hx : Candid x) (hf : ∀ a, Candid (f a)) :
    Candid (x >>= f) := by
  cases x with
  | ok a => exact hf a
  | error e => exact error (hx e rfl)

theorem map {f : α → β} (hx : Candid x) : Candid (x.map f) := by
  cases x with
  | ok a => exact ok (f a)
  | error e => exact error (hx e rfl)

end Candid

/-- The look-ups of a context do not themselves report types that do not fit. -/
structure Context.Quiet (ctx : Context) : Prop where
  /-- That of the kinds of literals does not. -/
  literal : ∀ name expected actual, ctx.literal name ≠ .error (.typeMismatch expected actual)
  /-- That of the extension methods does not. -/
  method : ∀ name expected actual, ctx.method name ≠ .error (.typeMismatch expected actual)
  /-- That of the outputs does not. -/
  outputType : ∀ nodeId outputName expected actual,
    ctx.outputType nodeId outputName ≠ .error (.typeMismatch expected actual)

theorem Candid.of_ne {α : Type} {x : Except ExpressionError α}
    (h : ∀ expected actual, x ≠ .error (.typeMismatch expected actual)) : Candid x := by
  intro e he
  cases e with
  | typeMismatch expected actual => exact absurd he (h expected actual)
  | _ => trivial

/-! ### Trees -/

namespace Tree

theorem outputAbove_ne_mismatch (t : Tree) (ancestorId outputName : String)
    (expected actual : ValueType) : ∀ (steps : Nat) (n : Node),
    t.outputAbove ancestorId outputName steps n ≠ .error (.typeMismatch expected actual)
  | 0, n => nofun
  | steps + 1, n => by
    rw [outputAbove]
    split
    · nofun
    · split
      · nofun
      · next ancestor _ =>
        split
        · -- what is found is a schema's report, or that the output is not shown here
          cases ancestor.schema.output outputName with
          | error e => nofun
          | ok output =>
            rw [Outcome.ok_mapError, Outcome.ok_bind]
            split
            · split <;> nofun
            · nofun
        · exact outputAbove_ne_mismatch t ancestorId outputName expected actual steps ancestor

/-- The contexts of a tree are quiet. -/
theorem quiet_context (t : Tree) (defs : Definitions) (nodeId : String) :
    (t.context defs nodeId).Quiet where
  literal name expected actual h := by
    change (defs.literal name).mapError ExpressionError.schema = _ at h
    cases hl : defs.literal name <;> rw [hl] at h <;> cases h
  method name expected actual h := by
    change (defs.method name).mapError ExpressionError.schema = _ at h
    cases hm : defs.method name <;> rw [hm] at h <;> cases h
  outputType ancestorId outputName expected actual h := by
    change t.visibleOutput nodeId ancestorId outputName = _ at h
    rw [visibleOutput] at h
    split at h
    · cases h
    · exact outputAbove_ne_mismatch t ancestorId outputName expected actual _ _ h

end Tree

/-! ### What the check reports -/

namespace TypedExpression

theorem candid_conform (expected : ValueType) (e : TypedExpression) :
    Candid (e.conform expected) := by
  rw [conform]
  split
  · exact .ok e
  · next h => exact .error (Bool.eq_false_iff.mpr h)

end TypedExpression

namespace Expression

variable {ctx : Context}

mutual

theorem candid_resolve (h : ctx.Quiet) : ∀ e : Expression, Candid (e.resolve ctx)
  | .string value => by
    rw [resolve]
    exact .ok _
  | .number value => by
    rw [resolve]
    split
    · exact .ok _
    · exact .error trivial
  | .boolean value => by
    rw [resolve]
    exact .ok _
  | .json schemaName value => by
    rw [resolve]
    refine .bind (.of_ne (h.literal schemaName)) fun literal => ?_
    split
    · exact .ok _
    · exact .error trivial
  | .output nodeId outputName ss => by
    rw [resolve]
    exact .bind (.of_ne (h.outputType nodeId outputName)) fun type =>
      .bind (candid_resolveSelectors h type ss) fun _ => .ok _

theorem candid_resolveSelectors (h : ctx.Quiet) : ∀ (type : ValueType)
    (ss : List (Selector Expression)), Candid (resolveSelectors ctx type ss)
  | type, [] => by
    rw [resolveSelectors]
    exact .ok _
  | type, .property name :: rest => by
    rw [resolveSelectors]
    split
    · exact .error trivial
    · exact .bind (candid_resolveSelectors h _ rest) fun _ => .ok _
  | type, .method name args :: rest => by
    rw [resolveSelectors]
    refine .bind (.of_ne (h.method name)) fun method => ?_
    split
    · split
      · exact .bind (candid_resolveArgs h 0 method.params args) fun _ =>
          .bind (candid_resolveSelectors h method.returns rest) fun _ => .ok _
      · exact .error trivial
    · exact .error trivial
  | type, .call args :: rest => by
    rw [resolveSelectors.eq_def]
    simp only
    split
    · split
      · exact .bind (candid_resolveArgs h 0 _ args) fun _ =>
          .bind (candid_resolveSelectors h _ rest) fun _ => .ok _
      · exact .error trivial
    · exact .error trivial

theorem candid_resolveArgs (h : ctx.Quiet) : ∀ (index : Nat) (params : List ValueType)
    (args : List (Option Expression)), Candid (resolveArgs ctx index params args)
  | index, params, [] => by
    rw [resolveArgs]
    exact .ok _
  | index, [], arg :: rest => by
    rw [resolveArgs]
    exact .ok _
  | index, param :: params, none :: rest => by
    rw [resolveArgs]
    split
    · exact .bind (.ok _) fun _ =>
        .bind (candid_resolveArgs h (index + 1) params rest) fun _ => .ok _
    · exact .bind (.error trivial) fun _ =>
        .bind (candid_resolveArgs h (index + 1) params rest) fun _ => .ok _
  | index, param :: params, some e :: rest => by
    rw [resolveArgs]
    exact .bind (candid_resolve h e) fun e => .bind (.map (e.candid_conform param)) fun _ =>
      .bind (candid_resolveArgs h (index + 1) params rest) fun _ => .ok _

end

/-- In a quiet context the check reports types that do not fit only if they do not. -/
theorem genuine_of_check (h : ctx.Quiet) {expected s t : ValueType} {e : Expression}
    (herror : e.check ctx expected = .error (.typeMismatch s t)) : t.assignable s = false := by
  have hcandid : Candid (e.check ctx expected) :=
    .bind (candid_resolve h e) fun e => e.candid_conform expected
  exact hcandid _ herror

end Expression

/-! ### Types and their texts -/

namespace ValueType

/-- A type that can be told by its text. -/
structure Recognizable (t : ValueType) : Prop where
  /-- No object type names a property twice. -/
  names : t.DistinctNames
  /-- Every name is a name, and every union has a variant. -/
  legible : t.Legible
  /-- No function stands in front of another variant. -/
  settled : t.Settled

/-- Recognizable types with the same text go to each other. -/
theorem assignable_of_display {s t : ValueType} (hs : s.Recognizable) (ht : t.Recognizable)
    (h : s.display = t.display) : s.assignable t = true := by
  have heq := variants_eq_of_display hs.legible hs.settled ht.legible ht.settled h
  exact (Assigns.of_variants s t hs.names ht.names fun v hv => heq ▸ hv).assignable

/-- Recognizable types with the same text go to each other; so a report that one was expected where
the other was found shows two texts. -/
theorem display_unambiguous (s t : ValueType) (hs : s.Recognizable) (ht : t.Recognizable) :
    (s.display = t.display → s.assignable t = true ∧ t.assignable s = true) ∧
      ∀ (ctx : Context) (expected : ValueType) (e : Expression), ctx.Quiet →
        e.check ctx expected = .error (.typeMismatch s t) → s.display ≠ t.display := by
  refine ⟨fun h => ⟨assignable_of_display hs ht h, assignable_of_display ht hs h.symm⟩,
    fun ctx expected e hctx herror h => ?_⟩
  have hrefused := Expression.genuine_of_check hctx herror
  exact Bool.false_ne_true (hrefused.symm.trans (assignable_of_display ht hs h.symm))

/-- Lists of texts and articles, titles, or functions, with the first two in a union of their
own. -/
def nestedUnion : ValueType :=
  .union [.union [.array (.union [.string, .entity "Article"]), .object [("title", .string)]],
    .function [] (.union [.string, .number])]

/-- The same with other unions inside. -/
def flatUnion : ValueType :=
  .union [.array (.union [.string, .entity "Article"]), .object [("title", .union [.string])],
    .function [] (.union [.union [.string, .number]])]

theorem isName_article : IsName "Article" := ⟨by decide, by decide⟩

theorem isName_title : IsName "title" := ⟨by decide, by decide⟩

theorem recognizable_string : ValueType.string.Recognizable where
  names := by simp [DistinctNames]
  legible := by simp [Legible, throughout_iff, parts, Spelled]
  settled := by simp [Settled, throughout_iff, parts, variants]

theorem recognizable_nestedUnion : nestedUnion.Recognizable where
  names := by simp [nestedUnion, DistinctNames, DistinctNamesAll, DistinctNamesFields]
  legible := by
    simp [nestedUnion, Legible, throughout_iff, parts, Spelled, isName_article, isName_title]
  settled := by
    simp [nestedUnion, Settled, throughout_iff, parts, variants, variantsList, isFunction]

theorem recognizable_flatUnion : flatUnion.Recognizable where
  names := by simp [flatUnion, DistinctNames, DistinctNamesAll, DistinctNamesFields]
  legible := by
    simp [flatUnion, Legible, throughout_iff, parts, Spelled, isName_article, isName_title]
  settled := by
    simp [flatUnion, Settled, throughout_iff, parts, variants, variantsList, isFunction]

/-- The two go to each other, since they have the same text.  Where one of them is expected and a
text is found, the report shows two texts. -/
theorem display_unambiguous_flatUnion :
    nestedUnion.display =
        "(string | Article)[] | \x7b title: string \x7d | () => string | number" ∧
      nestedUnion.assignable flatUnion = true ∧ flatUnion.assignable nestedUnion = true ∧
      nestedUnion.display ≠ ValueType.string.display := by
  have hsame : nestedUnion.display = flatUnion.display := by decide +kernel
  obtain ⟨hassignable, -⟩ :=
    display_unambiguous nestedUnion flatUnion recognizable_nestedUnion recognizable_flatUnion
  obtain ⟨-, hreported⟩ :=
    display_unambiguous nestedUnion .string recognizable_nestedUnion recognizable_string
  obtain ⟨hforward, hbackward⟩ := hassignable hsame
  have hquiet := Tree.quiet_context {} {} "Home"
  have hrefused : ¬ValueType.string.assignable nestedUnion = true := by decide +kernel
  have hreport : Expression.check (Tree.context {} {} "Home") nestedUnion (.string "seven") =
      .error (.typeMismatch nestedUnion .string) := by
    rw [Expression.check, Expression.resolve]
    exact if_neg hrefused
  exact ⟨by decide +kernel, hforward, hbackward, hreported _ _ _ hquiet hreport⟩

/-! ### Functions in front of another variant -/

/-- A function that gives a text or a number. -/
def returnsEither : ValueType := .function [] (.union [.string, .number])

/-- A function that gives a text, or a number. -/
def readerOrNumber : ValueType := .union [.function [] .string, .number]

/-- A function in front of another variant has the text of one that gives that variant, too, though
neither goes to the other.  Where the one is expected and the other is found, the report shows the
same text twice. -/
theorem not_display_unambiguous_readerOrNumber :
    (readerOrNumber.DistinctNames ∧ readerOrNumber.Legible) ∧
      (returnsEither.DistinctNames ∧ returnsEither.Legible) ∧
      readerOrNumber.display = "() => string | number" ∧
      returnsEither.display = "() => string | number" ∧
      readerOrNumber.assignable returnsEither = false ∧
      returnsEither.assignable readerOrNumber = false ∧
      Expression.check (Definitions.context {} fun _ _ => .ok returnsEither) readerOrNumber
          (.output "Repo" "read" []) =
        .error (.typeMismatch readerOrNumber returnsEither) := by
  refine ⟨⟨?_, ?_⟩, ⟨?_, ?_⟩, by decide +kernel, by decide +kernel, by decide +kernel,
    by decide +kernel, ?_⟩
  · simp [readerOrNumber, DistinctNames, DistinctNamesAll]
  · simp [readerOrNumber, Legible, throughout_iff, parts, Spelled]
  · simp [returnsEither, DistinctNames, DistinctNamesAll]
  · simp [returnsEither, Legible, throughout_iff, parts, Spelled]
  · have hrefused : ¬returnsEither.assignable readerOrNumber = true := by decide +kernel
    simp only [Expression.check, Expression.resolve, Expression.resolveSelectors]
    exact if_neg hrefused

end ValueType

end SlotTree
