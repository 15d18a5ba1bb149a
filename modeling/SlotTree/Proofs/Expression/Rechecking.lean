import SlotTree.Proofs.Expression.Checking
import SlotTree.Proofs.Expression.Retargeting

/-!
# Checking again

What has passed the check passes it again, as often as its expression is written down and read: the
types that are found do not hang on the type that is asked for, so they are the same wherever the
expression may stand.  The references to one node may be pointed at another one before, if the
context knows of the other what it knew of the one.

## Main results

* `Expression.check_eq_conform` — a check finds the types first, and then compares.
* `Expression.check_again` — a typed expression is found again from its own expression.
* `Expression.check_retargeted` — so it is, under the new id, when its references are retargeted.
-/

namespace SlotTree.Expression

variable {ctx ctx' : Context} {expected type : ValueType} {e : Expression} {te : TypedExpression}

/-- A check finds the types first, whatever is asked for, and then compares. -/
theorem check_eq_conform (h : e.resolve ctx = .ok te) (type : ValueType) :
    e.check ctx type = te.conform type := by
  rw [check, h]
  rfl

/-- A typed expression is the expression that it was made of, and stands where its type may go.
Checked again it is found again, with the same types at every depth, wherever its type may go, and
it is refused everywhere else. -/
theorem check_again (h : e.check ctx expected = .ok te) :
    te.erase = e ∧ te.type.assignable expected = true ∧
      te.erase.check ctx expected = .ok te ∧
      (∀ type, te.type.assignable type = true → te.erase.check ctx type = .ok te) ∧
      ∀ type, te.type.assignable type = false →
        te.erase.check ctx type = .error (.typeMismatch type te.type) := by
  obtain ⟨hresolve, hassign⟩ := check_eq_ok_iff.mp h
  have herase := erase_of_resolve hresolve
  have hagain : ∀ type, te.erase.check ctx type = te.conform type := fun type => by
    rw [herase, check_eq_conform hresolve]
  refine ⟨herase, hassign, by rw [herase, h], fun type htype => ?_, fun type htype => ?_⟩
  · rw [hagain, TypedExpression.conform, if_pos htype]
  · rw [hagain, TypedExpression.conform, if_neg (Bool.eq_false_iff.mp htype)]

/-- A context with one node, whose items are texts that can be joined; the first argument of the
method may be left out. -/
def shopContext (shop : String) : Context :=
  let join : ExtensionMethod :=
    { name := "join", selfType := .array .string
      params := [.union [.string, .undefined], .number], returns := .string }
  Definitions.context { methods := [join] } fun nodeId outputName =>
    if nodeId ≠ shop then .error (.notAnAncestor nodeId)
    else if outputName = "items" then .ok (.array .string)
    else if outputName = "count" then .ok .number
    else .error (.schema (.unknownOutput "Shop" outputName))

/-- The items of a node joined, where one argument is left out and another refers to the node. -/
def joinedItems (shop : String) : Expression :=
  .output shop "items" [.method "join" [none, some (.output shop "count" [])]]

/-- The same with the types that are found for it. -/
def typedItems (shop : String) : TypedExpression :=
  .output shop "items" [.method "join" [none, some (.output shop "count" [] .number)]] .string

theorem check_joinedItems :
    (joinedItems "shop").check (shopContext "shop") .string = .ok (typedItems "shop") := by
  -- the arguments first: the one that is left out, and the reference to the node
  have hargs : resolveArgs (shopContext "shop") 0 [.union [.string, .undefined], .number]
      [none, some (.output "shop" "count" [])] =
        .ok [none, some (.output "shop" "count" [] .number)] :=
    resolveArgs_none_eq_ok.mpr ⟨_, by decide +kernel,
      resolveArgs_some_eq_ok.mpr ⟨_, _, rfl, by decide +kernel, rfl, rfl⟩, rfl⟩
  have hselectors : resolveSelectors (shopContext "shop") (.array .string)
      [.method "join" [none, some (.output "shop" "count" [])]] =
        .ok ([.method "join" [none, some (.output "shop" "count" [] .number)]], .string) :=
    resolveSelectors_method_eq_ok.mpr
      ⟨_, _, _, rfl, by decide +kernel, rfl, hargs, rfl, rfl⟩
  exact check_eq_ok_iff.mpr
    ⟨resolve_output_eq_ok.mpr ⟨_, _, rfl, hselectors, rfl⟩, by decide +kernel⟩

/-- The joined items, which have passed as a text, may also stand where a text may be missing, and
may not stand for a number. -/
theorem check_again_joinedItems :
    (joinedItems "shop").check (shopContext "shop") .string = .ok (typedItems "shop") ∧
      (typedItems "shop").erase = joinedItems "shop" ∧
      (typedItems "shop").erase.check (shopContext "shop") (.union [.string, .undefined]) =
        .ok (typedItems "shop") ∧
      (typedItems "shop").erase.check (shopContext "shop") .number =
        .error (.typeMismatch .number .string) := by
  obtain ⟨herase, -, -, haccepted, hrefused⟩ := check_again check_joinedItems
  exact ⟨check_joinedItems, herase, haccepted _ (by decide +kernel), hrefused _ (by decide +kernel)⟩

/-! ### With other references -/

/-- Retargeted, or as it stands if there is nothing to retarget, the expression of a typed
expression is that of the renamed one. -/
theorem retarget?_getD (old new : String) (te : TypedExpression) :
    (te.retarget? old new).getD te.erase = (te.relabel (replaceId old new)).erase := by
  rw [TypedExpression.retarget?, retarget?_eq, TypedExpression.erase_relabel]
  cases h : refersTo old te.erase.heads with
  | true => rfl
  | false =>
    -- without a head that has the old id the renaming changes nothing
    have hself : te.relabel (replaceId old new) = te := by
      refine TypedExpression.relabel_eq_self fun head hhead => if_neg fun hold => ?_
      exact Bool.false_ne_true (h.symm.trans (refersTo_eq_true_iff.mpr ⟨head, hhead, hold⟩))
    rw [← TypedExpression.erase_relabel, hself]
    rfl

/-- An expression that has passed the check passes it with its references to one node pointed at
another, in a context that knows of every head, under the id that it has then, what the first one
knows.  What it gets is the typed expression with the new id at every head, and so the same type. -/
theorem check_retargeted {old new : String} (hliteral : ∀ name, ctx'.literal name = ctx.literal name)
    (hmethod : ∀ name, ctx'.method name = ctx.method name)
    (houtput : ∀ head ∈ e.heads,
      ctx'.outputType (replaceId old new head.1) head.2 = ctx.outputType head.1 head.2)
    (h : e.check ctx expected = .ok te) :
    ((te.retarget? old new).getD e).check ctx' expected = .ok (te.relabel (replaceId old new)) ∧
      (te.relabel (replaceId old new)).type = te.type := by
  have hsimulates : ctx'.Simulates ctx (replaceId old new) e.heads :=
    ⟨hliteral, hmethod, fun head hhead t ht => (houtput head hhead).trans ht⟩
  have herase := erase_of_check h
  refine ⟨?_, TypedExpression.type_relabel _ te⟩
  rw [← herase, retarget?_getD, TypedExpression.erase_relabel, herase]
  exact check_relabel hsimulates h

/-- When the shop becomes a store, both references to it pass the check again, though there is no
shop any more. -/
theorem check_retargeted_joinedItems :
    (∀ head ∈ (joinedItems "shop").heads,
      (shopContext "store").outputType (replaceId "shop" "store" head.1) head.2 =
        (shopContext "shop").outputType head.1 head.2) ∧
      (joinedItems "shop").check (shopContext "shop") .string = .ok (typedItems "shop") ∧
      (typedItems "shop").retarget? "shop" "store" = some (joinedItems "store") ∧
      (joinedItems "store").check (shopContext "store") .string = .ok (typedItems "store") := by
  have houtput : ∀ head ∈ (joinedItems "shop").heads,
      (shopContext "store").outputType (replaceId "shop" "store" head.1) head.2 =
        (shopContext "shop").outputType head.1 head.2 :=
    List.forall_mem_cons.mpr ⟨rfl, List.forall_mem_singleton.mpr rfl⟩
  have hliteral : ∀ name, (shopContext "store").literal name = (shopContext "shop").literal name :=
    fun _ => rfl
  have hmethod : ∀ name, (shopContext "store").method name = (shopContext "shop").method name :=
    fun _ => rfl
  exact ⟨houtput, check_joinedItems, rfl,
    (check_retargeted hliteral hmethod houtput check_joinedItems).1⟩

end SlotTree.Expression
