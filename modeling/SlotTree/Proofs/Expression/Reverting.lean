import SlotTree.Expression.Typed
import SlotTree.Proofs.Expression.Retargeting

/-!
# Retargeting and back

Retargeting changes the heads that have the old id and nothing besides.  So where the new id was not
in use, nothing is lost: the same walk, from the new id to the old one, gives the expression that
was there before.

## Main definitions

* `Expression.shape` — an expression with the nodes of its heads blanked out.

## Main results

* `Expression.heads_relabel`, `Expression.shape_relabel` — what a renaming changes, and what not.
* `Expression.relabel_comp` — two renamings, one after the other.
* `Expression.walk_retargeting_back` — the walk back restores the expression.
* `TypedExpression.retarget_exact` — retargeting of a typed expression is exact and reversible.
-/

namespace SlotTree

namespace Expression

/-- An expression with the nodes of its heads blanked out. -/
def shape (e : Expression) : Expression := e.relabel fun _ => ""

/-! ### Renamings -/

mutual

/-- A renaming acts on the ids at the heads, one by one. -/
theorem heads_relabel (f : String → String) : ∀ e : Expression,
    (e.relabel f).heads = e.heads.map fun h => (f h.1, h.2)
  | .output nodeId outputName ss => by
    rw [relabel, heads, heads, List.map_cons, selectorHeads_relabelSelectors f ss]
  | .string _ | .number _ | .boolean _ | .json _ _ => by rw [relabel, heads, List.map_nil]

theorem selectorHeads_relabelSelectors (f : String → String) : ∀ ss : List (Selector Expression),
    selectorHeads (relabelSelectors f ss) = (selectorHeads ss).map fun h => (f h.1, h.2)
  | [] => by rw [relabelSelectors, selectorHeads, List.map_nil]
  | .property name :: rest => by
    rw [relabelSelectors, selectorHeads, selectorHeads, selectorHeads_relabelSelectors f rest]
  | .method name args :: rest => by
    rw [relabelSelectors, selectorHeads, selectorHeads, List.map_append,
      argHeads_relabelArgs f args, selectorHeads_relabelSelectors f rest]
  | .call args :: rest => by
    rw [relabelSelectors, selectorHeads, selectorHeads, List.map_append,
      argHeads_relabelArgs f args, selectorHeads_relabelSelectors f rest]

theorem argHeads_relabelArgs (f : String → String) : ∀ args : List (Option Expression),
    argHeads (relabelArgs f args) = (argHeads args).map fun h => (f h.1, h.2)
  | [] => by rw [relabelArgs, argHeads, List.map_nil]
  | none :: rest => by rw [relabelArgs, argHeads, argHeads, argHeads_relabelArgs f rest]
  | some e :: rest => by
    rw [relabelArgs, argHeads, argHeads, List.map_append, heads_relabel f e,
      argHeads_relabelArgs f rest]

end

mutual

/-- Two renamings, one after the other, are one renaming. -/
theorem relabel_comp (g f : String → String) : ∀ e : Expression,
    (e.relabel f).relabel g = e.relabel (g ∘ f)
  | .output nodeId outputName ss => by
    rw [relabel, relabel, relabel, relabelSelectors_comp g f ss, Function.comp_apply]
  | .string _ | .number _ | .boolean _ | .json _ _ => by rw [relabel, relabel, relabel]

theorem relabelSelectors_comp (g f : String → String) : ∀ ss : List (Selector Expression),
    relabelSelectors g (relabelSelectors f ss) = relabelSelectors (g ∘ f) ss
  | [] => by rw [relabelSelectors, relabelSelectors, relabelSelectors]
  | .property name :: rest => by
    rw [relabelSelectors, relabelSelectors, relabelSelectors, relabelSelectors_comp g f rest]
  | .method name args :: rest => by
    rw [relabelSelectors, relabelSelectors, relabelSelectors, relabelArgs_comp g f args,
      relabelSelectors_comp g f rest]
  | .call args :: rest => by
    rw [relabelSelectors, relabelSelectors, relabelSelectors, relabelArgs_comp g f args,
      relabelSelectors_comp g f rest]

theorem relabelArgs_comp (g f : String → String) : ∀ args : List (Option Expression),
    relabelArgs g (relabelArgs f args) = relabelArgs (g ∘ f) args
  | [] => by rw [relabelArgs, relabelArgs, relabelArgs]
  | none :: rest => by rw [relabelArgs, relabelArgs, relabelArgs, relabelArgs_comp g f rest]
  | some e :: rest => by
    rw [relabelArgs, relabelArgs, relabelArgs, relabel_comp g f e, relabelArgs_comp g f rest]

end

mutual

theorem relabel_id : ∀ e : Expression, e.relabel id = e
  | .output nodeId outputName ss => by rw [relabel, relabelSelectors_id ss, id_eq]
  | .string _ | .number _ | .boolean _ | .json _ _ => by rw [relabel]

theorem relabelSelectors_id : ∀ ss : List (Selector Expression), relabelSelectors id ss = ss
  | [] => by rw [relabelSelectors]
  | .property name :: rest => by rw [relabelSelectors, relabelSelectors_id rest]
  | .method name args :: rest => by
    rw [relabelSelectors, relabelArgs_id args, relabelSelectors_id rest]
  | .call args :: rest => by
    rw [relabelSelectors, relabelArgs_id args, relabelSelectors_id rest]

theorem relabelArgs_id : ∀ args : List (Option Expression), relabelArgs id args = args
  | [] => by rw [relabelArgs]
  | none :: rest => by rw [relabelArgs, relabelArgs_id rest]
  | some e :: rest => by rw [relabelArgs, relabel_id e, relabelArgs_id rest]

end

/-- A renaming leaves everything but the nodes of the heads as it is. -/
theorem shape_relabel (f : String → String) (e : Expression) : (e.relabel f).shape = e.shape := by
  rw [shape, shape, relabel_comp]
  rfl

/-! ### The way back -/

/-- An id that is not the new one comes back. -/
theorem replaceId_replaceId {old new id : String} (h : id ≠ new) :
    replaceId new old (replaceId old new id) = id := by
  unfold replaceId
  by_cases hid : id = old
  · rw [if_pos hid, if_pos rfl, hid]
  · rw [if_neg hid, if_neg h]

/-- Where the old id occurs and the new one does not, the walk back from the new id to the old one
restores the expression. -/
theorem walk_retargeting_back {old new : String} {e : Expression}
    (hold : ∃ h ∈ e.heads, h.1 = old) (hnew : ∀ h ∈ e.heads, h.1 ≠ new) :
    (e.relabel (replaceId old new)).walk (retargeting new old) false = (e, true) := by
  have hback : (e.relabel (replaceId old new)).relabel (replaceId new old) = e := by
    rw [relabel_comp]
    exact (relabel_congr fun h hh => replaceId_replaceId (hnew h hh)).trans (relabel_id e)
  have hrefers : refersTo new (e.relabel (replaceId old new)).heads = true := by
    obtain ⟨h, hh, rfl⟩ := hold
    rw [refersTo_eq_true_iff, heads_relabel]
    exact ⟨_, List.mem_map_of_mem hh, if_pos rfl⟩
  rw [walk_retargeting, hback, hrefers, Bool.false_or]

end Expression

namespace TypedExpression

open Expression

theorem retarget?_eq_none_iff {e : TypedExpression} {old new : String} :
    e.retarget? old new = none ↔ ∀ h ∈ e.erase.heads, h.1 ≠ old := by
  rw [retarget?, Expression.retarget?_eq, ite_eq_right_iff, refersTo_eq_true_iff]
  constructor
  · intro hnone h hh hid
    cases hnone ⟨h, hh, hid⟩
  · rintro hother ⟨h, hh, hid⟩
    exact absurd hid (hother h hh)

theorem retarget?_eq_some {e : TypedExpression} {old new : String}
    (hold : ∃ h ∈ e.erase.heads, h.1 = old) :
    e.retarget? old new = some (e.erase.relabel (replaceId old new)) := by
  rw [retarget?, Expression.retarget?_eq, if_pos (refersTo_eq_true_iff.mpr hold)]

/-- Retargeting gives nothing exactly for an expression without a head of the old node.  Otherwise
it gives the expression with the new id in place of the old one at its heads and all else as it was;
and where the new id was at no head, the same walk back gives the expression itself. -/
theorem retarget_exact (e : TypedExpression) (old new : String) :
    (e.retarget? old new = none ↔ ∀ h ∈ e.erase.heads, h.1 ≠ old) ∧
      ((∃ h ∈ e.erase.heads, h.1 = old) → ∃ rewritten,
        e.retarget? old new = some rewritten ∧
        rewritten = e.erase.relabel (replaceId old new) ∧
        rewritten.heads = e.erase.heads.map (fun h => (replaceId old new h.1, h.2)) ∧
        rewritten.shape = e.erase.shape ∧
        ((∀ h ∈ e.erase.heads, h.1 ≠ new) →
          rewritten.walk (retargeting new old) false = (e.erase, true))) :=
  ⟨retarget?_eq_none_iff, fun hold =>
    ⟨_, retarget?_eq_some hold, rfl, heads_relabel _ _, shape_relabel _ _,
      walk_retargeting_back hold⟩⟩

/-- The call of an output of one node, with outputs of another and of the same node among its
arguments. -/
def nestedCall : TypedExpression :=
  .output "Repo" "update"
    [.call [some (.output "List" "item" [.property "title"] .string), none],
      .method "Article::format" [some (.output "Repo" "note" [] .string)]] .string

theorem retarget_exact_nestedCall :
    nestedCall.retarget? "Repo" "Articles" =
        some (.output "Articles" "update"
          [.call [some (.output "List" "item" [.property "title"]), none],
            .method "Article::format" [some (.output "Articles" "note" [])]]) ∧
      (nestedCall.erase.relabel (replaceId "Repo" "Articles")).walk
        (retargeting "Articles" "Repo") false = (nestedCall.erase, true) := by
  obtain ⟨rewritten, hsome, rfl, -, -, hback⟩ :=
    (retarget_exact nestedCall "Repo" "Articles").2 ⟨("Repo", "update"), by decide, rfl⟩
  exact ⟨hsome, hback (by decide)⟩

end TypedExpression

end SlotTree
