import SlotTree.Proofs.Document.Runs
import SlotTree.Proofs.Tree.Levels

/-!
# Traversals of documents

In every run the two public walks of a document come to an end, and say what the tree is.  The walk
down from the root lists the ids level by level, and no other listing is level by level.  The walk
up from a node ends at the root, and the links that it gives lead from the root down to the node.

## Main definitions

* `Tree.Leads` — links that lead from one node down to another.
* `Tree.Walkable` — a tree that the two walks describe.

## Main results

* `Tree.Linked.leads` — the links of a way up lead back down.
* `Document.walkable_run` — the walks of a document describe its tree, in every run.
-/

namespace SlotTree

namespace Tree

variable {defs : Definitions} {t : Tree}

/-! ### Down the links -/

/-- Links that lead from one node down to another: the first names the node where it starts, every
other one the node that the one before it holds in its slot at its position, and the last holds the
node where it ends. -/
inductive Leads (t : Tree) : String → List ParentLink → String → Prop where
  /-- Without links one stays where one is. -/
  | here {x : String} : Leads t x [] x
  /-- A link leads from the node that it names to the one at its place. -/
  | step {y z : String} {link : ParentLink} {links : List ParentLink} {p : Node} :
    t.nodes.get? link.nodeId = some p → p.child? link.slotName link.index = some y →
      Leads t y links z → Leads t link.nodeId (link :: links) z

/-- One more link leads one node further down. -/
theorem Leads.snoc {x y : String} {links : List ParentLink} {link : ParentLink} {p : Node}
    (h : t.Leads x links link.nodeId) (hp : t.nodes.get? link.nodeId = some p)
    (hc : p.child? link.slotName link.index = some y) : t.Leads x (links ++ [link]) y := by
  generalize hz : link.nodeId = z at h
  induction h with
  | here => subst hz; exact .step hp hc .here
  | step hp' hc' _ ih => exact .step hp' hc' (ih hz)

/-- The links of a way up lead back down from the root. -/
theorem Linked.leads (h : Linked defs t) {x r : String} {n : Node}
    {path : List (ParentLink × Node)} (hr : t.root = some r) (hn : t.nodes.get? x = some n)
    (hc : t.Climbs n path) : t.Leads r (path.map Prod.fst).reverse x := by
  induction hc generalizing x with
  | root hnone =>
    have htop := h.top hn hnone
    rw [hr, Option.some.injEq] at htop
    subst htop
    exact .here
  | up hlink hp _ ih =>
    obtain ⟨p, hp', hplace⟩ := h.up hn hlink
    rw [List.map_cons, List.reverse_cons]
    exact (ih hp).snoc hp' hplace

/-! ### Trees described by their walks -/

/-- A tree that the walk level by level and the way up describe. -/
structure Walkable (t : Tree) : Prop where
  /-- The walk from the root comes to its end, and what it lists is the listing of all ids. -/
  walk : ∀ ids, t.Visits t.root.toList ids ↔ ids = t.keys
  /-- The listing of all ids is the one that goes level by level. -/
  levels : ∀ ids, t.LevelOrder ids ↔ ids = t.keys
  /-- The way up from a node comes to its end; its links lead from the root to the node, and there
  are none for the root alone. -/
  ancestors : ∀ x, t.has x = true → ∃ n r path, t.nodes.get? x = some n ∧ t.root = some r ∧
    t.Climbs n path ∧ t.ancestorLinks x = .ok (path.map Prod.fst).reverse ∧
      t.Leads r (path.map Prod.fst).reverse x ∧ (path = [] ↔ x = r)

theorem Linked.walkable (h : Linked defs t) : t.Walkable where
  walk ids := by
    constructor
    · exact fun hids => hids.unique h.visits_keys
    · rintro rfl
      exact h.visits_keys
  levels ids := by
    constructor
    · exact fun hids => hids.unique h h.levelOrder_keys
    · rintro rfl
      exact h.levelOrder_keys
  ancestors x hx := by
    obtain ⟨n, hn⟩ := has_eq_true_iff.mp hx
    obtain ⟨path, hpath⟩ := h.climbs hn
    obtain ⟨r, hr⟩ : ∃ r, t.root = some r := by
      rw [← Option.ne_none_iff_exists']
      intro hroot
      rw [h.root_eq_none_iff.mp hroot] at hn
      cases hn
    refine ⟨n, r, path, hn, hr, hpath, h.ancestorLinks_eq hn hpath, h.leads hr hn hpath, ?_⟩
    constructor
    · rintro rfl
      cases hpath with
      | root hnone =>
        have htop := h.top hn hnone
        rw [hr, Option.some.injEq] at htop
        exact htop.symm
    · rintro rfl
      obtain ⟨m, hm, hnone⟩ := h.rooted hr
      rw [hn, Option.some.injEq] at hm
      exact hpath.unique (.root (hm ▸ hnone))

end Tree

namespace Document

/-- In every run of an empty document the two walks describe the tree. -/
theorem walkable_run (name : String) (defs : Definitions) (config : DocumentConfig)
    (calls : List Call) : ((Document.new name defs config).run calls).tree.Walkable :=
  (valid_run name defs config calls).linked.walkable

end Document

end SlotTree
