import SlotTree.Proofs.Tree.Linked
import SlotTree.Tree.Edit

/-!
# Children that move

When a slot changes, the children behind the change get the links of their new places.  An edit
gives these links to the nodes one after the other.

## Main definitions

* `Node.settle` — a node at a new place, if it is given one.

## Main results

* `Draft.moveChildren_eq_ok` — what becomes of the children that move.
-/

namespace SlotTree

/-- A node at a new place, if it is given one. -/
def Node.settle (n : Node) : Option ParentLink → Node
  | some link => n.moveTo link
  | none => n

namespace Node

@[simp] theorem settle_none (n : Node) : n.settle none = n := rfl

/-- A node that is given no new place keeps the one that it has. -/
theorem settle_eq (n : Node) (link : Option ParentLink) :
    n.settle link = { n with parent := link.or n.parent } := by
  cases link <;> rfl

@[simp] theorem id_settle (n : Node) (link : Option ParentLink) : (n.settle link).id = n.id := by
  cases link <;> rfl

@[simp] theorem schema_settle (n : Node) (link : Option ParentLink) :
    (n.settle link).schema = n.schema := by
  cases link <;> rfl

@[simp] theorem slots_settle (n : Node) (link : Option ParentLink) :
    (n.settle link).slots = n.slots := by
  cases link <;> rfl

@[simp] theorem inputs_settle (n : Node) (link : Option ParentLink) :
    (n.settle link).inputs = n.inputs := by
  cases link <;> rfl

@[simp] theorem parent_settle_some (n : Node) (link : ParentLink) :
    (n.settle (some link)).parent = some link := rfl

end Node

namespace Draft

@[simp] theorem tree_touch (d : Draft) (id : String) : (d.touch id).tree = d.tree := by
  rw [touch]
  split <;> rfl

@[simp] theorem tree_put (d : Draft) (id : String) (n : Node) :
    (d.put id n).tree = d.tree.put id n := rfl

@[simp] theorem tree_drop (d : Draft) (id : String) : (d.drop id).tree = d.tree.drop id := rfl

theorem foldlM_moveChild (es : List (String × ParentLink)) (hd : (es.map Prod.fst).Nodup) :
    ∀ d : Draft, (∀ e ∈ es, ∃ n, d.tree.nodes.get? e.1 = some n) →
      ∃ d', es.foldlM moveChild d = .ok d' ∧ d'.tree.root = d.tree.root ∧
        d'.tree.size = d.tree.size ∧ ∀ y, d'.tree.nodes.get? y =
          (d.tree.nodes.get? y).map fun n => n.settle (List.lookup y es) := by
  induction es with
  | nil =>
    intro d _
    refine ⟨d, rfl, rfl, rfl, fun y => ?_⟩
    cases d.tree.nodes.get? y <;> rfl
  | cons e rest ih =>
    intro d hknown
    rw [List.map_cons, List.nodup_cons] at hd
    obtain ⟨n, hn⟩ := hknown e List.mem_cons_self
    -- the first child moves, and the others are still there
    obtain ⟨d', hd', hroot, hsize, hget⟩ := ih hd.2 ((d.put e.1 (n.moveTo e.2)).touch e.1) (by
      intro f hf
      obtain ⟨m, hm⟩ := hknown f (List.mem_cons_of_mem _ hf)
      rw [tree_touch, tree_put, Tree.get?_put]
      split
      · exact ⟨_, rfl⟩
      · exact ⟨m, hm⟩)
    refine ⟨d', ?_, ?_, ?_, fun y => ?_⟩
    · rw [List.foldlM_cons, moveChild, Tree.node_eq_ok_iff.mpr hn]
      exact hd'
    · rw [hroot, tree_touch]
      rfl
    · rw [hsize, tree_touch]
      exact SortedMap.size_insert_of_get? hn _
    · rw [hget, tree_touch, tree_put, Tree.get?_put]
      by_cases hy : e.1 = y
      · -- no child moves twice
        subst hy
        rw [if_pos rfl, hn, lookup_eq_none_iff.mpr hd.1]
        simp [Node.settle]
      · rw [if_neg hy]
        simp [hy]

/-- The children that move come to the places that they are given; all else stays. -/
theorem moveChildren_eq_ok (d : Draft) (moved : MovedChildren)
    (h : ∀ y link, moved.get? y = some link → ∃ n, d.tree.nodes.get? y = some n) :
    ∃ d', d.moveChildren moved = .ok d' ∧ d'.tree.root = d.tree.root ∧
      d'.tree.size = d.tree.size ∧ ∀ y, d'.tree.nodes.get? y =
        (d.tree.nodes.get? y).map fun n => n.settle (moved.get? y) :=
  foldlM_moveChild moved.entries moved.nodup_keys d
    fun e he => h e.1 e.2 (SortedMap.mem_entries_iff.mp he)

end Draft

end SlotTree
