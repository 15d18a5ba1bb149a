import SlotTree.Proofs.Edit.Regraft

/-!
# Deleting nodes

What the tree is when a node has been deleted with all that is below it.

## Main definitions

* `Tree.Shrinks` — a tree before and after a child has been deleted.

## Main results

* `Draft.delete_root_eq_ok`, `Draft.delete_child_eq_ok` — a node that exists is deleted.
* `Draft.delete_child_shrinks` — a child that is deleted has gone from its parent.
* `Tree.Shrinks.regraft` — a child goes from its parent; all else stays.
-/

namespace SlotTree

namespace Tree

variable {defs : Definitions} {t t' : Tree} {x : String} {p : Node} {slotName : String}
  {content : SlotContent} {k : Option Nat}

/-- A child has been deleted from a place of its parent, with all that was below it. -/
structure Shrinks (t t' : Tree) (x : String) (p : Node) (slotName : String)
    (content : SlotContent) (k : Option Nat) : Prop where
  /-- The parent before. -/
  before : t.nodes.get? p.id = some p
  /-- What the slot held before. -/
  slot : p.slots.get? slotName = some content
  /-- The place of the child. -/
  child : content.child? k = some x
  /-- The root stays. -/
  root : t'.root = t.root
  /-- The parent after. -/
  after : t'.nodes.get? p.id = some (p.detach slotName content k)
  /-- The child has gone, and all below it. -/
  gone : ∀ y, t.Below x y → t'.nodes.get? y = none
  /-- All other nodes stay, but for the places of those that move. -/
  others : ∀ y, ¬ t.Below x y → y ≠ p.id →
    t'.nodes.get? y = (t.nodes.get? y).map fun n => n.settle
      ((p.movedLinks slotName k (content.detach k)).get? y)

theorem Shrinks.child? (hg : Shrinks t t' x p slotName content k) :
    p.child? slotName k = some x := by
  rw [Node.child?_of_get? hg.slot]
  exact hg.child

/-- The slot in which a node hangs. -/
theorem Linked.up_slot (h : Linked defs t) {n : Node} {link : ParentLink}
    (hn : t.nodes.get? x = some n) (hlink : n.parent = some link) :
    ∃ p content, t.nodes.get? link.nodeId = some p ∧ p.slots.get? link.slotName = some content ∧
      content.child? link.index = some x := by
  obtain ⟨p, hp, hx⟩ := h.up hn hlink
  obtain ⟨content, hslot, hchild⟩ := Node.child?_eq_some_iff.mp hx
  exact ⟨p, content, hp, hslot, hchild⟩

/-- A parent is not below its child. -/
theorem Linked.not_below_of_child (h : Linked defs t) (hp : t.nodes.get? p.id = some p) {s : String}
    {i : Option Nat} (hx : p.child? s i = some x) : ¬ t.Below x p.id := by
  obtain ⟨n, hn, hlink⟩ := h.down hp hx
  exact h.not_below_parent hn hlink

/-- A child goes from its parent; all else stays. -/
theorem Shrinks.regraft (hg : Shrinks t t' x p slotName content k) (h : Linked defs t) :
    Regraft defs t t' (fun y => ¬ t.Below x y) p (p.detach slotName content k) x
      (p.movedLinks slotName k (content.detach k)) := by
  have hext := Node.extends_detach hg.slot hg.child
  exact {
    root := hg.root
    before := hg.before
    after := hg.after
    keptNode := h.not_below_of_child hg.before hg.child?
    named := rfl
    schema := rfl
    place := rfl
    fits := hext.fits_small (h.fits hg.before)
    settles := Node.settles_removeChild hg.slot hg.child (h.distinct hg.before)
    traces := fun ht => (Node.inherits_detach (h.fits hg.before) ht hg.slot hg.child).2
    others := hg.others
    child := fun hnot => hnot .self
    leaf := by
      intro y n hk hn
      rw [hg.gone y (Classical.not_not.mp hk)] at hn
      cases hn
    -- nothing comes, and the child that goes is held nowhere any more
    placed := by
      intro s i hi
      exact absurd hi (hext.not_mem_small (h.distinct hg.before))
    keptParent := fun y n link hk hn hlink hb => hk (.child hn hlink hb)
    keptChild := by
      intro y n s i z hk hn hz
      by_cases hb : t.Below x z
      · -- the only child of a kept node that is not kept is the one that goes
        obtain ⟨m, hm, hlink⟩ := h.down hn hz
        by_cases hzx : z = x
        · subst hzx
          exact .inr ⟨rfl, (h.place_unique hn hz hg.before hg.child?).1⟩
        · exact absurd (Linked.below_parent hb hzx hm hlink) hk
      · exact .inl hb }

end Tree

/-! ### The edit -/

namespace Draft

variable {defs : Definitions} {d : Draft}

theorem get?_foldl_discard (ids : List String) : ∀ d : Draft,
    (ids.foldl discard d).tree.root = d.tree.root ∧ ∀ y, (ids.foldl discard d).tree.nodes.get? y =
      if y ∈ ids then none else d.tree.nodes.get? y := by
  induction ids with
  | nil => exact fun d => ⟨rfl, fun y => by simp⟩
  | cons id rest ih =>
    intro d
    obtain ⟨hroot, hget⟩ := ih (d.discard id)
    rw [List.foldl_cons]
    refine ⟨by rw [hroot, discard, tree_touch]; rfl, fun y => ?_⟩
    rw [hget, discard, tree_touch, tree_drop, Tree.get?_drop]
    by_cases hy : id = y
    · simp [hy]
    · simp [hy, Ne.symm hy]

/-- With the root everything goes. -/
theorem delete_root_eq_ok {x : String} {n : Node} (hn : d.tree.nodes.get? x = some n)
    (hroot : n.parent = none) : ∃ d', d.delete x = .ok d' ∧ d'.tree = {} := by
  rw [delete, Tree.node_eq_ok_iff.mpr hn, Outcome.ok_bind, hroot]
  exact ⟨_, rfl, rfl⟩

section Child

variable {x : String} {n p : Node} {link : ParentLink} {content : SlotContent}
  (h : Tree.Linked defs d.tree) (hn : d.tree.nodes.get? x = some n) (hlink : n.parent = some link)
  (hp : d.tree.nodes.get? link.nodeId = some p) (hslot : p.slots.get? link.slotName = some content)
  (hchild : content.child? link.index = some x)

include h hn hlink hp hslot hchild

/-- The steps in which a child is deleted. -/
theorem delete_child_steps :
    ∃ e : Draft, ((d.put link.nodeId (p.detach link.slotName content link.index)).touch
        link.nodeId).moveChildren
          (p.movedLinks link.slotName link.index (content.detach link.index)) = .ok e ∧
      d.delete x = .ok ((e.tree.breadthFirst x).foldl discard e) ∧
      e.tree.root = d.tree.root ∧ (∀ y, y ∈ e.tree.breadthFirst x ↔ d.tree.Below x y) ∧
      ∀ y, e.tree.nodes.get? y = (if link.nodeId = y then
        some (p.detach link.slotName content link.index) else d.tree.nodes.get? y).map
          fun m => m.settle
            ((p.movedLinks link.slotName link.index (content.detach link.index)).get? y) := by
  have hid := h.ownId hp
  have hp' : d.tree.nodes.get? p.id = some p := hid.symm ▸ hp
  have hset := Node.settles_removeChild hslot hchild (h.distinct hp)
  obtain ⟨e, he, hroot, hsize, hget⟩ := moveChildren_eq_ok
    ((d.put link.nodeId (p.detach link.slotName content link.index)).touch link.nodeId)
    (p.movedLinks link.slotName link.index (content.detach link.index)) (by
    -- the children that move exist, and the parent is none of them
    intro y l hl
    obtain ⟨-, -, -, i, hi⟩ := hset.given y l hl
    obtain ⟨m, hm, -⟩ := h.down hp' hi
    rw [tree_touch, tree_put, Tree.get?_put,
      if_neg fun heq => h.child_ne_self hp' hi (hid.trans heq).symm]
    exact ⟨m, hm⟩)
  rw [tree_touch, tree_put] at hroot hsize hget
  simp only [Tree.get?_put] at hget
  -- what is below the child has not changed so far, so the walk finds the same nodes
  have hbf : e.tree.breadthFirst x = d.tree.breadthFirst x := by
    refine h.breadthFirst_congr (hsize.trans (SortedMap.size_insert_of_get? hp _)) fun y hb => ?_
    have hne : link.nodeId ≠ y := by
      rintro rfl
      exact h.not_below_parent hn hlink hb
    rw [hget, if_neg hne, Option.map_map]
    congr 1
    funext m
    cases (p.movedLinks link.slotName link.index (content.detach link.index)).get? y <;> rfl
  refine ⟨e, he, ?_, hroot, fun y => ?_, hget⟩
  · rw [delete, Tree.node_eq_ok_iff.mpr hn, Outcome.ok_bind, hlink]
    simp only [Tree.node_eq_ok_iff.mpr hp, Outcome.ok_bind, Node.removeChild_eq_ok hslot hchild,
      Outcome.ok_mapError, he]
    rfl
  · rw [hbf]
    exact h.mem_breadthFirst_iff hn

/-- With a child all that is below it goes. -/
theorem delete_child_shrinks :
    ∃ d', d.delete x = .ok d' ∧
      Tree.Shrinks d.tree d'.tree x p link.slotName content link.index := by
  obtain ⟨e, -, hdel, hroot, hmem, hget⟩ := delete_child_steps h hn hlink hp hslot hchild
  have hid := h.ownId hp
  have hp' : d.tree.nodes.get? p.id = some p := hid.symm ▸ hp
  have hx : p.child? link.slotName link.index = some x := by
    rw [Node.child?_of_get? hslot]
    exact hchild
  -- the parent is none of the children that move
  have hstill : (p.movedLinks link.slotName link.index (content.detach link.index)).get? p.id =
      none := by
    rw [Option.eq_none_iff_forall_ne_some]
    intro l hl
    obtain ⟨-, -, -, i, hi⟩ :=
      (Node.settles_removeChild hslot hchild (h.distinct hp)).given _ l hl
    exact h.child_ne_self hp' hi rfl
  obtain ⟨hroot', hget'⟩ := get?_foldl_discard (e.tree.breadthFirst x) e
  refine ⟨(e.tree.breadthFirst x).foldl discard e, hdel, ?_⟩
  exact {
    before := hp'
    slot := hslot
    child := hchild
    root := hroot'.trans hroot
    after := by
      rw [hget', if_neg fun hy => h.not_below_of_child hp' hx ((hmem _).mp hy), hget,
        if_pos hid.symm, hstill]
      rfl
    gone := fun y hb => by rw [hget', if_pos ((hmem y).mpr hb)]
    others := by
      intro y hb hne
      rw [hget', if_neg fun hy => hb ((hmem y).mp hy), hget,
        if_neg fun heq => hne (hid.trans heq).symm] }

end Child

/-- A child is deleted from its parent. -/
theorem delete_child_eq_ok (h : Tree.Linked defs d.tree) {x : String} {n : Node}
    {link : ParentLink} (hn : d.tree.nodes.get? x = some n) (hlink : n.parent = some link) :
    ∃ d' p content, d.delete x = .ok d' ∧ p.id = link.nodeId ∧
      Tree.Shrinks d.tree d'.tree x p link.slotName content link.index := by
  obtain ⟨p, content, hp, hslot, hchild⟩ := h.up_slot hn hlink
  obtain ⟨d', hd', hshrinks⟩ := delete_child_shrinks h hn hlink hp hslot hchild
  exact ⟨d', p, content, hd', h.ownId hp, hshrinks⟩

end Draft

end SlotTree
