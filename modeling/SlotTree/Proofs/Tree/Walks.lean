import Mathlib.Data.Finset.Card
import SlotTree.Proofs.Tree.Linked

/-!
# Walks in a linked tree

The walk level by level is bounded by the number of nodes.  In a linked tree the bound is never met:
the walk visits every node below its start exactly once, and ends with an empty queue.  So does the
way up to the root.

## Main definitions

* `Tree.Visits` — the walk level by level without a bound.

## Main results

* `Tree.Linked.mem_breadthFirst_iff`, `Tree.Linked.nodup_breadthFirst` — what the walk visits.
* `Tree.Linked.visits_keys` — the walk from the root ends without the bound.
* `Tree.Linked.breadthFirst_congr` — the walk sees only the children of the nodes below its start.
* `Tree.Linked.ancestorLinks_eq` — the links from the root down to a node.
* `Tree.Linked.below_iff` — what is below a node, by the ancestors.
-/

namespace SlotTree.Tree

variable {defs : Definitions} {t : Tree}

/-! ### Level by level -/

/-- What a walk without a bound lists when it goes on until its queue is empty.  The first node of
the queue is listed and gives way to its children at the back; an id without a node is skipped. -/
inductive Visits (t : Tree) : List String → List String → Prop where
  /-- With an empty queue the walk is over. -/
  | done : Visits t [] []
  /-- A node is listed, and its children join the queue. -/
  | node {id : String} {queue ids : List String} {n : Node} : t.nodes.get? id = some n →
    Visits t (queue ++ n.childIds) ids → Visits t (id :: queue) (id :: ids)
  /-- An id that is not in use is skipped. -/
  | missing {id : String} {queue ids : List String} : t.nodes.get? id = none →
    Visits t queue ids → Visits t (id :: queue) ids

/-- A walk lists nothing else than it does. -/
theorem Visits.unique {queue ids ids' : List String} (h : t.Visits queue ids)
    (h' : t.Visits queue ids') : ids = ids' := by
  induction h generalizing ids' with
  | done => cases h'; rfl
  | node hn _ ih =>
    cases h' with
    | node hn' h' =>
      rw [hn, Option.some.injEq] at hn'
      subst hn'
      rw [ih h']
    | missing hnone _ => rw [hn] at hnone; cases hnone
  | missing hnone _ ih =>
    cases h' with
    | node hn' _ => rw [hnone] at hn'; cases hn'
    | missing _ h' => exact ih h'

/-- A queue of nodes none of which is below another. -/
structure Queue (t : Tree) (queue : List String) : Prop where
  /-- The nodes exist. -/
  known : ∀ q ∈ queue, ∃ n, t.nodes.get? q = some n
  /-- No node stands in the queue twice. -/
  nodup : queue.Nodup
  /-- None is below another. -/
  apart : ∀ q ∈ queue, ∀ q' ∈ queue, t.Below q q' → q = q'

theorem queue_singleton {x : String} {n : Node} (hx : t.nodes.get? x = some n) : Queue t [x] where
  known := by
    intro q hq
    rw [List.mem_singleton] at hq
    exact ⟨n, hq ▸ hx⟩
  nodup := List.nodup_singleton _
  apart := by
    intro q hq q' hq' _
    rw [List.mem_singleton] at hq hq'
    rw [hq, hq']

/-- A node at the front of the queue gives way to its children at the back. -/
theorem Queue.next (h : Linked defs t) {x : String} {queue : List String} {n : Node}
    (hq : Queue t (x :: queue)) (hx : t.nodes.get? x = some n) : Queue t (queue ++ n.childIds) := by
  have hxq : x ∉ queue := (List.nodup_cons.mp hq.nodup).1
  have hchild : ∀ c ∈ n.childIds, ∃ m link, t.nodes.get? c = some m ∧ m.parent = some link ∧
      link.nodeId = x := by
    intro c hc
    obtain ⟨s, i, hplace⟩ := Node.mem_childIds_iff.mp hc
    obtain ⟨m, hm, hlink⟩ := h.down hx hplace
    exact ⟨m, _, hm, hlink, rfl⟩
  have hbelow : ∀ c ∈ n.childIds, t.Below x c := by
    intro c hc
    obtain ⟨m, link, hm, hlink, hid⟩ := hchild c hc
    exact .child hm hlink (hid ▸ .self)
  -- a child is not in the queue, for then it would be below the node at the front
  have hnot : ∀ c ∈ n.childIds, c ∉ queue := by
    intro c hc hcq
    have := hq.apart x List.mem_cons_self c (List.mem_cons_of_mem _ hcq) (hbelow c hc)
    exact hxq (this ▸ hcq)
  refine ⟨?_, ?_, ?_⟩
  · intro q hmem
    rcases List.mem_append.mp hmem with hmem | hmem
    · exact hq.known q (List.mem_cons_of_mem _ hmem)
    · obtain ⟨m, -, hm, -⟩ := hchild q hmem
      exact ⟨m, hm⟩
  · refine List.nodup_append.mpr
      ⟨(List.nodup_cons.mp hq.nodup).2, (h.distinct hx).nodup_childIds, ?_⟩
    rintro q hmem c hc rfl
    exact hnot q hc hmem
  · intro q hmem q' hmem' hb
    rcases List.mem_append.mp hmem with hmem | hmem
    · rcases List.mem_append.mp hmem' with hmem' | hmem'
      · exact hq.apart q (List.mem_cons_of_mem _ hmem) q' (List.mem_cons_of_mem _ hmem') hb
      · -- what is above a child of `x` is the child, or above `x`
        by_cases hne : q' = q
        · exact hne.symm
        · obtain ⟨m, link, hm, hlink, hid⟩ := hchild q' hmem'
          have := hid ▸ Linked.below_parent hb hne hm hlink
          have := hq.apart q (List.mem_cons_of_mem _ hmem) x List.mem_cons_self this
          exact absurd (this ▸ hmem) hxq
    · rcases List.mem_append.mp hmem' with hmem' | hmem'
      · have := hq.apart x List.mem_cons_self q' (List.mem_cons_of_mem _ hmem')
          ((hbelow q hmem).trans hb)
        exact absurd (this ▸ hmem') hxq
      · -- a child of `x` below another would have `x` below a child of its own
        by_cases hne : q' = q
        · exact hne.symm
        · obtain ⟨m, link, hm, hlink, hid⟩ := hchild q' hmem'
          obtain ⟨m', link', hm', hlink', hid'⟩ := hchild q hmem
          have hxb : t.Below q x := hid ▸ Linked.below_parent hb hne hm hlink
          exact absurd (hid' ▸ hxb) (h.not_below_parent hm' hlink')

/-- What is below the new queue is what is below the old one, except for the node at the front. -/
theorem Queue.below_next (h : Linked defs t) {x : String} {queue : List String} {n : Node}
    (hq : Queue t (x :: queue)) (hx : t.nodes.get? x = some n) {y : String} :
    (∃ q ∈ queue ++ n.childIds, t.Below q y) ↔ y ≠ x ∧ ∃ q ∈ x :: queue, t.Below q y := by
  constructor
  · rintro ⟨q, hqmem, hb⟩
    rcases List.mem_append.mp hqmem with hqmem | hqmem
    · refine ⟨?_, q, List.mem_cons_of_mem _ hqmem, hb⟩
      rintro rfl
      have := hq.apart q (List.mem_cons_of_mem _ hqmem) y List.mem_cons_self hb
      exact (List.nodup_cons.mp hq.nodup).1 (this ▸ hqmem)
    · refine ⟨?_, x, List.mem_cons_self, (h.below_cases hx).mpr (.inr ⟨q, hqmem, hb⟩)⟩
      rintro rfl
      obtain ⟨s, i, hplace⟩ := Node.mem_childIds_iff.mp hqmem
      obtain ⟨m, hm, hlink⟩ := h.down hx hplace
      exact h.not_below_parent hm hlink hb
  · rintro ⟨hne, q, hqmem, hb⟩
    rcases List.mem_cons.mp hqmem with rfl | hqmem
    · rcases (h.below_cases hx).mp hb with heq | ⟨c, hc, hcb⟩
      · exact absurd heq hne
      · exact ⟨c, List.mem_append_right _ hc, hcb⟩
    · exact ⟨q, List.mem_append_left _ hqmem, hb⟩

/-- With enough steps the walk comes to its end; it visits what is below its queue, and nothing
twice. -/
theorem Linked.visitQueue_spec (h : Linked defs t) : ∀ (steps : Nat) (queue : List String)
    (below : Finset String), Queue t queue → (∀ y, y ∈ below ↔ ∃ q ∈ queue, t.Below q y) →
    below.card ≤ steps →
      t.Visits queue (t.visitQueue steps queue) ∧ (t.visitQueue steps queue).Nodup ∧
        ∀ y, y ∈ t.visitQueue steps queue ↔ y ∈ below := by
  -- a step takes one node off what is still below the queue
  intro steps
  induction steps with
  | zero =>
    intro queue below _ hbelow hcard
    rw [Nat.le_zero, Finset.card_eq_zero] at hcard
    -- with nothing below the queue, there is no queue
    have hqueue : queue = [] := by
      refine List.eq_nil_iff_forall_not_mem.mpr fun q hq => ?_
      have := (hbelow q).mpr ⟨q, hq, .self⟩
      rw [hcard] at this
      exact Finset.notMem_empty q this
    rw [visitQueue, hqueue, hcard]
    exact ⟨.done, List.nodup_nil, fun y => by simp⟩
  | succ steps ih =>
    intro queue below hq hbelow hcard
    cases queue with
    | nil =>
      rw [visitQueue]
      refine ⟨.done, List.nodup_nil, fun y => ?_⟩
      rw [hbelow]
      simp
    | cons x queue =>
      obtain ⟨n, hx⟩ := hq.known x List.mem_cons_self
      have hxmem : x ∈ below := (hbelow x).mpr ⟨x, List.mem_cons_self, .self⟩
      have hnext := hq.next h hx
      have hrest : ∀ y, y ∈ below.erase x ↔ ∃ q ∈ queue ++ n.childIds, t.Below q y := by
        intro y
        rw [Finset.mem_erase, hbelow, hq.below_next h hx]
      have hcard' : (below.erase x).card ≤ steps := by
        rw [Finset.card_erase_of_mem hxmem]
        omega
      obtain ⟨hvisits, hnodup, hmem⟩ := ih _ _ hnext hrest hcard'
      rw [visitQueue, hx]
      refine ⟨.node hx hvisits, List.nodup_cons.mpr ⟨fun hxv => ?_, hnodup⟩, fun y => ?_⟩
      · exact absurd ((hmem x).mp hxv) (Finset.notMem_erase x below)
      · rw [List.mem_cons, hmem, Finset.mem_erase]
        constructor
        · rintro (rfl | hy)
          · exact hxmem
          · exact hy.2
        · intro hy
          by_cases hne : y = x
          · exact .inl hne
          · exact .inr ⟨hne, hy⟩

theorem Linked.breadthFirst_spec (h : Linked defs t) {x : String} {n : Node}
    (hx : t.nodes.get? x = some n) :
    t.Visits [x] (t.breadthFirst x) ∧ (t.breadthFirst x).Nodup ∧
      ∀ y, y ∈ t.breadthFirst x ↔ t.Below x y := by
  classical
  let below : Finset String := t.nodes.keys.toFinset.filter fun y => t.Below x y
  have hbelow : ∀ y, y ∈ below ↔ ∃ q ∈ [x], t.Below q y := by
    intro y
    rw [Finset.mem_filter, List.mem_toFinset, SortedMap.mem_keys_iff, Option.isSome_iff_exists]
    constructor
    · exact fun hy => ⟨x, List.mem_cons_self, hy.2⟩
    · rintro ⟨q, hq, hb⟩
      rw [List.mem_singleton] at hq
      subst hq
      exact ⟨hb.get?_isSome hx, hb⟩
  have hcard : below.card ≤ t.size := by
    refine (Finset.card_filter_le _ _).trans ((List.toFinset_card_le _).trans ?_)
    rw [SortedMap.keys, List.length_map]
    exact Nat.le_refl _
  obtain ⟨hvisits, hnodup, hmem⟩ :=
    h.visitQueue_spec t.size [x] below (queue_singleton hx) hbelow hcard
  refine ⟨hvisits, hnodup, fun y => (hmem y).trans ((hbelow y).trans ?_)⟩
  simp

/-- The walk visits what is below its start. -/
theorem Linked.mem_breadthFirst_iff (h : Linked defs t) {x y : String} {n : Node}
    (hx : t.nodes.get? x = some n) : y ∈ t.breadthFirst x ↔ t.Below x y :=
  (h.breadthFirst_spec hx).2.2 y

/-- The walk visits nothing twice. -/
theorem Linked.nodup_breadthFirst (h : Linked defs t) {x : String} {n : Node}
    (hx : t.nodes.get? x = some n) : (t.breadthFirst x).Nodup :=
  (h.breadthFirst_spec hx).2.1

/-- The walk sees only the children of the nodes that are below its queue. -/
theorem Linked.visitQueue_congr (h : Linked defs t) {t' : Tree} {x : String}
    (hsame : ∀ y, t.Below x y →
      (t'.nodes.get? y).map Node.childIds = (t.nodes.get? y).map Node.childIds) :
    ∀ (steps : Nat) (queue : List String), (∀ q ∈ queue, t.Below x q) →
      t'.visitQueue steps queue = t.visitQueue steps queue := by
  intro steps
  induction steps with
  | zero => exact fun _ _ => rfl
  | succ steps ih =>
    intro queue hq
    cases queue with
    | nil => rfl
    | cons q queue =>
      have hqb := hq q List.mem_cons_self
      have hrest : ∀ q ∈ queue, t.Below x q := fun y hy => hq y (List.mem_cons_of_mem _ hy)
      have hget := hsame q hqb
      rw [visitQueue, visitQueue]
      cases hn : t.nodes.get? q with
      | none =>
        rw [hn, Option.map_none, Option.map_eq_none_iff] at hget
        rw [hget]
        exact ih queue hrest
      | some n =>
        rw [hn, Option.map_some, Option.map_eq_some_iff] at hget
        obtain ⟨n', hn', hids⟩ := hget
        rw [hn']
        simp only [hids]
        rw [ih]
        intro c hc
        rcases List.mem_append.mp hc with hc | hc
        · exact hrest c hc
        · exact hqb.trans ((h.below_cases hn).mpr (.inr ⟨c, hc, .self⟩))

/-- The walk sees only the children of the nodes below its start. -/
theorem Linked.breadthFirst_congr (h : Linked defs t) {t' : Tree} {x : String}
    (hsize : t'.size = t.size) (hsame : ∀ y, t.Below x y →
      (t'.nodes.get? y).map Node.childIds = (t.nodes.get? y).map Node.childIds) :
    t'.breadthFirst x = t.breadthFirst x := by
  rw [breadthFirst, breadthFirst, hsize]
  refine h.visitQueue_congr hsame _ _ fun q hq => ?_
  rw [List.mem_singleton] at hq
  rw [hq]
  exact .self

/-- The listing of all ids has every id. -/
theorem Linked.mem_keys_iff (h : Linked defs t) {y : String} :
    y ∈ t.keys ↔ ∃ n, t.nodes.get? y = some n := by
  rw [keys]
  cases hr : t.root with
  | none => simp [h.root_eq_none_iff.mp hr]
  | some r =>
    obtain ⟨n, hn, -⟩ := h.rooted hr
    rw [h.mem_breadthFirst_iff hn]
    exact ⟨fun hb => hb.get?_isSome hn, fun ⟨m, hm⟩ => h.below_root hr hm⟩

/-- The listing of all ids has no id twice. -/
theorem Linked.nodup_keys (h : Linked defs t) : t.keys.Nodup := by
  rw [keys]
  cases hr : t.root with
  | none => exact List.nodup_nil
  | some r =>
    obtain ⟨n, hn, -⟩ := h.rooted hr
    exact h.nodup_breadthFirst hn

/-- The listing of all ids is what the walk from the root lists without a bound. -/
theorem Linked.visits_keys (h : Linked defs t) : t.Visits t.root.toList t.keys := by
  rw [keys]
  cases hr : t.root with
  | none => exact .done
  | some r =>
    obtain ⟨n, hn, -⟩ := h.rooted hr
    exact (h.breadthFirst_spec hn).1

/-! ### Up to the root -/

theorem Climbs.climb_eq {n : Node} {path : List (ParentLink × Node)} (hc : t.Climbs n path) :
    ∀ (steps : Nat) (links : List ParentLink), path.length ≤ steps →
      t.climb steps n links = .ok ((path.map Prod.fst).reverse ++ links) := by
  induction hc with
  | root hnone =>
    intro steps links _
    cases steps with
    | zero => rfl
    | succ steps => rw [climb, hnone]; rfl
  | up hlink hp _ ih =>
    intro steps links hle
    cases steps with
    | zero => cases hle
    | succ steps =>
      rw [climb, hlink]
      simp only [node_eq_ok_iff.mpr hp, Outcome.ok_bind]
      rw [ih steps _ (Nat.le_of_succ_le_succ hle), List.map_cons, List.reverse_cons,
        List.append_assoc, List.singleton_append]

/-- The links from the root down to a node are those of the way up, the other way round. -/
theorem Linked.ancestorLinks_eq (h : Linked defs t) {id : String} {n : Node}
    {path : List (ParentLink × Node)} (hn : t.nodes.get? id = some n) (hc : t.Climbs n path) :
    t.ancestorLinks id = .ok (path.map Prod.fst).reverse := by
  rw [ancestorLinks, node_eq_ok_iff.mpr hn, Outcome.ok_bind,
    hc.climb_eq t.size [] (Nat.le_of_lt (h.length_lt_size hn hc)), List.append_nil]

/-- Whatever a node is below of is on its way up. -/
theorem Climbs.mem_of_below {x y : String} {m : Node} {path : List (ParentLink × Node)}
    (hc : t.Climbs m path) (hy : t.nodes.get? y = some m) (hb : t.Below x y) :
    y = x ∨ x ∈ (path.map Prod.fst).map ParentLink.nodeId := by
  induction hc generalizing y with
  | root hnone =>
    cases hb with
    | self => exact .inl rfl
    | child hn hlink _ =>
      rw [hy, Option.some.injEq] at hn
      rw [hn, hlink] at hnone
      cases hnone
  | up hup hp _ ih =>
    cases hb with
    | self => exact .inl rfl
    | child hn hlink hb =>
      rw [hy, Option.some.injEq] at hn
      rw [← hn, hup, Option.some.injEq] at hlink
      rw [List.map_cons, List.map_cons, List.mem_cons]
      rw [← hlink] at hb
      exact .inr ((ih hp hb).imp_left Eq.symm)

/-- Below a node are the node itself and those that have it among their ancestors. -/
theorem Linked.below_iff (h : Linked defs t) {x y : String} {m : Node}
    (hy : t.nodes.get? y = some m) :
    ∃ links, t.ancestorLinks y = .ok links ∧
      (t.Below x y ↔ y = x ∨ x ∈ links.map ParentLink.nodeId) := by
  obtain ⟨path, hc⟩ := h.climbs hy
  refine ⟨_, h.ancestorLinks_eq hy hc, ?_⟩
  rw [List.map_reverse, List.mem_reverse]
  refine ⟨hc.mem_of_below hy, ?_⟩
  rintro (rfl | hmem)
  · exact .self
  · simp only [List.map_map, List.mem_map, Function.comp_apply] at hmem
    obtain ⟨⟨link, n⟩, hhop, rfl⟩ := hmem
    exact hc.below_hop hy hhop

end SlotTree.Tree
