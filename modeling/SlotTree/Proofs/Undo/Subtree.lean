import SlotTree.Proofs.Tree.Linked

/-!
# A node and all below it

The walk that lists a node and all nodes below it, each before its children.  In a linked tree it
finds every one of them, exactly once, and in an order in which they can be put back: a node comes
after its parent, and after those in front of it in its collection.

## Main definitions

* `Tree.subtree` — the list that the walk gives.
* `Tree.Precedes` — a node that has to be there before another one is put back.

## Main results

* `Tree.Linked.depthFirst_eq` — the walk does not fail.
* `Tree.Linked.mem_subtree_iff` — what the list holds.
* `Tree.Linked.pairwise_subtree` — the order of the list.
-/

namespace SlotTree.Tree

variable {defs : Definitions} {t : Tree}

/-- A node and all nodes below it, each before its children, at most so many levels deep. -/
def subtree (t : Tree) : Nat → Node → List Node
  | 0, n => [n]
  | levels + 1, n => n :: n.childIds.flatMap fun id =>
      match t.nodes.get? id with
      | some child => subtree t levels child
      | none => []

/-- A node has to be there before another one is put back: it is the parent, or stands in front of
it in its collection. -/
def Precedes (t : Tree) (b : String) (a : Node) : Prop :=
  ∃ link, a.parent = some link ∧ (b = link.nodeId ∨ ∃ i j p, link.index = some i ∧ j < i ∧
    t.nodes.get? link.nodeId = some p ∧ p.child? link.slotName (some j) = some b)

namespace Linked

/-- The children of a node are in the tree, one level further down. -/
theorem get?_childIds (h : Linked defs t) {x : String} {n : Node} {path : List (ParentLink × Node)}
    (hn : t.nodes.get? x = some n) (hc : t.Climbs n path) {c : String} (hmem : c ∈ n.childIds) :
    ∃ child link, t.nodes.get? c = some child ∧ child.parent = some link ∧ link.nodeId = x ∧
      t.Climbs child ((link, n) :: path) := by
  obtain ⟨s, i, hplace⟩ := Node.mem_childIds_iff.mp hmem
  obtain ⟨child, hchild, hlink⟩ := h.down hn hplace
  exact ⟨child, _, hchild, hlink, rfl, .up hlink hn hc⟩

/-- The walk does not fail, and finds what is below its start. -/
theorem depthFirst_spec (h : Linked defs t) : ∀ (levels : Nat) {x : String} {n : Node}
    {path : List (ParentLink × Node)}, t.nodes.get? x = some n → t.Climbs n path →
      t.size ≤ path.length + levels →
        t.depthFirst levels n = .ok (t.subtree levels n) ∧
          ∀ m, m ∈ t.subtree levels n ↔ t.Below x m.id ∧ t.nodes.get? m.id = some m := by
  intro levels
  induction levels with
  | zero =>
    intro x n path hn hc hle
    exact absurd (h.length_lt_size hn hc) (Nat.not_lt.mpr hle)
  | succ levels ih =>
    intro x n path hn hc hle
    have hchild : ∀ c ∈ n.childIds, ∃ child, t.nodes.get? c = some child ∧
        t.depthFirst levels child = .ok (t.subtree levels child) ∧
          ∀ m, m ∈ t.subtree levels child ↔ t.Below c m.id ∧ t.nodes.get? m.id = some m := by
      intro c hmem
      obtain ⟨child, link, hget, -, -, hclimb⟩ := h.get?_childIds hn hc hmem
      exact ⟨child, hget, ih hget hclimb (by rw [List.length_cons]; omega)⟩
    -- the walks of the children succeed, and put together they find what is below the node
    constructor
    · rw [depthFirst, Outcome.mapM_eq_ok (g := fun c => match t.nodes.get? c with
        | some child => t.subtree levels child
        | none => [])]
      · rw [Outcome.ok_bind, subtree, List.flatMap_def]
        rfl
      · intro c hmem
        obtain ⟨child, hget, hdepth, -⟩ := hchild c hmem
        rw [node_eq_ok_iff.mpr hget, Outcome.ok_bind, hdepth, hget]
    · intro m
      rw [subtree, List.mem_cons, List.mem_flatMap]
      constructor
      · rintro (rfl | ⟨c, hmem, hm⟩)
        · rw [h.ownId hn]
          exact ⟨.self, hn⟩
        · obtain ⟨child, hget, -, hiff⟩ := hchild c hmem
          rw [hget] at hm
          obtain ⟨hb, hm⟩ := (hiff m).mp hm
          exact ⟨(h.below_cases hn).mpr (.inr ⟨c, hmem, hb⟩), hm⟩
      · rintro ⟨hb, hm⟩
        rcases (h.below_cases hn).mp hb with heq | ⟨c, hmem, hcb⟩
        · rw [heq, hn, Option.some.injEq] at hm
          exact .inl hm.symm
        · obtain ⟨child, hget, -, hiff⟩ := hchild c hmem
          refine .inr ⟨c, hmem, ?_⟩
          rw [hget]
          exact (hiff m).mpr ⟨hcb, hm⟩

theorem depthFirst_eq (h : Linked defs t) {x : String} {n : Node} (hn : t.nodes.get? x = some n) :
    t.depthFirst t.size n = .ok (t.subtree t.size n) := by
  obtain ⟨path, hpath⟩ := h.climbs hn
  exact (h.depthFirst_spec t.size hn hpath (Nat.le_add_left _ _)).1

/-- The list holds what is below its first node. -/
theorem mem_subtree_iff (h : Linked defs t) {x : String} {n m : Node}
    (hn : t.nodes.get? x = some n) :
    m ∈ t.subtree t.size n ↔ t.Below x m.id ∧ t.nodes.get? m.id = some m := by
  obtain ⟨path, hpath⟩ := h.climbs hn
  exact (h.depthFirst_spec t.size hn hpath (Nat.le_add_left _ _)).2 m

/-- What is below two children of a node is below one child. -/
theorem child_unique (h : Linked defs t) {x y c c' : String} {m m' : Node}
    {link link' : ParentLink} (hc : t.nodes.get? c = some m) (hlink : m.parent = some link)
    (hx : link.nodeId = x) (hc' : t.nodes.get? c' = some m') (hlink' : m'.parent = some link')
    (hx' : link'.nodeId = x) (hb : t.Below c y) (hb' : t.Below c' y) : c = c' := by
  -- the way up from `y` passes the one child or the other first
  induction hb with
  | self =>
    by_cases hne : c = c'
    · exact hne
    · have := below_parent hb' hne hc hlink
      rw [hx, ← hx'] at this
      exact absurd this (h.not_below_parent hc' hlink')
  | @child y k up hk hup hb ih =>
    by_cases hne : y = c'
    · subst hne
      rw [hk, Option.some.injEq] at hc'
      subst hc'
      rw [hup, Option.some.injEq] at hlink'
      subst hlink'
      rw [hx', ← hx] at hb
      exact absurd hb (h.not_below_parent hc hlink)
    · exact ih (below_parent hb' hne hk hup)

/-- Nothing below a node has to be there before it. -/
theorem not_precedes_below (h : Linked defs t) {x b : String} {n : Node}
    (hn : t.nodes.get? x = some n) (hb : t.Below x b) (hne : b ≠ x) : ¬ t.Precedes b n := by
  rintro ⟨link, hlink, rfl | ⟨i, j, p, -, -, hp, hc⟩⟩
  · exact h.not_below_parent hn hlink hb
  · obtain ⟨m, hm, hup⟩ := h.down hp hc
    have hbp := below_parent hb hne hm hup
    exact h.not_below_parent hn hlink hbp

/-- Below different children of a node nothing has to be there before anything else, but for the
children themselves. -/
theorem not_precedes_apart (h : Linked defs t) {x c c' b : String} {n child child' a : Node}
    {s s' : String} {i i' : Option Nat} (hn : t.nodes.get? x = some n)
    (hc : t.nodes.get? c = some child) (hlink : child.parent = some ⟨x, s, i⟩)
    (hc' : t.nodes.get? c' = some child') (hlink' : child'.parent = some ⟨x, s', i'⟩)
    (hne : c ≠ c') (horder : ∀ k k', s = s' → i = some k → i' = some k' → k < k')
    (ha : t.nodes.get? a.id = some a) (hba : t.Below c a.id) (hbb : t.Below c' b) :
    ¬ t.Precedes b a := by
  have hapart : ∀ y, t.Below c y → t.Below c' y → False := fun y hy hy' =>
    hne (h.child_unique hc hlink rfl hc' hlink' rfl hy hy')
  rintro ⟨link, hup, hprec⟩
  by_cases hac : a.id = c
  · -- the child itself: its parent and those in front of it are not below the other child
    rw [hac, hc, Option.some.injEq] at ha
    subst ha
    rw [hlink, Option.some.injEq] at hup
    subst hup
    rcases hprec with rfl | ⟨k, j, p, hk, hjk, hp, hcb⟩
    · exact h.not_below_parent hc' hlink' hbb
    · obtain ⟨m, hm, hmlink⟩ := h.down hp hcb
      by_cases hbc : b = c'
      · subst hbc
        rw [hc', Option.some.injEq] at hm
        subst hm
        rw [hlink', Option.some.injEq, ParentLink.mk.injEq] at hmlink
        obtain ⟨-, rfl, rfl⟩ := hmlink
        have := horder k j rfl hk rfl
        omega
      · have hbp := below_parent hbb hbc hm hmlink
        exact h.not_below_parent hc' hlink' hbp
  · -- further down, what has to be there before is below the same child
    have hbp := below_parent hba hac ha hup
    rcases hprec with rfl | ⟨k, j, p, -, -, hp, hcb⟩
    · exact hapart _ hbp hbb
    · obtain ⟨m, hm, hmlink⟩ := h.down hp hcb
      exact hapart _ (.child hm hmlink hbp) hbb

theorem pairwise_subtree_levels (h : Linked defs t) : ∀ (levels : Nat) {x : String} {n : Node}
    {path : List (ParentLink × Node)}, t.nodes.get? x = some n → t.Climbs n path →
      t.size ≤ path.length + levels →
        (t.subtree levels n).Pairwise fun a b => a.id ≠ b.id ∧ ¬ t.Precedes b.id a := by
  intro levels
  induction levels with
  | zero => exact fun _ _ _ => List.pairwise_singleton _ _
  | succ levels ih =>
    intro x n path hn hc hle
    have hid := h.ownId hn
    have hchild : ∀ e ∈ n.childLinks, ∃ child, t.nodes.get? e.1 = some child ∧
        child.parent = some ⟨x, e.2.slotName, e.2.index⟩ ∧
        (∀ m, m ∈ t.subtree levels child ↔ t.Below e.1 m.id ∧ t.nodes.get? m.id = some m) ∧
        (t.subtree levels child).Pairwise fun a b => a.id ≠ b.id ∧ ¬ t.Precedes b.id a := by
      rintro ⟨c, link⟩ hmem
      obtain ⟨-, hplace⟩ := Node.mem_childLinks_iff.mp hmem
      obtain ⟨child, hget, hlink⟩ := h.down hn hplace
      have hclimb : t.Climbs child (_ :: path) := .up hlink hn hc
      have hle' : t.size ≤ ((⟨x, link.slotName, link.index⟩, n) :: path).length + levels := by
        rw [List.length_cons]
        omega
      exact ⟨child, hget, hlink, (h.depthFirst_spec levels hget hclimb hle').2,
        ih hget hclimb hle'⟩
    rw [subtree, Node.childIds, List.flatMap_map, List.pairwise_cons]
    refine ⟨fun b hb => ?_, List.pairwise_flatMap.mpr ⟨fun e he => ?_, ?_⟩⟩
    · -- the node itself and what is below it
      obtain ⟨e, he, hb⟩ := List.mem_flatMap.mp hb
      obtain ⟨child, hget, hlink, hiff, -⟩ := hchild e he
      simp only [hget] at hb
      have hcb := ((hiff b).mp hb).1
      have hxb : t.Below x b.id := Below.trans (.child hget hlink .self) hcb
      have hne : b.id ≠ x := by
        intro heq
        rw [heq] at hcb
        exact h.not_below_parent hget hlink hcb
      exact ⟨by rw [hid]; exact Ne.symm hne, h.not_precedes_below hn hxb hne⟩
    · -- the list of one child
      obtain ⟨child, hget, -, -, hpair⟩ := hchild e he
      simp only [hget]
      exact hpair
    · -- the lists of two children, one in front of the other
      have hnodup := List.pairwise_map.mp (h.distinct hn).nodup_childIds
      refine (n.pairwise_childLinks.and hnodup).imp_of_mem ?_
      rintro e e' he he' ⟨horder, hne⟩ a ha b hb
      obtain ⟨child, hget, hlink, hiff, -⟩ := hchild e he
      obtain ⟨child', hget', hlink', hiff', -⟩ := hchild e' he'
      simp only [hget] at ha
      simp only [hget'] at hb
      obtain ⟨hba, hga⟩ := (hiff a).mp ha
      obtain ⟨hbb, -⟩ := (hiff' b).mp hb
      refine ⟨fun heq => ?_, h.not_precedes_apart hn hget hlink hget' hlink' hne ?_ hga hba hbb⟩
      · rw [heq] at hba
        exact hne (h.child_unique hget hlink rfl hget' hlink' rfl hba hbb)
      · intro k k' hslot hk hk'
        obtain ⟨i, j, hi, hj, hlt⟩ := horder.index_lt n.slots.distinct hslot
        rw [hk, Option.some.injEq] at hi
        rw [hk', Option.some.injEq] at hj
        omega

/-- Nothing in the list comes before what has to be there first, and nothing comes twice. -/
theorem pairwise_subtree (h : Linked defs t) {x : String} {n : Node}
    (hn : t.nodes.get? x = some n) :
    (t.subtree t.size n).Pairwise fun a b => a.id ≠ b.id ∧ ¬ t.Precedes b.id a := by
  obtain ⟨path, hpath⟩ := h.climbs hn
  exact h.pairwise_subtree_levels t.size hn hpath (Nat.le_add_left _ _)

/-- The list begins with the node itself. -/
theorem subtree_eq_cons (h : Linked defs t) {x : String} {n : Node}
    (hn : t.nodes.get? x = some n) : ∃ rest, t.subtree t.size n = n :: rest := by
  obtain ⟨path, hpath⟩ := h.climbs hn
  have hlt := h.length_lt_size hn hpath
  obtain ⟨levels, hlevels⟩ : ∃ levels, t.size = levels + 1 := ⟨t.size - 1, by omega⟩
  rw [hlevels]
  exact ⟨_, rfl⟩

end Linked

end SlotTree.Tree
