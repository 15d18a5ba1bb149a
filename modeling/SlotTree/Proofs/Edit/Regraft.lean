import SlotTree.Proofs.Edit.Moving
import SlotTree.Proofs.Tree.Visible

/-!
# Where a child comes or goes

What creating and deleting have in common.  One node gets another child, or loses a child with all
that is below it, and other children of the node move.  Everything else stays as it was, so the tree
stays linked and its bindings stay valid.

## Main definitions

* `Tree.Regraft` — a tree before and after a child has come to a node or gone from it.

## Main results

* `Tree.Regraft.linked`, `Tree.Regraft.valid` — the tree stays linked, and its bindings valid.
-/

namespace SlotTree.Tree

variable {defs : Definitions} {t t' : Tree} {kept : String → Prop} {p p' : Node} {c : String}
  {moved : MovedChildren}

/-- A child comes to a node, or goes from it with all that is below it.  The nodes that are there
before and after are kept; what is not kept has gone, or is the new child. -/
structure Regraft (defs : Definitions) (t t' : Tree) (kept : String → Prop) (p p' : Node)
    (c : String) (moved : MovedChildren) : Prop where
  /-- The root stays. -/
  root : t'.root = t.root
  /-- The node before. -/
  before : t.nodes.get? p.id = some p
  /-- The node after. -/
  after : t'.nodes.get? p.id = some p'
  /-- The node is kept. -/
  keptNode : kept p.id
  /-- The node keeps its id. -/
  named : p'.id = p.id
  /-- The node keeps its schema. -/
  schema : p'.schema = p.schema
  /-- The node keeps its place. -/
  place : p'.parent = p.parent
  /-- The node still has the slots of its schema. -/
  fits : p'.FitsSchema
  /-- The other children of the node get the links of their places. -/
  settles : Node.Settles p p' c moved
  /-- The bindings of the node stay with their inputs. -/
  traces : p.Tidy → Node.Traces p p'
  /-- All other nodes that are kept stay, but for their places. -/
  others : ∀ y, kept y → y ≠ p.id →
    t'.nodes.get? y = (t.nodes.get? y).map fun n => n.settle (moved.get? y)
  /-- The child is not kept. -/
  child : ¬ kept c
  /-- What is not kept has gone, or is the new child. -/
  leaf : ∀ y n, ¬ kept y → t'.nodes.get? y = some n → ∃ schema s i,
    y = c ∧ n = .empty schema c (some ⟨p.id, s, i⟩) ∧ defs.node schema.name = .ok schema ∧
      p'.child? s i = some c
  /-- If the child stands at the node after, it is the new child. -/
  placed : ∀ s i, p'.child? s i = some c →
    ∃ n, t'.nodes.get? c = some n ∧ n.parent = some ⟨p.id, s, i⟩
  /-- The way up from what is kept goes along what is kept. -/
  keptParent : ∀ y n link, kept y → t.nodes.get? y = some n → n.parent = some link →
    kept link.nodeId
  /-- The children of what is kept are kept, but for the child, if it hangs on the node. -/
  keptChild : ∀ y n s i z, kept y → t.nodes.get? y = some n → n.child? s i = some z →
    kept z ∨ (z = c ∧ y = p.id)

namespace Regraft

/-- Children that move are children of the node, and kept. -/
theorem moved_kept (hr : Regraft defs t t' kept p p' c moved) (h : Linked defs t) {y : String}
    {link : ParentLink} (hl : moved.get? y = some link) :
    kept y ∧ y ≠ p.id ∧ ∃ n i, t.nodes.get? y = some n ∧
      n.parent = some ⟨p.id, link.slotName, i⟩ := by
  obtain ⟨hne, -, -, i, hi⟩ := hr.settles.given y link hl
  obtain ⟨n, hn, hlink⟩ := h.down hr.before hi
  rcases hr.keptChild _ _ _ _ _ hr.keptNode hr.before hi with hk | ⟨heq, -⟩
  · exact ⟨hk, h.child_ne_self hr.before hi, n, i, hn, hlink⟩
  · exact absurd heq hne

/-- A node of the tree after: the node itself, another one that is kept, or the new child. -/
theorem cases_after (hr : Regraft defs t t' kept p p' c moved) {y : String} {m : Node}
    (hm : t'.nodes.get? y = some m) :
    (y = p.id ∧ m = p') ∨
    (kept y ∧ y ≠ p.id ∧ ∃ n, t.nodes.get? y = some n ∧ m = n.settle (moved.get? y)) ∨
    (y = c ∧ ∃ schema s i, m = .empty schema c (some ⟨p.id, s, i⟩) ∧
      defs.node schema.name = .ok schema ∧ p'.child? s i = some c) := by
  by_cases hk : kept y
  · by_cases hy : y = p.id
    · refine .inl ⟨hy, ?_⟩
      rw [hy, hr.after, Option.some.injEq] at hm
      exact hm.symm
    · rw [hr.others y hk hy] at hm
      obtain ⟨n, hn, rfl⟩ := Option.map_eq_some_iff.mp hm
      exact .inr (.inl ⟨hk, hy, n, hn, rfl⟩)
  · obtain ⟨schema, s, i, hy, hleaf⟩ := hr.leaf y m hk hm
    exact .inr (.inr ⟨hy, schema, s, i, hleaf⟩)

theorem carries (hr : Regraft defs t t' kept p p' c moved) (h : Linked defs t) :
    Carries t t' id kept where
  node := by
    intro y n hk hn
    by_cases hy : y = p.id
    · subst hy
      rw [hr.before, Option.some.injEq] at hn
      subst hn
      exact ⟨p', hr.after, hr.schema, fun hnone => by rw [hr.place, hnone], fun link hlink =>
        ⟨hr.keptParent _ _ _ hk hr.before hlink, link, by rw [hr.place, hlink], rfl, rfl⟩⟩
    · refine ⟨n.settle (moved.get? y), by rw [id, hr.others y hk hy, hn]; rfl, n.schema_settle _,
        fun hnone => ?_, fun link hlink => ⟨hr.keptParent _ _ _ hk hn hlink, ?_⟩⟩
      · cases hl : moved.get? y with
        | none => exact hnone
        | some l =>
          obtain ⟨-, -, m, i, hm, hlink⟩ := hr.moved_kept h hl
          rw [hn, Option.some.injEq] at hm
          rw [← hm, hnone] at hlink
          cases hlink
      · cases hl : moved.get? y with
        | none => exact ⟨link, hlink, rfl, rfl⟩
        | some l =>
          -- the new link names the node and the slot that the old one names
          obtain ⟨-, -, m, i, hm, hlink'⟩ := hr.moved_kept h hl
          rw [hn, Option.some.injEq] at hm
          rw [← hm, hlink, Option.some.injEq] at hlink'
          subst hlink'
          exact ⟨l, rfl, (hr.settles.given y l hl).2.1, rfl⟩

/-- From a node that is kept the way up leads along kept nodes, to a kept root. -/
theorem keeps_root (hr : Regraft defs t t' kept p p' c moved) (h : Linked defs t) {y : String}
    {n : Node} {path : List (ParentLink × Node)} (hc : t.Climbs n path) (hk : kept y)
    (hn : t.nodes.get? y = some n) : ∃ r, t.root = some r ∧ kept r := by
  induction hc generalizing y with
  | root hnone => exact ⟨y, h.top hn hnone, hk⟩
  | up hlink hp _ ih => exact ih (hr.keptParent _ _ _ hk hn hlink) hp

theorem ownId_after (hr : Regraft defs t t' kept p p' c moved) (h : Linked defs t) {y : String}
    {m : Node} (hm : t'.nodes.get? y = some m) : m.id = y := by
  rcases hr.cases_after hm with ⟨hy, hm⟩ | ⟨-, -, n, hn, hm⟩ | ⟨hy, schema, s, i, hm, -⟩
  · rw [hm, hy, hr.named]
  · rw [hm, Node.id_settle, h.ownId hn]
  · rw [hm, hy]
    rfl

theorem rooted_after (hr : Regraft defs t t' kept p p' c moved) (h : Linked defs t) {r : String}
    (hroot : t'.root = some r) : ∃ n, t'.nodes.get? r = some n ∧ n.parent = none := by
  rw [hr.root] at hroot
  obtain ⟨n, hn, hnone⟩ := h.rooted hroot
  obtain ⟨path, hpath⟩ := h.climbs hr.before
  obtain ⟨r', hr', hk⟩ := hr.keeps_root h hpath hr.keptNode hr.before
  rw [hroot, Option.some.injEq] at hr'
  subst hr'
  obtain ⟨n', hn', -, hnone', -⟩ := (hr.carries h).node hk hn
  exact ⟨n', hn', hnone' hnone⟩

theorem up_after (hr : Regraft defs t t' kept p p' c moved) (h : Linked defs t) {y : String}
    {m : Node} {link : ParentLink} (hm : t'.nodes.get? y = some m)
    (hlink : m.parent = some link) :
    ∃ q, t'.nodes.get? link.nodeId = some q ∧ q.child? link.slotName link.index = some y := by
  rcases hr.cases_after hm with ⟨hy, rfl⟩ | ⟨hk, hy, n, hn, rfl⟩ | ⟨hy, schema, s, i, rfl, -, hc⟩
  · -- the parent of the node itself has the slots that it had
    rw [hr.place] at hlink
    obtain ⟨q, hq, hqc⟩ := h.up hr.before hlink
    have hqk := hr.keptParent _ _ _ hr.keptNode hr.before hlink
    rw [hr.others _ hqk (h.parent_ne_self hr.before hlink), hq]
    refine ⟨_, rfl, ?_⟩
    rw [Node.child?_congr (q.slots_settle _), hqc, hy]
  · cases hl : moved.get? y with
    | some l =>
      -- a child that moves has its new place
      rw [hl, Node.parent_settle_some, Option.some.injEq] at hlink
      subst hlink
      obtain ⟨-, hid, hpc, -⟩ := hr.settles.given y l hl
      exact ⟨p', by rw [hid]; exact hr.after, hpc⟩
    | none =>
      rw [hl, Node.settle_none] at hlink
      obtain ⟨q, hq, hqc⟩ := h.up hn hlink
      have hqk := hr.keptParent _ _ _ hk hn hlink
      by_cases hqp : link.nodeId = p.id
      · -- a child that does not move has the place that it had
        rw [hqp, hr.before, Option.some.injEq] at hq
        subst hq
        have hne : y ≠ c := fun heq => hr.child (heq ▸ hk)
        exact ⟨p', by rw [hqp]; exact hr.after, hr.settles.still _ _ _ hqc hne hl⟩
      · rw [hr.others _ hqk hqp, hq]
        exact ⟨_, rfl, by rw [Node.child?_congr (q.slots_settle _), hqc]⟩
  · -- the child that has come
    cases hlink
    exact ⟨p', hr.after, by rw [hy]; exact hc⟩

theorem down_after (hr : Regraft defs t t' kept p p' c moved) (h : Linked defs t) {x y s : String}
    {i : Option Nat} {m : Node} (hm : t'.nodes.get? x = some m) (hy : m.child? s i = some y) :
    ∃ n, t'.nodes.get? y = some n ∧ n.parent = some ⟨x, s, i⟩ := by
  rcases hr.cases_after hm with ⟨hx, rfl⟩ | ⟨hk, hx, n, hn, rfl⟩ | ⟨-, schema, s', i', rfl, -⟩
  · -- the children of the node itself: the one that has come, those that move, and the others
    rw [hx]
    by_cases hyc : y = c
    · subst hyc
      exact hr.placed s i hy
    · rcases hr.settles.links s i y hy hyc with hl | ⟨hl, hold⟩
      · obtain ⟨hk, hne, n, _, hn, -⟩ := hr.moved_kept h hl
        rw [hr.others y hk hne, hn, hl]
        exact ⟨_, rfl, rfl⟩
      · obtain ⟨n, hn, hlink⟩ := h.down hr.before hold
        have hk := (hr.keptChild _ _ _ _ _ hr.keptNode hr.before hold).resolve_right
          fun heq => hyc heq.1
        rw [hr.others y hk (h.child_ne_self hr.before hold), hn, hl]
        exact ⟨_, rfl, hlink⟩
  · -- the other nodes have the children that they had, and one of these may be the parent
    rw [Node.child?_congr (n.slots_settle _)] at hy
    obtain ⟨q, hq, hlink⟩ := h.down hn hy
    have hyk := (hr.keptChild _ _ _ _ _ hk hn hy).resolve_right fun heq => hx heq.2
    by_cases hyp : y = p.id
    · subst hyp
      rw [hr.before, Option.some.injEq] at hq
      subst hq
      exact ⟨p', hr.after, by rw [hr.place, hlink]⟩
    · -- a child of another node does not move
      have hl : moved.get? y = none := by
        rw [Option.eq_none_iff_forall_ne_some]
        intro l hl
        obtain ⟨-, -, q', i', hq', hlink'⟩ := hr.moved_kept h hl
        rw [hq, Option.some.injEq] at hq'
        rw [← hq', hlink, Option.some.injEq] at hlink'
        cases hlink'
        exact hx rfl
      rw [hr.others y hyk hyp, hq, hl]
      exact ⟨_, rfl, hlink⟩
  · -- the child that has come has no children
    rw [Node.child?_nodeEmpty] at hy
    cases hy

/-- The tree stays linked. -/
theorem linked (hr : Regraft defs t t' kept p p' c moved) (h : Linked defs t) :
    Linked defs t' where
  ownId := hr.ownId_after h
  known := by
    intro y m hm
    rcases hr.cases_after hm with ⟨hy, rfl⟩ | ⟨-, -, n, hn, rfl⟩ | ⟨-, schema, s, i, rfl, hs, -⟩
    · rw [Node.nodeType, hr.schema]
      exact h.known hr.before
    · rw [Node.nodeType, Node.schema_settle]
      exact h.known hn
    · exact hs
  fits := by
    intro y m hm
    rcases hr.cases_after hm with ⟨-, rfl⟩ | ⟨-, -, n, hn, rfl⟩ | ⟨-, schema, s, i, rfl, -⟩
    · exact hr.fits
    · exact (h.fits hn).of_eq (n.slots_settle _) (n.schema_settle _)
    · exact Node.fitsSchema_empty schema c _
  top := by
    intro y m hm hnone
    rw [hr.root]
    rcases hr.cases_after hm with ⟨rfl, rfl⟩ | ⟨-, -, n, hn, rfl⟩ | ⟨-, schema, s, i, rfl, -⟩
    · exact h.top hr.before (hr.place ▸ hnone)
    · cases hl : moved.get? y with
      | none =>
        rw [hl] at hnone
        exact h.top hn hnone
      | some l =>
        rw [hl] at hnone
        cases hnone
    · cases hnone
  rooted := hr.rooted_after h
  up := hr.up_after h
  down := hr.down_after h
  climbs := by
    have hcar := hr.carries h
    -- the way up of a kept node is the one that it had; a new child is one step below its parent
    have hclimbs : ∀ y, kept y → ∀ m, t'.nodes.get? y = some m → (∃ n, t.nodes.get? y = some n) →
        ∃ path, t'.Climbs m path := by
      rintro y hk m hm ⟨n, hn⟩
      obtain ⟨path, hpath⟩ := h.climbs hn
      obtain ⟨path', hpath', -⟩ := hcar.climbs h.ownId (hr.ownId_after h) hpath hk hn hm
      exact ⟨path', hpath'⟩
    intro y m hm
    rcases hr.cases_after hm with ⟨rfl, -⟩ | ⟨hk, -, n, hn, -⟩ | ⟨-, schema, s, i, rfl, -⟩
    · exact hclimbs _ hr.keptNode m hm ⟨p, hr.before⟩
    · exact hclimbs y hk m hm ⟨n, hn⟩
    · obtain ⟨path, hpath⟩ := hclimbs _ hr.keptNode p' hr.after ⟨p, hr.before⟩
      exact ⟨_, .up rfl hr.after hpath⟩

/-- The bindings stay valid. -/
theorem bound (hr : Regraft defs t t' kept p p' c moved) (h : Valid defs t) : Bound defs t' := by
  have h' := hr.linked h.linked
  have hcar := hr.carries h.linked
  intro y m k e hm he
  rcases hr.cases_after hm with ⟨rfl, rfl⟩ | ⟨hk, -, n, hn, rfl⟩ | ⟨-, schema, s, i, rfl, -⟩
  · -- the binding has kept its input, though it may have another position
    obtain ⟨a, a', hkey, hd', hname, hd, hin⟩ := hr.traces (h.bound.tidy hr.before) k e he
    refine ⟨a', hkey, hd', ?_⟩
    rw [hname]
    exact hcar.checkInput_id h.linked h' hr.keptNode hr.before hr.named hr.schema
      (h.bound.checkInput hr.before hd hin)
  · rw [Node.inputs_settle] at he
    obtain ⟨a, hkey, hd, hok⟩ := h.bound hn he
    refine ⟨a, hkey, (Node.declares_congr (n.schema_settle _) (n.slots_settle _)).mpr hd, ?_⟩
    exact hcar.checkInput_id h.linked h' hk hn (by rw [Node.id_settle, h.linked.ownId hn])
      (n.schema_settle _) hok
  · cases he

theorem valid (hr : Regraft defs t t' kept p p' c moved) (h : Valid defs t) : Valid defs t' where
  linked := hr.linked h.linked
  bound := hr.bound h

end Regraft

end SlotTree.Tree
