import SlotTree.Proofs.Document.Acceptance
import SlotTree.Proofs.Document.Changes

/-!
# What deleting does

A node that is deleted goes with all that have it among their ancestors, and nothing else goes.  In
its slot the others move together: those behind it stand one position lower, and what is bound for
them in their parent moves with them.  All other nodes stay as they are.

## Main definitions

* `ParentLink.Follows` — a place behind another in the same collection.
* `Node.Loses` — a parent before and after one of its children has gone.
* `Tree.Prunes` — a tree before and after a node has been deleted.

## Main results

* `Tree.Shrinks.loses`, `Tree.Shrinks.later`, `Tree.Shrinks.same` — the parent, the siblings behind,
  and the others.
* `Document.apply_delete`, `Document.delete_run` — deleting from a valid tree, and in a run.
-/

namespace SlotTree

/-- One place is behind another in the same collection. -/
def ParentLink.Follows (later place : ParentLink) : Prop :=
  later.nodeId = place.nodeId ∧ later.slotName = place.slotName ∧
    ∃ i j, place.index = some i ∧ later.index = some j ∧ i < j

/-- In a slot in which no child stands twice, to take one out of its place is to leave it out. -/
theorem SlotContent.detach_eq_without {content : SlotContent} {k : Option Nat} {c : String}
    (hc : content.child? k = some c) (hd : ∀ ids, content = .collection ids → ids.Nodup) :
    content.detach k = content.without [c] := by
  cases content with
  | single child =>
    cases k with
    | none =>
      rw [child?_single_none] at hc
      subst hc
      simp [detach, without, Option.filter]
    | some k => cases hc
  | collection ids =>
    cases k with
    | none => cases hc
    | some k =>
      obtain ⟨hk, rfl⟩ := List.getElem?_eq_some_iff.mp hc
      have hnodup := hd ids rfl
      rw [detach, without, ← hnodup.erase_getElem k hk, hnodup.erase_eq_filter, collection.injEq]
      refine List.filter_congr fun y _ => ?_
      simp [bne, Bool.beq_eq_decide_eq]

/-- A parent before and after one of its children has gone from a slot: the slot holds the others in
their order, the inputs of the slot follow their children, and all else stays. -/
structure Node.Loses (p p' : Node) (x slotName : String) : Prop where
  /-- The id stays. -/
  id : p'.id = p.id
  /-- The schema stays. -/
  schema : p'.schema = p.schema
  /-- The place stays. -/
  parent : p'.parent = p.parent
  /-- The slot holds what it held but for the child, and the other slots hold what they held. -/
  slots : ∃ content, p.slots.get? slotName = some content ∧
    p'.slots = p.slots.insert slotName (content.without [x])
  /-- What was bound for a child in the slot is bound for it at the position that it has then. -/
  follows : ∀ name ∈ (p.schema.collectionInputs slotName).map Prod.fst, ∀ y i j,
    p.child? slotName (some i) = some y → p'.child? slotName (some j) = some y →
      p'.input? ⟨name, some j⟩ = p.input? ⟨name, some i⟩
  /-- What was bound for no child in the slot is bound as it was. -/
  others : ∀ a, p.Declares a →
    (a.name ∈ (p.schema.collectionInputs slotName).map Prod.fst → a.index = none) →
      p'.input? a = p.input? a
  /-- Nothing is bound at an address that there is not any more. -/
  tidy : p'.Tidy

namespace Tree

/-- A tree before and after a node has been deleted that is not the root, but hangs at some
place. -/
structure Prunes (t t' : Tree) (x : String) (place : ParentLink) : Prop where
  /-- The root stays. -/
  root : t'.root = t.root
  /-- The nodes that remain are others than the node, and do not have it among their ancestors. -/
  remaining : ∀ y, t'.has y = true ↔
    y ≠ x ∧ ∃ links, t.ancestorLinks y = .ok links ∧ x ∉ links.map ParentLink.nodeId
  /-- The siblings behind the node stand one position lower; nothing else changes in them. -/
  later : ∀ y n link i, t.nodes.get? y = some n → n.parent = some link → link.Follows place →
    link.index = some i →
      t'.nodes.get? y = some { n with parent := some { link with index := some (i - 1) } }
  /-- The parent has lost the node, and nothing else. -/
  parent : ∃ p p', t.nodes.get? place.nodeId = some p ∧ t'.nodes.get? place.nodeId = some p' ∧
    p.Loses p' x place.slotName
  /-- The others that remain stay as they are. -/
  same : ∀ y n, t.nodes.get? y = some n → t'.has y = true → y ≠ place.nodeId →
    (∀ link, n.parent = some link → ¬ link.Follows place) → t'.nodes.get? y = some n

variable {defs : Definitions} {t t' : Tree} {x y : String}

/-! ### What a deleted child leaves -/

namespace Shrinks

variable {p : Node} {slotName : String} {content : SlotContent} {k : Option Nat}
  (hg : Shrinks t t' x p slotName content k) (h : Valid defs t)

include hg

/-- What is not below the child remains. -/
theorem has_iff : t'.has y = true ↔ t.has y = true ∧ ¬ t.Below x y := by
  rw [has_eq_true_iff, has_eq_true_iff]
  constructor
  · rintro ⟨m, hm⟩
    have hb : ¬ t.Below x y := by
      intro hb
      rw [hg.gone y hb] at hm
      cases hm
    refine ⟨?_, hb⟩
    by_cases hy : y = p.id
    · exact ⟨p, hy ▸ hg.before⟩
    · rw [hg.others y hb hy] at hm
      obtain ⟨n, hn, -⟩ := Option.map_eq_some_iff.mp hm
      exact ⟨n, hn⟩
  · rintro ⟨⟨n, hn⟩, hb⟩
    by_cases hy : y = p.id
    · exact ⟨_, hy ▸ hg.after⟩
    · exact ⟨_, by rw [hg.others y hb hy, hn, Option.map_some]⟩

include h

/-- The parent has lost the child. -/
theorem loses : p.Loses (p.detach slotName content k) x slotName := by
  have hdist := h.linked.distinct hg.before
  have hext := Node.extends_detach hg.slot hg.child
  obtain ⟨hinherits, htraces⟩ := Node.inherits_detach (h.linked.fits hg.before)
    (h.bound.tidy hg.before) hg.slot hg.child
  exact {
    id := rfl
    schema := rfl
    parent := rfl
    slots := by
      refine ⟨content, hg.slot, ?_⟩
      rw [Node.detach, SlotContent.detach_eq_without hg.child]
      exact fun ids hids => hdist.nodup_collection (hids ▸ hg.slot)
    follows := by
      intro name hname y i j hi hj
      -- the position in the larger node is the one that makes room for the child
      obtain ⟨i', hi', -, heq⟩ := hext.old hj
      rw [if_pos rfl] at heq
      rw [(hdist _ _ _ _ _ hi hi').2, heq]
      exact (hinherits.raised name hname j).symm
    others := fun a ha hindex => (hinherits.other a ha.isIdentifier hindex).symm
    tidy := htraces.tidy }

/-- The sibling that stands at a later position comes to the position before it. -/
theorem later {n : Node} {i j : Nat} (hn : t.nodes.get? y = some n)
    (hlink : n.parent = some ⟨p.id, slotName, some i⟩) (hk : k = some j) (hlt : j < i) :
    t'.nodes.get? y = some { n with parent := some ⟨p.id, slotName, some (i - 1)⟩ } := by
  subst hk
  have hdist := h.linked.distinct hg.before
  obtain ⟨q, hq, hi⟩ := h.linked.up hn hlink
  rw [hg.before, Option.some.injEq] at hq
  subst hq
  have hne : y ≠ x := by
    rintro rfl
    obtain ⟨-, heq⟩ := hdist _ _ _ _ _ hi hg.child?
    cases heq
    exact Nat.lt_irrefl _ hlt
  have hnot : ¬ t.Below x y := fun hb =>
    h.linked.not_below_of_child hg.before hg.child? (Linked.below_parent hb hne hn hlink)
  have hsettles := Node.settles_removeChild hg.slot hg.child hdist
  rcases (Node.extends_detach hg.slot hg.child).only hi with ⟨-, heq, -⟩ | ⟨i', hi', heq⟩
  · cases heq
    exact absurd hlt (Nat.lt_irrefl _)
  · have hi'' : i' = some (i - 1) := by
      rw [if_pos rfl] at heq
      cases i' with
      | none => cases heq
      | some i' =>
        simp only [makeRoom, Option.some.injEq] at heq ⊢
        split at heq <;> omega
    subst hi''
    rcases hsettles.links _ _ _ hi' hne with hmoved | ⟨-, hstill⟩
    · rw [hg.others y hnot (h.linked.child_ne_self hg.before hi), hn, Option.map_some, hmoved]
      rfl
    · -- otherwise it would have stood at two positions before
      obtain ⟨-, heq⟩ := hdist _ _ _ _ _ hi hstill
      rw [Option.some.injEq] at heq
      omega

/-- What is no sibling at a later position stays as it is. -/
theorem same {n : Node} (hn : t.nodes.get? y = some n) (hb : ¬ t.Below x y) (hy : y ≠ p.id)
    (hnot : ∀ link, n.parent = some link → ¬ link.Follows ⟨p.id, slotName, k⟩) :
    t'.nodes.get? y = some n := by
  have hdist := h.linked.distinct hg.before
  have hext := Node.extends_detach hg.slot hg.child
  rw [hg.others y hb hy, hn, Option.map_some]
  cases hl : (p.movedLinks slotName k (content.detach k)).get? y with
  | none => rfl
  | some l =>
    obtain ⟨-, -, hsmall, -⟩ := (Node.settles_removeChild hg.slot hg.child hdist).given y l hl
    obtain ⟨i, j, rfl, hij, rfl⟩ := Node.index_of_get?_movedLinks (fun ids hids =>
      (hext.distinct_small hdist).nodup_collection (s := slotName)
        (by rw [Node.get?_slots_detach, hids])) hl
    -- before, it stood one position higher
    obtain ⟨i', hbig, -, heq⟩ := hext.old hsmall
    rw [if_pos rfl, makeRoom, if_neg (Nat.not_lt.mpr hij)] at heq
    subst heq
    obtain ⟨m, hm, hlink⟩ := h.linked.down hg.before hbig
    rw [hn, Option.some.injEq] at hm
    subst hm
    exact absurd ⟨rfl, rfl, i, j + 1, rfl, rfl, Nat.lt_succ_of_le hij⟩ (hnot _ hlink)

theorem prunes : Prunes t t' x ⟨p.id, slotName, k⟩ where
  root := hg.root
  remaining := by
    intro y
    rw [hg.has_iff, has_eq_true_iff]
    constructor
    · rintro ⟨⟨n, hn⟩, hb⟩
      obtain ⟨links, hlinks, hiff⟩ := h.linked.below_iff (x := x) hn
      rw [hiff, not_or] at hb
      exact ⟨hb.1, links, hlinks, hb.2⟩
    · rintro ⟨hne, links, hlinks, hnot⟩
      obtain ⟨n, hn, -⟩ := Outcome.bind_eq_ok.mp hlinks
      rw [node_eq_ok_iff] at hn
      obtain ⟨links', hlinks', hiff⟩ := h.linked.below_iff (x := x) hn
      rw [hlinks, Except.ok.injEq] at hlinks'
      rw [hiff, ← hlinks', not_or]
      exact ⟨⟨n, hn⟩, hne, hnot⟩
  later := by
    rintro y n link i hn hlink ⟨hid, hslot, j, i', hk, hi', hlt⟩ hi
    rw [hi, Option.some.injEq] at hi'
    subst hi'
    have hplace : link = ⟨p.id, slotName, some i⟩ := ParentLink.ext hid hslot hi
    subst hplace
    exact hg.later h hn hlink hk hlt
  parent := ⟨p, _, hg.before, hg.after, hg.loses h⟩
  same y n hn hremains hy hnot := hg.same h hn ((hg.has_iff).mp hremains).2 hy hnot

end Shrinks

end Tree

/-! ### Documents -/

namespace Document

/-- A node that hangs at a place is deleted from a valid tree, and goes from its parent. -/
theorem apply_delete_child {doc : Document} (h : Tree.Valid doc.definitions doc.tree) {x : String}
    {n : Node} {place : ParentLink} (hn : doc.tree.nodes.get? x = some n)
    (hlink : n.parent = some place) (now : Instant) :
    ∃ r p content, doc.apply now (.deleteNode x) = .ok r ∧ r.1.definitions = doc.definitions ∧
      p.id = place.nodeId ∧
      doc.tree.Shrinks r.1.tree x p place.slotName content place.index := by
  obtain ⟨r, hr⟩ : ∃ r, doc.apply now (.deleteNode x) = .ok r :=
    (exists_apply_eq_ok_iff h).mpr ⟨n, hn⟩
  obtain ⟨q, inverses, d, hq, -, hd, rfl⟩ := apply_eq_ok_iff.mp hr
  cases hq
  have hdelete : Draft.delete { tree := doc.tree } x = .ok d := hd
  obtain ⟨e, p, content, he, hid, hshrinks⟩ :=
    Draft.delete_child_eq_ok (d := { tree := doc.tree }) h.linked hn hlink
  cases hdelete.symm.trans he
  exact ⟨_, p, content, hr, rfl, hid, hshrinks⟩

/-- From a valid tree every node can be deleted. -/
theorem apply_delete {doc : Document} (h : Tree.Valid doc.definitions doc.tree) {x : String}
    (hx : doc.tree.has x = true) (now : Instant) :
    ∃ r, doc.apply now (.deleteNode x) = .ok r ∧
      (doc.tree.root = some x → r.1.tree = {}) ∧
      (doc.tree.root ≠ some x → ∃ n place, doc.tree.nodes.get? x = some n ∧
        n.parent = some place ∧ doc.tree.Prunes r.1.tree x place) := by
  obtain ⟨n, hn⟩ := Tree.has_eq_true_iff.mp hx
  cases hlink : n.parent with
  | none =>
    obtain ⟨r, hr⟩ : ∃ r, doc.apply now (.deleteNode x) = .ok r :=
      (exists_apply_eq_ok_iff h).mpr ⟨n, hn⟩
    refine ⟨r, hr, fun _ => ?_, fun hroot => absurd (h.linked.top hn hlink) hroot⟩
    obtain ⟨q, inverses, d, hq, -, hd, rfl⟩ := apply_eq_ok_iff.mp hr
    cases hq
    have hdelete : Draft.delete { tree := doc.tree } x = .ok d := hd
    obtain ⟨e, he, htree⟩ := Draft.delete_root_eq_ok (d := { tree := doc.tree }) hn hlink
    cases hdelete.symm.trans he
    exact htree
  | some place =>
    obtain ⟨r, p, content, hr, -, hid, hshrinks⟩ := apply_delete_child h hn hlink now
    have hprunes := hshrinks.prunes h
    rw [hid] at hprunes
    refine ⟨r, hr, fun hroot => ?_, fun _ => ⟨n, place, hn, hlink, hprunes⟩⟩
    -- the root has no parent
    obtain ⟨m, hm, hnone⟩ := h.linked.rooted hroot
    rw [hn, Option.some.injEq] at hm
    rw [← hm, hlink] at hnone
    cases hnone

/-- In every run, at any time, every node can be deleted.  With the root everything goes.  With
another node go those that have it among their ancestors; the siblings behind it move up, with what
is bound for them; and all else stays. -/
theorem delete_run (name : String) (defs : Definitions) (config : DocumentConfig)
    (calls : List Call) (now : Instant) {x : String}
    (hx : ((Document.new name defs config).run calls).tree.has x = true) :
    let doc := (Document.new name defs config).run calls
    ∃ r, doc.apply now (.deleteNode x) = .ok r ∧
      (doc.tree.root = some x → r.1.tree = {}) ∧
      (doc.tree.root ≠ some x → ∃ n place, doc.tree.nodes.get? x = some n ∧
        n.parent = some place ∧ doc.tree.Prunes r.1.tree x place) :=
  apply_delete (valid_definitions_run name defs config calls) hx now

/-- When the first one of two shelves is deleted, the second one comes to its position, and so does
the tag that it has there. -/
theorem delete_run_shelfCalls :
    let doc := (Document.new "shelves" shelfDefinitions).run
      (shelfCalls ++ [.apply 0 (.setNodeInput "top" "tag" (some 1) (some (.string "second")))])
    let tagged (t : Tree) (i : Nat) := (t.nodes.get? "top").any fun n =>
      (n.input? ⟨"tag", some i⟩).isSome
    ∃ r, doc.apply 0 (.deleteNode "left") = .ok r ∧
      (∃ n place, doc.tree.nodes.get? "left" = some n ∧ n.parent = some place ∧
        doc.tree.Prunes r.1.tree "left" place) ∧
      tagged doc.tree 0 = false ∧ tagged doc.tree 1 = true ∧
      (r.1.tree.nodes.get? "right").bind Node.parent = some ⟨"top", "items", some 0⟩ ∧
      tagged r.1.tree 0 = true ∧ tagged r.1.tree 1 = false := by
  intro doc tagged
  obtain ⟨r, hr, -, hprunes⟩ := delete_run "shelves" shelfDefinitions {}
    (shelfCalls ++ [.apply 0 (.setNodeInput "top" "tag" (some 1) (some (.string "second")))]) 0
    (x := "left") (by decide +kernel)
  obtain ⟨r', hr', hafter⟩ : ∃ r, doc.apply 0 (.deleteNode "left") = .ok r ∧
      ((r.1.tree.nodes.get? "right").bind Node.parent = some ⟨"top", "items", some 0⟩ ∧
        tagged r.1.tree 0 = true ∧ tagged r.1.tree 1 = false) := by decide +kernel
  cases hr.symm.trans hr'
  exact ⟨r, hr, hprunes (by decide +kernel), by decide +kernel, by decide +kernel, hafter⟩

end Document

end SlotTree
