import SlotTree.Proofs.Edit.Notes
import SlotTree.Proofs.Edit.Retargeting

/-!
# Renaming nodes

A node that is renamed to an id not in use gives the same tree with the two ids exchanged: in its
parent or as the root, in the links of its children, and in all bindings.

## Main results

* `Draft.rename_eq_ok` — a node that exists can be given any id that is not in use, and what comes
  of it.
-/

namespace SlotTree

/-! ### Nodes -/

namespace Node

variable {f : String → String} {n : Node} {old new : String}

/-- A node that holds none of the ids that are exchanged keeps its slots. -/
theorem mapValues_relabel_eq_self (h : ∀ s i c, n.child? s i = some c → f c = c) :
    (n.slots.mapValues fun _ content => content.relabel f) = n.slots := by
  refine OrderedMap.ext_keys (by simp) fun s => ?_
  rw [OrderedMap.get?_mapValues]
  cases hs : n.slots.get? s with
  | none => rfl
  | some content =>
    rw [Option.map_some, SlotContent.relabel_eq_self]
    intro i c hc
    exact h s i c (by rw [child?_of_get? hs]; exact hc)

/-- A node whose own id and children are not exchanged gets another link to its parent at most. -/
theorem rehang_eq {inputs : SortedMap TypedExpression} (hid : f n.id = n.id)
    (h : ∀ s i c, n.child? s i = some c → f c = c) :
    n.rehang f inputs = { n with parent := n.parent.map (ParentLink.relabel f), inputs } := by
  rw [rehang, mapValues_relabel_eq_self h, hid]

theorem relabel_swap_eq_self {content : SlotContent} (hold : ∀ i, content.child? i ≠ some old)
    (hnew : ∀ i, content.child? i ≠ some new) : content.relabel (Equiv.swap old new) = content := by
  refine SlotContent.relabel_eq_self fun i c hc => Equiv.swap_apply_of_ne_of_ne ?_ ?_
  · rintro rfl
    exact hold i hc
  · rintro rfl
    exact hnew i hc

/-- In a list that has the old id once and the new one nowhere, putting the new one in its place
exchanges the two. -/
theorem set_eq_map_swap {ids : List String} {k : Nat} (hk : ids[k]? = some old)
    (hold : ∀ j : Nat, ids[j]? = some old → k = j) (hnew : ∀ j : Nat, ids[j]? ≠ some new) :
    ids.set k new = ids.map (Equiv.swap old new) := by
  obtain ⟨hlt, -⟩ := List.getElem?_eq_some_iff.mp hk
  refine List.ext_getElem? fun j => ?_
  rw [List.getElem?_set, List.getElem?_map]
  by_cases hkj : k = j
  · rw [if_pos hkj, if_pos (hkj ▸ hlt), ← hkj, hk, Option.map_some, Equiv.swap_apply_left]
  · rw [if_neg hkj]
    cases hj : ids[j]? with
    | none => rfl
    | some y =>
      rw [Option.map_some, Equiv.swap_apply_of_ne_of_ne]
      · rintro rfl
        exact hkj (hold j hj)
      · rintro rfl
        exact hnew j hj

/-- The parent of a renamed node holds the new id in place of the old one. -/
theorem renameChild_eq_ok {s : String} {i : Option Nat} (hd : n.Distinct)
    (hc : n.child? s i = some old) (hnew : ∀ s i, n.child? s i ≠ some new) :
    n.renameChild new s i = .ok { n with
      slots := n.slots.mapValues fun _ content => content.relabel (Equiv.swap old new) } := by
  obtain ⟨content, hs, hchild⟩ := child?_eq_some_iff.mp hc
  have hnew' : ∀ s content, n.slots.get? s = some content → ∀ i, content.child? i ≠ some new := by
    intro s content hs i hi
    exact hnew s i (by rw [child?_of_get? hs]; exact hi)
  -- the slots agree: the one of the child, and those that do not hold it
  have hslots : ∀ changed, changed = content.relabel (Equiv.swap old new) →
      n.slots.insert s changed =
        n.slots.mapValues fun _ content => content.relabel (Equiv.swap old new) := by
    rintro changed rfl
    refine OrderedMap.ext_keys ?_ fun s' => ?_
    · rw [OrderedMap.keys_insert hs, OrderedMap.keys_mapValues]
    · rw [OrderedMap.get?_insert, OrderedMap.get?_mapValues]
      by_cases hss : s = s'
      · rw [if_pos hss, ← hss, hs, Option.map_some]
      · rw [if_neg hss]
        cases hs' : n.slots.get? s' with
        | none => rfl
        | some other =>
          rw [Option.map_some, relabel_swap_eq_self _ (hnew' s' other hs')]
          intro j hj
          exact hss (hd _ _ _ _ _ hc (by rw [child?_of_get? hs']; exact hj)).1
  rw [renameChild, slot_eq_ok.mpr hs, Outcome.ok_bind]
  cases content with
  | single child =>
    cases i with
    | some i => cases hchild
    | none =>
      rw [SlotContent.child?_single_none] at hchild
      subst hchild
      simp only
      rw [hslots]
      · rfl
      · rw [SlotContent.relabel, Option.map_some, Equiv.swap_apply_left]
  | collection ids =>
    cases i with
    | none => cases hchild
    | some i =>
      rw [SlotContent.child?_collection_some] at hchild
      obtain ⟨hi, -⟩ := List.getElem?_eq_some_iff.mp hchild
      simp only [hi, if_true]
      rw [hslots]
      · rfl
      · rw [SlotContent.relabel, set_eq_map_swap hchild ?_ fun j => hnew' s _ hs (some j)]
        intro j hj
        have hy : n.child? s (some j) = some old := by rw [child?_of_get? hs]; exact hj
        exact Option.some.inj (hd _ _ _ _ _ hc hy).2

/-- The links that the children of a renamed node get. -/
theorem get?_rename (hd : n.Distinct) {y : String} {link : ParentLink} :
    (n.rename new).2.get? y = some link ↔
      link.nodeId = new ∧ n.child? link.slotName link.index = some y := by
  have hkeys : (({ n with id := new } : Node).childLinks.map Prod.fst).Nodup :=
    Distinct.nodup_childIds (n := { n with id := new }) hd
  have hmem : (y, link) ∈ ({ n with id := new } : Node).childLinks ↔
      link.nodeId = new ∧ n.child? link.slotName link.index = some y := mem_childLinks_iff
  rw [rename, SortedMap.get?_ofList hkeys]
  constructor
  · exact fun h => hmem.mp (mem_of_lookup h)
  · exact fun h => lookup_eq_some_of_mem hkeys (hmem.mpr h)

end Node

/-! ### The edit -/

namespace Draft

variable {defs : Definitions} {d d₁ : Draft} {old new : String} {n : Node}

/-- The tree in which a node has got its new id, but is not known under it yet. -/
structure Readdressed (t t' : Tree) (old new : String) (n : Node) : Prop where
  /-- The root is the same. -/
  root : t'.root = t.root.map (Equiv.swap old new)
  /-- The node stands under its new id. -/
  node : t'.nodes.get? new = some { n with id := new }
  /-- Nothing stands under the old id. -/
  gone : t'.nodes.get? old = none
  /-- The parent of the node holds the new id. -/
  parent : ∀ link p, n.parent = some link → t.nodes.get? link.nodeId = some p →
    t'.nodes.get? link.nodeId = some { p with
      slots := p.slots.mapValues fun _ content => content.relabel (Equiv.swap old new) }
  /-- All other nodes are as they were. -/
  others : ∀ y, y ≠ old → y ≠ new → (∀ link, n.parent = some link → y ≠ link.nodeId) →
    t'.nodes.get? y = t.nodes.get? y

/-- Whatever exists is not under the new id, and so stays under its own, but for the node. -/
theorem swap_eq_self {t : Tree} (hnew : t.nodes.get? new = none) {x : String} {m : Node}
    (hx : x ≠ old) (hm : t.nodes.get? x = some m) : Equiv.swap old new x = x :=
  Equiv.swap_apply_of_ne_of_ne hx (SortedMap.ne_of_get? hm hnew)

/-- The root stays under its id if the node has a parent. -/
theorem root_map_swap {t : Tree} (h : Tree.Linked defs t) (hn : t.nodes.get? old = some n)
    (hnew : t.nodes.get? new = none) {link : ParentLink} (hlink : n.parent = some link) :
    t.root.map (Equiv.swap old new) = t.root := by
  cases hr : t.root with
  | none => rfl
  | some r =>
    obtain ⟨m, hm, hnone⟩ := h.rooted hr
    rw [Option.map_some, swap_eq_self hnew _ hm]
    rintro rfl
    rw [hn, Option.some.injEq] at hm
    rw [← hm, hlink] at hnone
    cases hnone

/-- Renaming puts the node under its new id, tells its parent and its children, and points the
bindings below it there. -/
theorem rename_steps (h : Tree.Linked defs d.tree) (hn : d.tree.nodes.get? old = some n)
    (hnew : d.tree.nodes.get? new = none) :
    ∃ d₁ : Draft, Readdressed d.tree d₁.tree old new n ∧
      Notes d d₁ ([old, new] ++ (n.parent.map ParentLink.nodeId).toList) ∧
      d.rename defs old new =
        (d₁.moveChildren (n.rename new).2 >>= fun d₂ : Draft => d₂.retargetBelow defs old new) := by
  have hne : new ≠ old := (SortedMap.ne_of_get? hn hnew).symm
  -- the tree in which the node has changed its place, but no other node knows of it
  obtain ⟨e, he⟩ : ∃ e : Draft, e =
      (((d.drop old).put new { n with id := new }).touch old).touch new := ⟨_, rfl⟩
  have hroot : e.tree.root = d.tree.root := by
    rw [he, tree_touch, tree_touch]
    rfl
  have hget : ∀ y, e.tree.nodes.get? y = if new = y then some { n with id := new } else
      if old = y then none else d.tree.nodes.get? y := by
    intro y
    rw [he, tree_touch, tree_touch, tree_put, tree_drop, Tree.get?_put, Tree.get?_drop]
  have hother : ∀ y, y ≠ old → y ≠ new → e.tree.nodes.get? y = d.tree.nodes.get? y := by
    intro y hy hy'
    rw [hget, if_neg (Ne.symm hy'), if_neg (Ne.symm hy)]
  have hnotes : Notes d (((d.drop old).put new { n with id := new }).touchAll [old, new])
      [old, new] := notes_touchAll rfl fun y hy => by
    rw [List.mem_cons, List.mem_singleton, not_or] at hy
    rw [tree_put, tree_drop, Tree.get?_put, Tree.get?_drop, if_neg (Ne.symm hy.2),
      if_neg (Ne.symm hy.1)]
  replace hnotes : Notes d e [old, new] := he ▸ hnotes
  rw [rename, Tree.node_eq_ok_iff.mpr hn, Outcome.ok_bind, Tree.has_eq_false_iff.mpr hnew]
  simp only [Bool.false_eq_true, if_false]
  rw [show (n.rename new).1 = { n with id := new } from rfl, ← he]
  cases hlink : n.parent with
  | none =>
    refine ⟨{ e with tree := { e.tree with root := some new } }, ?_,
      ⟨hnotes.mem, hnotes.nodup, hnotes.still⟩, rfl⟩
    exact {
      root := by rw [h.top hn hlink, Option.map_some, Equiv.swap_apply_left]
      node := (hget new).trans (if_pos rfl)
      gone := (hget old).trans (by rw [if_neg hne, if_pos rfl])
      parent := by
        intro link p hl
        rw [hlink] at hl
        cases hl
      others := fun y hy hy' _ => hother y hy hy' }
  | some link =>
    obtain ⟨p, hp, hc⟩ := h.up hn hlink
    have hpo : link.nodeId ≠ old := h.parent_ne_self hn hlink
    have hpn : link.nodeId ≠ new := SortedMap.ne_of_get? hp hnew
    have hchild := Node.renameChild_eq_ok (h.distinct hp) hc fun s i hi => by
      obtain ⟨m, hm, -⟩ := h.down hp hi
      rw [hnew] at hm
      cases hm
    have hpe : e.tree.nodes.get? link.nodeId = some p := (hother _ hpo hpn).trans hp
    refine ⟨(e.put link.nodeId { p with
      slots := p.slots.mapValues fun _ content => content.relabel (Equiv.swap old new) }).touch
        link.nodeId, ?_, hnotes.trans (notes_put e link.nodeId _), ?_⟩
    · exact {
        root := by rw [tree_touch, tree_put, Tree.put, hroot, root_map_swap h hn hnew hlink]
        node := by rw [tree_touch, tree_put, Tree.get?_put, if_neg hpn, hget, if_pos rfl]
        gone := by
          rw [tree_touch, tree_put, Tree.get?_put, if_neg hpo, hget, if_neg hne, if_pos rfl]
        parent := by
          intro link' p' hl hp'
          rw [hlink, Option.some.injEq] at hl
          subst hl
          rw [hp, Option.some.injEq] at hp'
          rw [tree_touch, tree_put, Tree.get?_put, if_pos rfl, hp']
        others := by
          intro y hy hy' hyp
          rw [tree_touch, tree_put, Tree.get?_put, if_neg (Ne.symm (hyp link hlink))]
          exact hother y hy hy' }
    · simp only [Tree.node_eq_ok_iff.mpr hpe, Outcome.ok_bind, hchild, Outcome.ok_mapError]
      rfl

/-- The children that get new links are others than the node and its parent. -/
theorem moved_rename {t : Tree} (h : Tree.Linked defs t) (hn : t.nodes.get? old = some n)
    {y : String} {link : ParentLink} (hl : (n.rename new).2.get? y = some link) :
    link.nodeId = new ∧ y ≠ old ∧ (∀ up, n.parent = some up → y ≠ up.nodeId) ∧
      ∃ m, t.nodes.get? y = some m ∧ m.parent = some ⟨old, link.slotName, link.index⟩ := by
  obtain ⟨hid, hc⟩ := (Node.get?_rename (h.distinct hn)).mp hl
  obtain ⟨m, hm, hlink⟩ := h.down hn hc
  refine ⟨hid, h.child_ne_self hn hc, ?_, m, hm, hlink⟩
  rintro up hup rfl
  exact h.not_below_parent hn hup (.child hm hlink .self)

/-- The children of a node that does not hold the old id keep their ids. -/
theorem swap_child_eq_self {t : Tree} (h : Tree.Linked defs t) (hn : t.nodes.get? old = some n)
    (hnew : t.nodes.get? new = none) {x : String} {m : Node} (hm : t.nodes.get? x = some m)
    (hx : ∀ link, n.parent = some link → x ≠ link.nodeId) (s : String) (i : Option Nat) (c : String)
    (hc : m.child? s i = some c) : Equiv.swap old new c = c := by
  obtain ⟨k, hk, hlink⟩ := h.down hm hc
  refine swap_eq_self hnew ?_ hk
  rintro rfl
  rw [hn, Option.some.injEq] at hk
  subst hk
  exact hx _ hlink rfl

/-- The link of a node that is no child of the renamed one names the same parent. -/
theorem swap_link_eq_self {t : Tree} (h : Tree.Linked defs t) (hn : t.nodes.get? old = some n)
    (hnew : t.nodes.get? new = none) {x : String} {m : Node} (hm : t.nodes.get? x = some m)
    (hx : ∀ s i, n.child? s i ≠ some x) :
    m.parent.map (ParentLink.relabel (Equiv.swap old new)) = m.parent := by
  cases hlink : m.parent with
  | none => rfl
  | some link =>
    obtain ⟨p, hp, hc⟩ := h.up hm hlink
    have hpo : link.nodeId ≠ old := by
      intro heq
      rw [heq, hn, Option.some.injEq] at hp
      subst hp
      exact hx _ _ hc
    rw [Option.map_some, ParentLink.relabel, swap_eq_self hnew hpo hp]

section Settled

variable {t t' t'' : Tree} (hr : Readdressed t t' old new n) (h : Tree.Linked defs t)
  (hn : t.nodes.get? old = some n) (hnew : t.nodes.get? new = none)
  (hget : ∀ y, t''.nodes.get? y =
    (t'.nodes.get? y).map fun m => m.settle ((n.rename new).2.get? y))

include hget in
/-- What is no child of the renamed node stays as it is when the children get their links. -/
theorem get?_of_not_moved {y : String} (hy : ∀ link, (n.rename new).2.get? y ≠ some link) :
    t''.nodes.get? y = t'.nodes.get? y := by
  rw [hget, Option.eq_none_iff_forall_ne_some.mpr hy]
  cases t'.nodes.get? y <;> rfl

include hr h hn hnew hget

/-- The renamed node. -/
theorem Readdressed.self : t''.nodes.get? new = some (n.rehang (Equiv.swap old new) n.inputs) := by
  rw [get?_of_not_moved hget, hr.node, Node.rehang, Node.mapValues_relabel_eq_self,
    swap_link_eq_self h hn hnew hn, h.ownId hn, Equiv.swap_apply_left]
  · exact fun s i hc => h.child_ne_self hn hc rfl
  · exact swap_child_eq_self h hn hnew hn fun link hlink => (h.parent_ne_self hn hlink).symm
  · intro link hl
    obtain ⟨-, -, -, k, hk, -⟩ := moved_rename h hn hl
    rw [hnew] at hk
    cases hk

/-- The parent of the renamed node. -/
theorem Readdressed.up {link : ParentLink} {p : Node} (hlink : n.parent = some link)
    (hp : t.nodes.get? link.nodeId = some p) :
    t''.nodes.get? link.nodeId = some (p.rehang (Equiv.swap old new) p.inputs) := by
  have hid : Equiv.swap old new p.id = p.id := by
    rw [h.ownId hp, swap_eq_self hnew (h.parent_ne_self hn hlink) hp]
  rw [get?_of_not_moved hget, hr.parent link p hlink hp, Node.rehang, hid,
    swap_link_eq_self h hn hnew hp]
  · intro s i hc
    obtain ⟨k, hk, hup⟩ := h.down hn hc
    exact h.not_below_parent hn hlink (.child hk hup .self)
  · intro l hl
    exact (moved_rename h hn hl).2.2.1 link hlink rfl

/-- All other nodes: the children of the renamed one get a link that names the new id. -/
theorem Readdressed.other {x : String} {m : Node} (hm : t.nodes.get? x = some m) (hx : x ≠ old)
    (hxp : ∀ link, n.parent = some link → x ≠ link.nodeId) :
    t''.nodes.get? x = some (m.rehang (Equiv.swap old new) m.inputs) := by
  have hxn : x ≠ new := SortedMap.ne_of_get? hm hnew
  have hid : Equiv.swap old new m.id = m.id := by rw [h.ownId hm, swap_eq_self hnew hx hm]
  rw [hget, hr.others x hx hxn hxp, hm, Option.map_some,
    Node.rehang_eq hid (swap_child_eq_self h hn hnew hm hxp)]
  cases hl : (n.rename new).2.get? x with
  | some l =>
    -- a child of the renamed node
    obtain ⟨hid, -, -, k, hk, hlink⟩ := moved_rename h hn hl
    rw [hm, Option.some.injEq] at hk
    subst hk
    rw [hlink, Option.map_some, ParentLink.relabel, Equiv.swap_apply_left, ← hid]
    rfl
  | none =>
    rw [swap_link_eq_self h hn hnew hm]
    · rfl
    · intro s i hc
      have hmoved : (n.rename new).2.get? x = some ⟨new, s, i⟩ :=
        (Node.get?_rename (h.distinct hn)).mpr ⟨rfl, hc⟩
      rw [hl] at hmoved
      cases hmoved

/-- When the children have got their links, too, the tree is the old one under the new id. -/
theorem Readdressed.rehang :
    (∀ x m, t.nodes.get? x = some m → t''.nodes.get? (Equiv.swap old new x) =
      some (m.rehang (Equiv.swap old new) m.inputs)) ∧
    ∀ x, t.nodes.get? x = none → t''.nodes.get? (Equiv.swap old new x) = none := by
  constructor
  · intro x m hm
    by_cases hxo : x = old
    · subst hxo
      rw [hn, Option.some.injEq] at hm
      subst hm
      rw [Equiv.swap_apply_left]
      exact hr.self h hn hnew hget
    · rw [swap_eq_self hnew hxo hm]
      by_cases hxp : ∃ link, n.parent = some link ∧ x = link.nodeId
      · obtain ⟨link, hlink, rfl⟩ := hxp
        exact hr.up h hn hnew hget hlink hm
      · exact hr.other h hn hnew hget hm hxo fun link hlink heq => hxp ⟨link, hlink, heq⟩
  · -- where there was no node there is none: the new id has come in place of the old one
    intro x hx
    by_cases hxn : x = new
    · subst hxn
      rw [Equiv.swap_apply_right, get?_of_not_moved hget, hr.gone]
      intro link hl
      exact (moved_rename h hn hl).2.1 rfl
    · have hxo : x ≠ old := (SortedMap.ne_of_get? hn hx).symm
      rw [Equiv.swap_apply_of_ne_of_ne hxo hxn, hget, hr.others x hxo hxn, hx]
      · rfl
      · rintro link hlink rfl
        obtain ⟨p, hp, -⟩ := h.up hn hlink
        rw [hx] at hp
        cases hp

end Settled

/-- Before the bindings are pointed at the new id, the tree is the old one under the new id but for
them. -/
theorem rename_relinks (h : Tree.Linked defs d.tree) (hn : d.tree.nodes.get? old = some n)
    (hnew : d.tree.nodes.get? new = none) :
    ∃ d₂ : Draft,
      Notes d d₂ ([old, new] ++ (n.parent.map ParentLink.nodeId).toList ++ (n.rename new).2.keys) ∧
      d.rename defs old new = d₂.retargetBelow defs old new ∧
      Tree.Rehung (Equiv.swap old new) d.tree d₂.tree ∧
      ∀ x m, d.tree.nodes.get? x = some m → d₂.tree.nodes.get? (Equiv.swap old new x) =
        some (m.rehang (Equiv.swap old new) m.inputs) := by
  obtain ⟨d₁, hd₁, hnotes, hrename⟩ := rename_steps h hn hnew
  obtain ⟨d₂, hd₂, hroot, -, hget⟩ := moveChildren_eq_ok d₁ (n.rename new).2 (by
    intro y link hl
    obtain ⟨-, hyo, hyp, m, hm, -⟩ := moved_rename h hn hl
    have hyn : y ≠ new := SortedMap.ne_of_get? hm hnew
    exact ⟨m, by rw [hd₁.others y hyo hyn hyp, hm]⟩)
  obtain ⟨hsome, hnone⟩ := hd₁.rehang h hn hnew hget
  exact ⟨d₂, hnotes.trans (notes_moveChildren hd₂), by rw [hrename, hd₂, Outcome.ok_bind],
    ⟨hroot.trans hd₁.root, fun hm => ⟨_, hsome _ _ hm⟩, fun hx => hnone _ hx⟩, hsome⟩

/-- A node that exists gets any id that is not in use.  The tree is the same one with the two ids
exchanged. -/
theorem rename_eq_ok (h : Tree.Valid defs d.tree) (hn : d.tree.nodes.get? old = some n)
    (hnew : d.tree.nodes.get? new = none) :
    ∃ d', d.rename defs old new = .ok d' ∧
      Tree.Relabels (Equiv.swap old new) d.tree d'.tree := by
  obtain ⟨d₂, -, hrename, hr, hsome⟩ := rename_relinks h.linked hn hnew
  have hlinked := hr.linked h.linked
  have hnode : d₂.tree.nodes.get? new = some (n.rehang (Equiv.swap old new) n.inputs) := by
    have := hsome old n hn
    rwa [Equiv.swap_apply_left] at this
  obtain ⟨d', hd', hroot', hin, hout⟩ := foldlM_retargetNode h hnew (d₂.tree.breadthFirst new)
    (hlinked.nodup_breadthFirst hnode) d₂ hr (by
      intro y hy
      obtain ⟨m, hm⟩ := ((hlinked.mem_breadthFirst_iff hnode).mp hy).get?_isSome hnode
      obtain ⟨x, k, inputs, rfl, hk, -⟩ := hr.origin hm
      exact ⟨x, k, rfl, hk, hsome x k hk⟩)
  refine ⟨d', ?_, hroot'.trans hr.root, fun x => ?_⟩
  · rw [hrename, retargetBelow]
    exact hd'
  · by_cases hmem : Equiv.swap old new x ∈ d₂.tree.breadthFirst new
    · obtain ⟨m, hm⟩ := ((hlinked.mem_breadthFirst_iff hnode).mp hmem).get?_isSome hnode
      cases hx : d.tree.nodes.get? x with
      | none =>
        rw [hr.none hx] at hm
        cases hm
      | some k => exact hin _ hmem x k rfl hx
    · rw [hout _ hmem]
      cases hx : d.tree.nodes.get? x with
      | none => exact hr.none hx
      | some k =>
        rw [hsome x k hx, Option.map_some, Node.relabel]
        -- what refers to the node is below it
        have hself : k.inputs.map (TypedExpression.relabel (Equiv.swap old new)) = k.inputs := by
          refine SortedMap.ext_get? fun key => ?_
          rw [SortedMap.get?_map]
          cases he : k.inputs.get? key with
          | none => rfl
          | some e =>
            rw [Option.map_some, TypedExpression.relabel_eq_self]
            intro head hhead
            obtain ⟨-, hb, m, hm⟩ := h.head_above hx he hhead
            refine Equiv.swap_apply_of_ne_of_ne ?_ ?_
            · intro heq
              have hb' := hr.below hb
              rw [heq, Equiv.swap_apply_left] at hb'
              exact hmem ((hlinked.mem_breadthFirst_iff hnode).mpr hb')
            · exact SortedMap.ne_of_get? hm hnew
        rw [hself]

end Draft

end SlotTree
