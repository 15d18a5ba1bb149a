import SlotTree.Proofs.Edit.Patches
import SlotTree.Proofs.Undo.Recreation

/-!
# Inverse patches

The patches that are kept for a patch lead from the tree after it back to the tree before it: a node
that was created is deleted, one that was deleted is brought back, a new id is exchanged for the old
one, and an input is bound to what it was bound to.

## Main results

* `Tree.inverses_eq_ok`, `Tree.inverses_ne_nil` — the inverse patches exist, and there are some.
* `Tree.inverses_replays` — they lead back.
* `Tree.setInput_replays` — what an input is bound to in between makes no difference.
-/

namespace SlotTree

namespace Tree

variable {defs : Definitions} {t t' : Tree}

/-- What is below a child that has just been created is the child alone. -/
theorem Grows.below_child {schema : NodeSchema} {p : Node} {slotName c y : String}
    {content : SlotContent} {index : Option Nat}
    (hg : Grows defs t t' schema p slotName content index c) (h' : Linked defs t')
    (hb : t'.Below c y) : y = c := by
  rcases (h'.below_cases hg.child).mp hb with heq | ⟨z, hz, -⟩
  · exact heq
  · obtain ⟨s, i, hplace⟩ := Node.mem_childIds_iff.mp hz
    rw [Node.child?_nodeEmpty] at hplace
    cases hplace

/-- A node that was created is deleted. -/
theorem Grows.replays {schema : NodeSchema} {p : Node} {slotName c : String}
    {content : SlotContent} {index : Option Nat} (h : Valid defs t)
    (hg : Grows defs t t' schema p slotName content index c) :
    Replays defs t' [.deleteNode c] t := by
  have h' := (hg.regraft h.linked).linked h.linked
  refine replays_singleton fun d hd => ?_
  obtain ⟨d', p', content', hd', hid, hshrinks⟩ := Draft.delete_child_eq_ok (d := d)
    (hd ▸ h') (hd ▸ hg.child) rfl
  rw [hd] at hshrinks
  refine ⟨d', hd', ?_⟩
  -- the parent is the one that got the child, and the slot holds what it got
  have hp' := hshrinks.before
  rw [hid, hg.after, Option.some.injEq] at hp'
  subst hp'
  have hs := hshrinks.slot
  simp only [Node.attach, OrderedMap.get?_insert, if_true, Option.some.injEq] at hs
  subst hs
  have hback := Node.detach_attach (c := c) (h.linked.fits hg.before) (h.bound.tidy hg.before)
    hg.slot hg.admits
  -- with the child nothing else is deleted
  have hbelow : ∀ {y}, y ≠ c → ¬ t'.Below c y := fun hne hb => hne (hg.below_child h' hb)
  refine h.linked.ext ((hshrinks.regraft h').linked h') (hshrinks.root.trans hg.root) ?_ ?_
  · intro y n hn
    have hyc : y ≠ c := SortedMap.ne_of_get? hn hg.unused
    by_cases hyp : y = p.id
    · subst hyp
      rw [hg.before, Option.some.injEq] at hn
      subst hn
      exact ⟨_, hshrinks.after, rfl, congrArg Node.slots hback, congrArg Node.inputs hback⟩
    · exact ⟨_, by rw [hshrinks.others y (hbelow hyc) hyp, hg.others y hyc hyp, hn]; rfl, by simp,
        by simp, by simp⟩
  · intro y hn
    by_cases hyc : y = c
    · exact hshrinks.gone y (hyc ▸ .self)
    · have hyp : y ≠ p.id := (SortedMap.ne_of_get? hg.before hn).symm
      rw [hshrinks.others y (hbelow hyc) hyp, hg.others y hyc hyp, hn]
      rfl

/-! ### Bindings -/

/-- What an input is bound to in between makes no difference. -/
theorem setInput_replays (h : Linked defs t) {x inputName : String} {n : Node}
    {index : Option UInt32} {expression : Option Expression} {e : Option TypedExpression}
    (hn : t.nodes.get? x = some n) (ha : n.Declares ⟨inputName, index.map UInt32.toNat⟩)
    (hok : Accepts defs t n inputName expression e) (e' : Option TypedExpression) :
    Replays defs (t.put x (n.bind ⟨inputName, index.map UInt32.toNat⟩ e'))
      [.setNodeInput x inputName index expression]
      (t.put x (n.bind ⟨inputName, index.map UInt32.toNat⟩ e)) := by
  have hr := rehung_bind hn ⟨inputName, index.map UInt32.toNat⟩ e'
  have hnid : n.id = x := h.ownId hn
  have hid : (n.bind ⟨inputName, index.map UInt32.toNat⟩ e').id = x := hnid
  refine replays_singleton fun d hd => ?_
  have hn' : d.tree.nodes.get? x = some (n.bind ⟨inputName, index.map UInt32.toNat⟩ e') := by
    rw [hd, get?_put, if_pos rfl]
  have hok' : Accepts defs d.tree (n.bind ⟨inputName, index.map UInt32.toNat⟩ e') inputName
      expression e := by
    rw [hd]
    exact hok.rehung hr h hn hid rfl
  obtain ⟨d', hd', htree⟩ := (@Draft.setInput_eq_ok_iff defs d (hd ▸ hr.linked h) x
    inputName index expression _).mpr
    ⟨_, e, hn', (Node.declares_congr rfl rfl).mpr ha, hok', rfl⟩
  exact ⟨d', hd', by rw [htree, hd, put_put, Node.bind_bind]⟩

/-- What is bound passes the check. -/
theorem Valid.accepts (h : Valid defs t) {x : String} {n : Node} (hn : t.nodes.get? x = some n)
    {a : InputAddress} (ha : n.Declares a) :
    Accepts defs t n a.name ((n.input? a).map TypedExpression.erase) (n.input? a) := by
  cases he : n.input? a with
  | none => rfl
  | some e => exact ⟨e, rfl, h.bound.checkInput hn ha he⟩

/-! ### All patches -/

/-- The inverse patches of a patch that the tree takes exist. -/
theorem inverses_eq_ok (h : Linked defs t) {p : Patch} (hp : t.Takes defs p) (first : Bool) :
    ∃ ps, t.inverses first p = .ok ps := by
  cases p with
  | createNode nodeType parent nodeId => exact ⟨_, rfl⟩
  | renameNode nodeId newId => exact ⟨_, rfl⟩
  | deleteNode nodeId =>
    obtain ⟨n, hn⟩ := hp
    rw [inverses, recreation, node_eq_ok_iff.mpr hn, Outcome.ok_bind, h.depthFirst_eq hn,
      Outcome.ok_bind]
    cases hlink : n.parent with
    | none => exact ⟨_, rfl⟩
    | some link =>
      obtain ⟨p, hp, -⟩ := h.up hn hlink
      obtain ⟨parentId, slotName, index⟩ := link
      cases index with
      | none => exact ⟨_, rfl⟩
      | some i =>
        simp only [node_eq_ok_iff.mpr hp, Outcome.ok_bind]
        exact ⟨_, rfl⟩
  | setNodeInput nodeId inputName index expression =>
    obtain ⟨n, e, hn, -⟩ := hp
    rw [inverses, node_eq_ok_iff.mpr hn, Outcome.ok_bind]
    cases n.input? ⟨inputName, index.map UInt32.toNat⟩ <;> exact ⟨_, rfl⟩

/-- What is brought back is the node itself at least. -/
theorem recreation_ne_nil {x : String} {ps : List Patch} (h : t.recreation x = .ok ps) :
    ps ≠ [] := by
  rw [recreation] at h
  obtain ⟨n, -, h⟩ := Outcome.bind_eq_ok.mp h
  obtain ⟨nodes, hnodes, h⟩ := Outcome.bind_eq_ok.mp h
  have hne : nodes ≠ [] := by
    cases hsize : t.size with
    | zero =>
      rw [hsize, depthFirst] at hnodes
      cases hnodes
      exact List.cons_ne_nil _ _
    | succ levels =>
      rw [hsize, depthFirst] at hnodes
      obtain ⟨below, -, hnodes⟩ := Outcome.bind_eq_ok.mp hnodes
      cases hnodes
      exact List.cons_ne_nil _ _
  obtain ⟨m, rest, rfl⟩ := List.exists_cons_of_ne_nil hne
  split at h
  · obtain ⟨p, -, h⟩ := Outcome.bind_eq_ok.mp h
    cases h
    exact List.cons_ne_nil _ _
  · cases h
    exact List.cons_ne_nil _ _

/-- There is always something to take back, once a node that is to be created has its id. -/
theorem inverses_ne_nil {p : Patch} {ps : List Patch}
    (hid : ∀ nodeType parent, p ≠ .createNode nodeType parent none)
    (hps : t.inverses true p = .ok ps) : ps ≠ [] := by
  cases p with
  | createNode nodeType parent nodeId =>
    cases nodeId with
    | none => exact absurd rfl (hid nodeType parent)
    | some c =>
      cases hps
      exact List.cons_ne_nil _ _
  | deleteNode x => exact recreation_ne_nil hps
  | renameNode old new =>
    cases hps
    exact List.cons_ne_nil _ _
  | setNodeInput x inputName index expression =>
    obtain ⟨n, -, hps⟩ := Outcome.bind_eq_ok.mp hps
    split at hps <;> cases hps <;> exact List.cons_ne_nil _ _

theorem rename_replays (h : Valid defs t) {old new : String} {n : Node}
    (hn : t.nodes.get? old = some n) (hnew : t.nodes.get? new = none)
    (hr : Relabels (Equiv.swap old new) t t') : Replays defs t' [.renameNode new old] t := by
  have hgot : t'.nodes.get? new = some (n.relabel (Equiv.swap old new)) := by
    have := hr.nodes old
    rwa [Equiv.swap_apply_left, hn, Option.map_some] at this
  have hgone : t'.nodes.get? old = none := by
    have := hr.nodes new
    rwa [Equiv.swap_apply_right, hnew, Option.map_none] at this
  refine replays_singleton fun d hd => ?_
  subst hd
  obtain ⟨d', hd', hr'⟩ := Draft.rename_eq_ok (hr.valid h) hgot hgone
  rw [Equiv.swap_comm] at hr'
  exact ⟨d', hd', hr.undo (by rw [Equiv.symm_swap]; exact hr')⟩

theorem delete_replays (h : Valid defs t) (hsmall : t.Small) {x : String} {n : Node} {d' : Draft}
    (hn : t.nodes.get? x = some n) (hd : Draft.delete { tree := t } x = .ok d') :
    ∃ ps, t.recreation x = .ok ps ∧ Replays defs d'.tree ps t := by
  cases hlink : n.parent with
  | none =>
    obtain ⟨e, he, htree⟩ := Draft.delete_root_eq_ok (d := { tree := t }) hn hlink
    rw [hd, Except.ok.injEq] at he
    rw [he, htree]
    exact recreation_root h hsmall hn hlink
  | some link =>
    obtain ⟨e, p, content, he, hid, hshrinks⟩ :=
      Draft.delete_child_eq_ok (d := { tree := t }) h.linked hn hlink
    rw [hd, Except.ok.injEq] at he
    subst he
    refine recreation_child h hsmall hshrinks hn ?_
    rw [hlink, hid]

/-- The inverse patches lead from the tree after the patch to the tree before it. -/
theorem inverses_replays (h : Valid defs t) (hsmall : t.Small) {p : Patch} {ps : List Patch}
    {d' : Draft} (hid : ∀ nodeType parent, p ≠ .createNode nodeType parent none)
    (hps : t.inverses true p = .ok ps) (hd : Draft.apply { tree := t } defs p = .ok d') :
    Replays defs d'.tree ps t := by
  cases p with
  | createNode nodeType parent nodeId =>
    cases nodeId with
    | none => exact absurd rfl (hid nodeType parent)
    | some c =>
      cases hps
      cases parent with
      | none =>
        obtain ⟨schema, hs, hempty, htree⟩ :=
          (Draft.create_root_eq_ok_iff (d := { tree := t }) h.linked).mp ⟨d', hd, rfl⟩
        have hempty' : t = {} := hempty
        rw [htree, hempty']
        refine replays_singleton fun d hd => ?_
        have hget : d.tree.nodes.get? c = some (.empty schema c none) := by
          rw [hd, get?_alone, if_pos rfl]
        exact Draft.delete_root_eq_ok hget rfl
      | some parent =>
        obtain ⟨schema, q, content, hs, hc, hq, hslot, ha⟩ := Draft.create_child_inv hd
        obtain ⟨e, he, hgrows⟩ := Draft.create_child_eq_ok h.linked parent hs hc hq hslot ha
        have heq : d' = e := Except.ok.inj (hd.symm.trans he)
        subst heq
        exact hgrows.replays h
  | deleteNode x =>
    obtain ⟨n, hn⟩ := (Draft.delete_eq_ok_iff (d := { tree := t }) h.linked).mp ⟨d', hd⟩
    obtain ⟨qs, hqs, hreplays⟩ := delete_replays h hsmall hn hd
    have heq : ps = qs := Except.ok.inj (hps.symm.trans hqs)
    subst heq
    exact hreplays
  | renameNode old new =>
    cases hps
    obtain ⟨⟨n, hn⟩, hnew⟩ := (Draft.rename_eq_ok_iff (d := { tree := t }) h).mp ⟨d', hd⟩
    obtain ⟨e, he, hr⟩ := Draft.rename_eq_ok (d := { tree := t }) h hn hnew
    have heq : d' = e := Except.ok.inj (hd.symm.trans he)
    subst heq
    exact rename_replays h hn hnew hr
  | setNodeInput x inputName index expression =>
    obtain ⟨n, e, hn, ha, -, htree⟩ :=
      (Draft.setInput_eq_ok_iff (d := { tree := t }) h.linked).mp ⟨d', hd, rfl⟩
    have hback := setInput_replays h.linked hn ha (h.accepts hn ha) e
    rw [Node.bind_self, put_self hn] at hback
    rw [htree]
    -- the inverse sets what was bound, or nothing if nothing was
    rw [inverses, node_eq_ok_iff.mpr hn, Outcome.ok_bind] at hps
    cases hin : n.input? ⟨inputName, index.map UInt32.toNat⟩ with
    | some f =>
      rw [hin] at hps hback
      cases hps
      exact hback
    | none =>
      rw [hin] at hps hback
      cases hps
      exact hback

end Tree

end SlotTree
