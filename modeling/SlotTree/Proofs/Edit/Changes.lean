import SlotTree.Proofs.Edit.Notes
import SlotTree.Proofs.Edit.Patches

/-!
# What an edit changes

An edit notes every node that it changes.  Creating, deleting and renaming note no others: a node
that is noted comes, goes, holds other children, hangs at another place, or mentions an id that is
not in use any more.  Binding notes its node in any case.

## Main definitions

* `Node.RefersTo`, `Node.Mentions` — the ids that the bindings of a node name, and those that occur
  in it at all.

## Main results

* `Tree.Valid.mentioned` — what a node mentions is in use.
* `Draft.create_notes`, `Draft.delete_notes`, `Draft.rename_notes`, `Draft.setInput_notes` — what
  each edit notes.
* `Draft.apply_notes`, `Draft.foldlM_apply_notes` — what patches note.
-/

namespace SlotTree

/-! ### Children that move -/

namespace Node

variable {n : Node} {slotName y : String}

/-- A new place is behind the position from which on children move. -/
theorem index_of_get?_movedLinks {k : Option Nat} {content : SlotContent} {link : ParentLink}
    (hd : ∀ ids, content = .collection ids → ids.Nodup)
    (h : (n.movedLinks slotName k content).get? y = some link) :
    ∃ i j, k = some i ∧ i ≤ j ∧ link = ⟨n.id, slotName, some j⟩ := by
  cases content with
  | single child => cases h
  | collection ids =>
    cases k with
    | none => cases h
    | some i =>
      obtain ⟨j, hij, -, rfl⟩ := (get?_linksFrom (hd ids rfl)).mp h
      exact ⟨i, j, rfl, hij, rfl⟩

/-- When a child comes or goes, only those in front of it stay where they are. -/
theorem Extends.lt_of_still {big small : Node} {c : String} {k j : Nat}
    (h : Extends big small slotName (some k) c) (hd : big.Distinct)
    (hsmall : small.child? slotName (some j) = some y)
    (hbig : big.child? slotName (some j) = some y) : j < k := by
  obtain ⟨i, hi, -, hroom⟩ := h.old hsmall
  obtain ⟨-, rfl⟩ := hd _ _ _ _ _ hi hbig
  by_contra hle
  simp [makeRoom, hle] at hroom

/-- A node that is given another place is not what it was. -/
theorem settle_ne {link : ParentLink} (h : n.parent ≠ some link) : n.settle (some link) ≠ n := by
  intro heq
  rw [← heq] at h
  exact h rfl

end Node

namespace Tree

variable {defs : Definitions} {t t' : Tree} {schema : NodeSchema} {p : Node}
  {slotName c x : String} {content : SlotContent} {index k : Option Nat}

/-- When a child is created, it comes, its parent holds one child more, and the children that move
hang at other places. -/
theorem Grows.changes (hg : Grows defs t t' schema p slotName content index c) (h : Linked defs t)
    {y : String} (hy : y = p.id ∨ y = c ∨ y ∈ (p.movedLinks slotName
      ((content.place index).map (· + 1)) (content.attach (content.place index) c)).keys) :
    t'.nodes.get? y ≠ t.nodes.get? y := by
  have hext := Node.extends_attach hg.slot hg.admits c
  have hdist := h.distinct_attach hg.unused hg.before hg.slot hg.admits
  rcases hy with rfl | rfl | hy
  · rw [hg.after, hg.before, ne_eq, Option.some.injEq]
    intro heq
    have hnew := hext.new
    rw [heq] at hnew
    exact h.not_child hg.unused hg.before _ _ hnew
  · rw [hg.child, hg.unused]
    exact Option.some_ne_none _
  · obtain ⟨link, hl⟩ := Option.isSome_iff_exists.mp (SortedMap.mem_keys_iff.mp hy)
    obtain ⟨hyc, hyp, m, hm⟩ := h.moved_attach hg.unused hg.before hg.slot hg.admits hl
    obtain ⟨-, -, hbig, -⟩ := (Node.settles_addChild hg.slot hg.admits hdist).given y link hl
    obtain ⟨i, j, hi, hij, rfl⟩ := Node.index_of_get?_movedLinks (fun ids hids =>
      hdist.nodup_collection (s := slotName)
        (by rw [Node.get?_slots_attach, hids])) hl
    rw [hg.others y hyc hyp, hm, Option.map_some, hl, ne_eq, Option.some.injEq]
    refine Node.settle_ne fun hlink => ?_
    -- the child would have stood behind the new one, and not have moved
    obtain ⟨q, hq, hsmall⟩ := h.up hm hlink
    rw [hg.before, Option.some.injEq] at hq
    subst hq
    obtain ⟨place, hplace, rfl⟩ := Option.map_eq_some_iff.mp hi
    rw [hplace] at hext hbig
    have := hext.lt_of_still (hplace ▸ hdist) hsmall hbig
    omega

/-- When a child is deleted, it goes with all below it, its parent holds one child less, and the
children that move hang at other places. -/
theorem Shrinks.changes (hg : Shrinks t t' x p slotName content k) (h : Linked defs t) {y : String}
    (hy : y = p.id ∨ y ∈ (p.movedLinks slotName k (content.detach k)).keys ∨ t.Below x y) :
    t'.nodes.get? y ≠ t.nodes.get? y := by
  have hext := Node.extends_detach hg.slot hg.child
  have hdist := h.distinct hg.before
  obtain ⟨n, hn, -⟩ := h.down hg.before hg.child?
  by_cases hb : t.Below x y
  · obtain ⟨m, hm⟩ := hb.get?_isSome hn
    rw [hg.gone y hb, hm]
    exact (Option.some_ne_none m).symm
  rcases hy with rfl | hy | hy
  · rw [hg.after, hg.before, ne_eq, Option.some.injEq]
    intro heq
    have hold := hg.child?
    rw [← heq] at hold
    exact hext.not_mem_small hdist hold
  · obtain ⟨link, hl⟩ := Option.isSome_iff_exists.mp (SortedMap.mem_keys_iff.mp hy)
    obtain ⟨-, -, hsmall, i, hi⟩ :=
      (Node.settles_removeChild hg.slot hg.child hdist).given y link hl
    obtain ⟨m, hm, -⟩ := h.down hg.before hi
    obtain ⟨i, j, rfl, hij, rfl⟩ := Node.index_of_get?_movedLinks (fun ids hids =>
      (hext.distinct_small hdist).nodup_collection (s := slotName)
        (by rw [Node.get?_slots_detach, hids])) hl
    rw [hg.others y hb (h.child_ne_self hg.before hi), hm, Option.map_some, hl, ne_eq,
      Option.some.injEq]
    refine Node.settle_ne fun hlink => ?_
    -- the child would have stood behind the one that goes, and not have moved
    obtain ⟨q, hq, hbig⟩ := h.up hm hlink
    rw [hg.before, Option.some.injEq] at hq
    subst hq
    have := hext.lt_of_still hdist hsmall hbig
    omega
  · exact absurd hy hb

end Tree

/-! ### Ids that a node mentions -/

namespace Node

/-- A binding of a node refers to another. -/
def RefersTo (n : Node) (id : String) : Prop :=
  ∃ k e, n.inputs.get? k = some e ∧ Expression.refersTo id e.erase.heads = true

/-- An id occurs in a node: it is the node's own, that of its parent or of a child, or a binding
refers to it. -/
def Mentions (n : Node) (id : String) : Prop :=
  n.id = id ∨ (∃ link, n.parent = some link ∧ link.nodeId = id) ∨
    (∃ s i, n.child? s i = some id) ∨ n.RefersTo id

end Node

namespace Tree

variable {defs : Definitions} {t t' : Tree} {old new : String}

/-- What a node mentions is in use. -/
theorem Valid.mentioned (h : Valid defs t) {x id : String} {n : Node}
    (hn : t.nodes.get? x = some n) (hm : n.Mentions id) : ∃ m, t.nodes.get? id = some m := by
  rcases hm with rfl | ⟨link, hlink, rfl⟩ | ⟨s, i, hc⟩ | ⟨k, e, he, href⟩
  · exact ⟨n, by rw [h.linked.ownId hn, hn]⟩
  · obtain ⟨p, hp, -⟩ := h.linked.up hn hlink
    exact ⟨p, hp⟩
  · obtain ⟨m, hm, -⟩ := h.linked.down hn hc
    exact ⟨m, hm⟩
  · obtain ⟨head, hhead, rfl⟩ := Expression.refersTo_eq_true_iff.mp href
    exact (h.head_above hn he hhead).2.2

/-- A node that mentions an id cannot stay when the id goes out of use. -/
theorem Valid.changes_of_mentions (h : Valid defs t') (hgone : t'.nodes.get? old = none)
    {y : String} {n : Node} (hn : t.nodes.get? y = some n) (hm : n.Mentions old) :
    t'.nodes.get? y ≠ t.nodes.get? y := by
  intro heq
  obtain ⟨m, hold⟩ := h.mentioned (heq.trans hn) hm
  rw [hgone] at hold
  cases hold

end Tree

/-! ### Pointing bindings at another node -/

namespace Draft

variable {defs : Definitions} {d d' : Draft} {old new x : String} {n : Node}

/-- A node none of whose bindings refers to the old id stays as it is. -/
theorem foldlM_retargetBinding_none {bs : List (InputAddress × TypedExpression)}
    (h : ∀ b ∈ bs, Expression.refersTo old b.2.erase.heads = false) (u : Option Node) :
    bs.foldlM (d.retargetBinding defs old new n) u = .ok u := by
  induction bs with
  | nil => rfl
  | cons b rest ih =>
    have hnone : b.2.retarget? old new = none := by
      rw [TypedExpression.retarget?, Expression.retarget?_eq, h b List.mem_cons_self]
      rfl
    rw [List.foldlM_cons, retargetBinding, hnone]
    exact ih fun c hc => h c (List.mem_cons_of_mem b hc)

/-- A node is noted only if one of its bindings refers to the old id. -/
theorem retargetNode_notes (h : retargetNode defs old new d x = .ok d') :
    Notes d d' [] ∨ (Notes d d' [x] ∧ ∃ n, d.tree.nodes.get? x = some n ∧ n.RefersTo old) := by
  unfold retargetNode at h
  obtain ⟨n, hn, h⟩ := Outcome.bind_eq_ok.mp h
  rw [Tree.node_eq_ok_iff] at hn
  obtain ⟨updated, hu, h⟩ := Outcome.bind_eq_ok.mp h
  cases updated with
  | none =>
    cases h
    exact .inl (Notes.refl d)
  | some m =>
    cases h
    refine .inr ⟨notes_put d x m, n, hn, ?_⟩
    by_contra hnot
    rw [foldlM_retargetBinding_none] at hu
    · cases hu
    · rintro ⟨a, e⟩ hb
      rw [← Bool.not_eq_true]
      exact fun href => hnot ⟨a.key, e, (Node.mem_boundInputs_iff.mp hb).2, href⟩

/-- Of many nodes those are noted that have a binding which refers to the old id. -/
theorem foldlM_retargetNode_notes (as : List String) : as.Nodup → ∀ {d d' : Draft},
    as.foldlM (retargetNode defs old new) d = .ok d' →
      ∃ ids, Notes d d' ids ∧
        ∀ y ∈ ids, y ∈ as ∧ ∃ n, d.tree.nodes.get? y = some n ∧ n.RefersTo old := by
  induction as with
  | nil =>
    intro _ d d' h
    cases h
    exact ⟨[], Notes.refl d, by simp⟩
  | cons a rest ih =>
    intro hnd d d' h
    rw [List.nodup_cons] at hnd
    rw [List.foldlM_cons] at h
    obtain ⟨e, he, h⟩ := Outcome.bind_eq_ok.mp h
    obtain ⟨ids, hnotes, hids⟩ := ih hnd.2 h
    -- the nodes that follow have not changed at the first step
    have hlater : ∀ {as'}, Notes d e as' → (∀ z ∈ as', z = a) → ∀ y ∈ ids, y ∈ a :: rest ∧
        ∃ n, d.tree.nodes.get? y = some n ∧ n.RefersTo old := by
      intro as' hstep has y hy
      obtain ⟨hrest, n, hn, href⟩ := hids y hy
      refine ⟨List.mem_cons_of_mem a hrest, n, ?_, href⟩
      rw [← hstep.still y fun hin => hnd.1 (has y hin ▸ hrest), hn]
    rcases retargetNode_notes he with hstep | ⟨hstep, hfirst⟩
    · exact ⟨ids, hstep.trans hnotes, hlater hstep (by simp)⟩
    · refine ⟨a :: ids, hstep.trans hnotes, fun y hy => ?_⟩
      rcases List.mem_cons.mp hy with rfl | hy
      · exact ⟨List.mem_cons_self, hfirst⟩
      · exact hlater hstep (by simp) y hy

/-! ### Edits -/

theorem create_notes (h : Tree.Linked defs d.tree) {nodeType c : String}
    {parent : Option PatchParent} (hd : d.create defs nodeType parent c = .ok d') :
    ∃ ids, Notes d d' ids ∧ ∀ y ∈ ids, d'.tree.nodes.get? y ≠ d.tree.nodes.get? y := by
  cases parent with
  | none =>
    obtain ⟨schema, -, hempty, htree⟩ := (create_root_eq_ok_iff h).mp ⟨d', hd, rfl⟩
    have hroot : d.tree.root = none := by rw [hempty]
    unfold create at hd
    obtain ⟨schema', -, hd⟩ := Outcome.bind_eq_ok.mp hd
    have hnone : ∀ y, d.tree.nodes.get? y = none := h.root_eq_none_iff.mp hroot
    simp only [Tree.has_eq_false_iff.mpr (hnone c), hroot, Option.isSome_none, Bool.false_eq_true,
      if_false] at hd
    cases hd
    have hnotes : Notes d (({ d with tree := { d.tree.put c (.empty schema' c none) with
        root := some c } } : Draft).touchAll [c]) [c] := notes_touchAll rfl fun y hy => by
      rw [List.mem_singleton] at hy
      exact (Tree.get?_put _ _ _ _).trans (if_neg (Ne.symm hy))
    refine ⟨[c], hnotes, fun y hy => ?_⟩
    rw [htree, Tree.get?_alone, if_pos (List.mem_singleton.mp hy).symm, hnone]
    exact Option.some_ne_none _
  | some parent =>
    obtain ⟨schema, p, content, hs, hc, hp, hslot, ha, n, child, hmove⟩ := create_child_steps hd
    obtain ⟨e, he, hgrows⟩ := create_child_eq_ok h parent hs hc hp hslot ha
    rw [hd, Except.ok.injEq] at he
    subst he
    have hput : Notes d (((d.put parent.nodeId n).put c child).touchAll [parent.nodeId, c])
        [parent.nodeId, c] := notes_touchAll rfl fun y hy => by
      rw [List.mem_cons, List.mem_singleton, not_or] at hy
      rw [tree_put, tree_put, Tree.get?_put, Tree.get?_put, if_neg (Ne.symm hy.2),
        if_neg (Ne.symm hy.1)]
    refine ⟨_, hput.trans (notes_moveChildren hmove), fun y hy => hgrows.changes h ?_⟩
    rw [List.mem_append, List.mem_cons, List.mem_singleton, or_assoc] at hy
    rwa [h.ownId hp]

theorem delete_notes (h : Tree.Linked defs d.tree) (hd : d.delete x = .ok d') :
    ∃ ids, Notes d d' ids ∧ ∀ y ∈ ids, d'.tree.nodes.get? y ≠ d.tree.nodes.get? y := by
  obtain ⟨n, hn⟩ := (delete_eq_ok_iff h).mp ⟨d', hd⟩
  cases hlink : n.parent with
  | none =>
    rw [delete, Tree.node_eq_ok_iff.mpr hn, Outcome.ok_bind, hlink] at hd
    cases hd
    refine ⟨d.tree.keys, ⟨fun y => mem_touchAll d.tree.keys d, nodup_touchAll d.tree.keys,
      fun y hy => ?_⟩, fun y hy => ?_⟩
    · cases hm : d.tree.nodes.get? y with
      | none => rfl
      | some m => exact absurd (h.mem_keys_iff.mpr ⟨m, hm⟩) hy
    · obtain ⟨m, hm⟩ := h.mem_keys_iff.mp hy
      rw [hm]
      exact (Option.some_ne_none m).symm
  | some link =>
    obtain ⟨p, content, hp, hslot, hchild⟩ := h.up_slot hn hlink
    obtain ⟨e, hmove, hdel, -, hmem, -⟩ := delete_child_steps h hn hlink hp hslot hchild
    obtain ⟨e', he', hshrinks⟩ := delete_child_shrinks h hn hlink hp hslot hchild
    rw [hd, Except.ok.injEq] at hdel he'
    subst hdel he'
    refine ⟨_, ((notes_put d link.nodeId _).trans (notes_moveChildren hmove)).trans
      (notes_discard _ e), fun y hy => hshrinks.changes h ?_⟩
    rwa [List.mem_append, List.mem_append, List.mem_singleton, or_assoc, hmem, ← h.ownId hp] at hy

/-- Whatever is noted when a node is renamed comes under the new id, or has mentioned the old one. -/
theorem rename_notes_mentions (h : Tree.Valid defs d.tree) (hn : d.tree.nodes.get? old = some n)
    (hnew : d.tree.nodes.get? new = none) (hd : d.rename defs old new = .ok d') :
    ∃ ids, Notes d d' ids ∧
      ∀ y ∈ ids, y = new ∨ ∃ m, d.tree.nodes.get? y = some m ∧ m.Mentions old := by
  obtain ⟨d₂, hnotes, hrename, hr, hsome⟩ := rename_relinks h.linked hn hnew
  have hnode : d₂.tree.nodes.get? new = some (n.rehang (Equiv.swap old new) n.inputs) := by
    have := hsome old n hn
    rwa [Equiv.swap_apply_left] at this
  rw [hrename, retargetBelow] at hd
  obtain ⟨ids, hnotes', hids⟩ := foldlM_retargetNode_notes _
    ((hr.linked h.linked).nodup_breadthFirst hnode) hd
  refine ⟨_, hnotes.trans hnotes', fun y hy => ?_⟩
  simp only [List.mem_append, List.mem_cons, List.not_mem_nil, or_false] at hy
  rcases hy with (((rfl | rfl) | hy) | hy) | hy
  · -- the node itself, under its two ids
    exact .inr ⟨n, hn, .inl (h.linked.ownId hn)⟩
  · exact .inl rfl
  · -- its parent, which holds it
    obtain ⟨link, hlink, rfl⟩ := Option.map_eq_some_iff.mp (Option.mem_toList.mp hy)
    obtain ⟨p, hp, hc⟩ := h.linked.up hn hlink
    exact .inr ⟨p, hp, .inr (.inr (.inl ⟨_, _, hc⟩))⟩
  · -- its children, which hang on it
    obtain ⟨link, hl⟩ := Option.isSome_iff_exists.mp (SortedMap.mem_keys_iff.mp hy)
    obtain ⟨-, -, -, m, hm, hlink⟩ := moved_rename h.linked hn hl
    exact .inr ⟨m, hm, .inr (.inl ⟨_, hlink, rfl⟩)⟩
  · -- those below it whose bindings refer to it
    obtain ⟨-, m, hm, href⟩ := hids y hy
    obtain ⟨x, k, inputs, rfl, hk, rfl⟩ := hr.origin hm
    rw [hsome x k hk, Option.some.injEq] at hm
    by_cases hx : x = old
    · exact .inl (by rw [hx, Equiv.swap_apply_left])
    · rw [swap_eq_self hnew hx hk]
      exact .inr ⟨k, hk, .inr (.inr (.inr (by rw [← hm] at href; exact href)))⟩

theorem rename_notes (h : Tree.Valid defs d.tree) (hd : d.rename defs old new = .ok d') :
    ∃ ids, Notes d d' ids ∧ ∀ y ∈ ids, d'.tree.nodes.get? y ≠ d.tree.nodes.get? y := by
  obtain ⟨⟨n, hn⟩, hnew⟩ := (rename_eq_ok_iff h).mp ⟨d', hd⟩
  obtain ⟨ids, hnotes, hids⟩ := rename_notes_mentions h hn hnew hd
  obtain ⟨e, he, hrelabels⟩ := rename_eq_ok h hn hnew
  rw [hd, Except.ok.injEq] at he
  subst he
  have hgone : d'.tree.nodes.get? old = none := by
    have := hrelabels.nodes new
    rwa [Equiv.swap_apply_right, hnew] at this
  have hcome : d'.tree.nodes.get? new = some (n.relabel (Equiv.swap old new)) := by
    have := hrelabels.nodes old
    rwa [Equiv.swap_apply_left, hn] at this
  refine ⟨ids, hnotes, fun y hy => ?_⟩
  rcases hids y hy with rfl | ⟨m, hm, hmentions⟩
  · rw [hcome, hnew]
    exact Option.some_ne_none _
  · exact (hrelabels.valid h).changes_of_mentions hgone hm hmentions

theorem setInput_notes {inputName : String} {index : Option UInt32}
    {expression : Option Expression}
    (hd : d.setInput defs x inputName index expression = .ok d') : Notes d d' [x] := by
  unfold setInput at hd
  obtain ⟨n, -, hd⟩ := Outcome.bind_eq_ok.mp hd
  -- the rest, for an expression that has been checked
  have hrest : ∀ e, ((n.setInput e ⟨inputName, index.map UInt32.toNat⟩).mapError
      DocumentError.node >>= fun m => pure ((d.put x m).touch x)) = .ok d' → Notes d d' [x] := by
    intro e hd
    obtain ⟨m, -, hd⟩ := Outcome.bind_eq_ok.mp hd
    cases hd
    exact notes_put d x m
  cases expression with
  | none => exact hrest none hd
  | some expression =>
    obtain ⟨e, -, hd⟩ := Outcome.bind_eq_ok.mp hd
    exact hrest e hd

/-! ### Patches -/

/-- A patch notes all that it changes, and nothing else if it is not for a binding. -/
theorem apply_notes (h : Tree.Valid defs d.tree) {p : Patch} (hd : d.apply defs p = .ok d') :
    ∃ ids, Notes d d' ids ∧ ((∀ x name i e, p ≠ .setNodeInput x name i e) →
      ∀ y ∈ ids, d'.tree.nodes.get? y ≠ d.tree.nodes.get? y) := by
  cases p with
  | createNode nodeType parent nodeId =>
    obtain ⟨c, hc⟩ : ∃ c, d.create defs nodeType parent c = .ok d' := by
      cases nodeId with
      | some c => exact ⟨c, hd⟩
      | none =>
        obtain ⟨schema, -, hd⟩ := Outcome.bind_eq_ok.mp hd
        exact ⟨_, hd⟩
    obtain ⟨ids, hnotes, hids⟩ := create_notes h.linked hc
    exact ⟨ids, hnotes, fun _ => hids⟩
  | deleteNode nodeId =>
    obtain ⟨ids, hnotes, hids⟩ := delete_notes h.linked hd
    exact ⟨ids, hnotes, fun _ => hids⟩
  | renameNode nodeId newId =>
    obtain ⟨ids, hnotes, hids⟩ := rename_notes h hd
    exact ⟨ids, hnotes, fun _ => hids⟩
  | setNodeInput nodeId inputName index expression =>
    exact ⟨[nodeId], setInput_notes hd, fun hne => absurd rfl (hne _ _ _ _)⟩

/-- Patches note all that they change. -/
theorem foldlM_apply_notes (ps : List Patch) : ∀ {d d' : Draft}, Tree.Valid defs d.tree →
    ps.foldlM (fun d p => d.apply defs p) d = .ok d' → ∃ ids, Notes d d' ids := by
  induction ps with
  | nil =>
    intro d d' _ hd
    cases hd
    exact ⟨[], Notes.refl d⟩
  | cons p rest ih =>
    intro d d' h hd
    rw [List.foldlM_cons] at hd
    obtain ⟨e, he, hd⟩ := Outcome.bind_eq_ok.mp hd
    obtain ⟨ids, hnotes, -⟩ := apply_notes h he
    obtain ⟨ids', hnotes'⟩ := ih (apply_valid h he) hd
    exact ⟨ids ++ ids', hnotes.trans hnotes'⟩

end Draft

end SlotTree
