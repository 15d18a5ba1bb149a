import SlotTree.Proofs.Edit.Patches
import SlotTree.Proofs.Tree.Views

/-!
# Edits seen through a view

Trees that look alike take the same patches, and still look alike afterwards.  Seen through the view
that shows everything, this says that what an edit makes of a tree does not depend on what has been
noted before; seen without bindings, that no binding decides what becomes of the nodes.

## Main results

* `Tree.Grows.resembles`, `Tree.Shrinks.resembles`, `Tree.Relabels.resembles` — what creating,
  deleting and renaming make of trees that look alike.
* `Draft.apply_resembles`, `Draft.foldlM_apply_resembles` — patches on trees that look alike.
-/

namespace SlotTree

namespace Tree

variable {β : Type} {view : Node → β} {defs : Definitions} {t t' u u' : Tree} {p q : Node}
  {slotName c x : String} {content : SlotContent} {index k : Option Nat} {schema : NodeSchema}

/-- The nodes that are not concerned still look alike when the children that move have been given
their places. -/
theorem Resembles.settle (h : Resembles view t u) (hv : Node.IsView view) {y : String}
    {link : Option ParentLink}
    (ht : t'.nodes.get? y = (t.nodes.get? y).map fun n => n.settle link)
    (hu : u'.nodes.get? y = (u.nodes.get? y).map fun n => n.settle link) :
    (u'.nodes.get? y).map view = (t'.nodes.get? y).map view := by
  rw [ht, hu]
  cases hn : t.nodes.get? y with
  | none => rw [h.get?_eq_none hn]
  | some n =>
    obtain ⟨m, hm, hmn⟩ := h.get?_eq_some hn
    rw [hm, Option.map_some, Option.map_some, Option.map_some, Option.map_some, hv.settle hmn]

/-- The nodes below a node are the same. -/
theorem Resembles.below (h : Resembles view t u) (hv : Node.IsView view) {y : String} :
    t.Below x y ↔ u.Below x y :=
  ⟨(h.rehung hv).below, (h.symm.rehung hv).below⟩

theorem Grows.resembles (hv : Node.IsView view) (h : Resembles view t u)
    (hg : Grows defs t t' schema p slotName content index c)
    (hg' : Grows defs u u' schema q slotName content index c) (hpq : view q = view p) :
    Resembles view t' u' := by
  have hid : q.id = p.id := hv.id hpq
  refine .of_get? (by rw [hg'.root, hg.root, h.root]) fun y => ?_
  by_cases hyc : y = c
  · rw [hyc, hg'.child, hg.child, hid]
  · by_cases hyp : y = p.id
    · rw [hyp, hg.after, ← hid, hg'.after, Option.map_some, Option.map_some, hv.attach hpq]
    · refine h.settle hv (hg.others y hyc hyp) ?_
      rw [hg'.others y hyc (hid.symm ▸ hyp), Node.movedLinks_congr hid]

theorem Shrinks.resembles (hv : Node.IsView view) (h : Resembles view t u)
    (hg : Shrinks t t' x p slotName content k) (hg' : Shrinks u u' x q slotName content k)
    (hpq : view q = view p) : Resembles view t' u' := by
  have hid : q.id = p.id := hv.id hpq
  refine .of_get? (by rw [hg'.root, hg.root, h.root]) fun y => ?_
  by_cases hb : t.Below x y
  · rw [hg.gone y hb, hg'.gone y ((h.below hv).mp hb)]
  · by_cases hyp : y = p.id
    · rw [hyp, hg.after, ← hid, hg'.after, Option.map_some, Option.map_some, hv.detach hpq]
    · refine h.settle hv (hg.others y hb hyp) ?_
      rw [hg'.others y (fun hb' => hb ((h.below hv).mpr hb')) (hid.symm ▸ hyp),
        Node.movedLinks_congr hid]

theorem Relabels.resembles {f : Equiv.Perm String} (hv : Node.IsView view)
    (h : Resembles view t u) (hr : Relabels f t t') (hr' : Relabels f u u') :
    Resembles view t' u' := by
  refine .of_get? (by rw [hr'.root, hr.root, h.root]) fun y => ?_
  obtain ⟨x, rfl⟩ := f.surjective y
  rw [hr.nodes, hr'.nodes]
  cases hn : t.nodes.get? x with
  | none => rw [h.get?_eq_none hn]
  | some n =>
    obtain ⟨m, hm, hmn⟩ := h.get?_eq_some hn
    rw [hm, Option.map_some, Option.map_some, Option.map_some, Option.map_some, hv.relabel hmn]

end Tree

/-! ### Edits -/

namespace Draft

variable {β : Type} {view : Node → β} {defs : Definitions} {d d' e : Draft} {x old new : String}

theorem create_resembles (hv : Node.IsView view) (hd : Tree.Linked defs d.tree)
    (he : Tree.Linked defs e.tree) (h : Tree.Resembles view d.tree e.tree) {nodeType c : String}
    {parent : Option PatchParent} (hok : d.create defs nodeType parent c = .ok d') :
    ∃ e', e.create defs nodeType parent c = .ok e' ∧ Tree.Resembles view d'.tree e'.tree := by
  cases parent with
  | none =>
    obtain ⟨schema, hs, hempty, htree⟩ := (create_root_eq_ok_iff hd).mp ⟨d', hok, rfl⟩
    have hroot : e.tree.root = none := by rw [h.root, hempty]
    obtain ⟨e', he', htree'⟩ := (create_root_eq_ok_iff he (c := c)).mpr
      ⟨schema, hs, he.eq_empty hroot, rfl⟩
    refine ⟨e', he', ?_⟩
    rw [htree, htree']
    exact .refl view _
  | some parent =>
    obtain ⟨schema, p, content, hs, hc, hp, hslot, ha⟩ := create_child_inv hok
    obtain ⟨d'', hd'', hgrows⟩ := create_child_eq_ok hd parent hs hc hp hslot ha
    rw [hok, Except.ok.injEq] at hd''
    subst hd''
    obtain ⟨q, hq, hpq⟩ := h.get?_eq_some hp
    obtain ⟨e', he', hgrows'⟩ := create_child_eq_ok he parent hs (h.get?_eq_none hc) hq
      ((congrArg (fun slots => slots.get? parent.slotName) (hv.slots hpq)).trans hslot) ha
    exact ⟨e', he', hgrows.resembles hv h hgrows' hpq⟩

theorem delete_resembles (hv : Node.IsView view) (hd : Tree.Linked defs d.tree)
    (he : Tree.Linked defs e.tree) (h : Tree.Resembles view d.tree e.tree)
    (hok : d.delete x = .ok d') :
    ∃ e', e.delete x = .ok e' ∧ Tree.Resembles view d'.tree e'.tree := by
  obtain ⟨n, hn⟩ := (delete_eq_ok_iff hd).mp ⟨d', hok⟩
  obtain ⟨m, hm, hmn⟩ := h.get?_eq_some hn
  cases hlink : n.parent with
  | none =>
    obtain ⟨d'', hd'', htree⟩ := delete_root_eq_ok hn hlink
    rw [hok, Except.ok.injEq] at hd''
    obtain ⟨e', he', htree'⟩ := delete_root_eq_ok hm ((hv.parent hmn).trans hlink)
    refine ⟨e', he', ?_⟩
    rw [hd'', htree, htree']
    exact .refl view _
  | some link =>
    obtain ⟨p, content, hp, hslot, hchild⟩ := hd.up_slot hn hlink
    obtain ⟨d'', hd'', hshrinks⟩ := delete_child_shrinks hd hn hlink hp hslot hchild
    rw [hok, Except.ok.injEq] at hd''
    subst hd''
    obtain ⟨q, hq, hpq⟩ := h.get?_eq_some hp
    obtain ⟨e', he', hshrinks'⟩ := delete_child_shrinks he hm ((hv.parent hmn).trans hlink) hq
      ((congrArg (fun slots => slots.get? link.slotName) (hv.slots hpq)).trans hslot) hchild
    exact ⟨e', he', hshrinks.resembles hv h hshrinks' hpq⟩

theorem rename_resembles (hv : Node.IsView view) (hd : Tree.Valid defs d.tree)
    (he : Tree.Valid defs e.tree) (h : Tree.Resembles view d.tree e.tree)
    (hok : d.rename defs old new = .ok d') :
    ∃ e', e.rename defs old new = .ok e' ∧ Tree.Resembles view d'.tree e'.tree := by
  obtain ⟨⟨n, hn⟩, hnew⟩ := (rename_eq_ok_iff hd).mp ⟨d', hok⟩
  obtain ⟨m, hm, -⟩ := h.get?_eq_some hn
  obtain ⟨d'', hd'', hrelabels⟩ := rename_eq_ok hd hn hnew
  rw [hok, Except.ok.injEq] at hd''
  subst hd''
  obtain ⟨e', he', hrelabels'⟩ := rename_eq_ok he hm (h.get?_eq_none hnew)
  exact ⟨e', he', hrelabels.resembles hv h hrelabels'⟩

theorem setInput_resembles (hv : Node.IsView view) (hd : Tree.Linked defs d.tree)
    (he : Tree.Linked defs e.tree) (h : Tree.Resembles view d.tree e.tree) {inputName : String}
    {index : Option UInt32} {expression : Option Expression}
    (hok : d.setInput defs x inputName index expression = .ok d') :
    ∃ e', e.setInput defs x inputName index expression = .ok e' ∧
      Tree.Resembles view d'.tree e'.tree := by
  obtain ⟨n, te, hn, ha, haccepts, htree⟩ := (setInput_eq_ok_iff hd).mp ⟨d', hok, rfl⟩
  obtain ⟨m, hm, hmn⟩ := h.get?_eq_some hn
  -- no binding decides whether an expression passes its check
  obtain ⟨e', he', htree'⟩ := (setInput_eq_ok_iff he).mpr ⟨m, te, hm,
    (Node.declares_congr (hv.schema hmn) (hv.slots hmn)).mpr ha,
    haccepts.rehung (h.rehung hv) hd hn (he.ownId hm) (hv.schema hmn), rfl⟩
  refine ⟨e', he', ?_⟩
  rw [htree, htree']
  exact h.put (hv.bind hmn _ te) x

/-! ### Patches -/

/-- Trees that look alike take the same patches, and still look alike afterwards. -/
theorem apply_resembles (hv : Node.IsView view) (hd : Tree.Valid defs d.tree)
    (he : Tree.Valid defs e.tree) (h : Tree.Resembles view d.tree e.tree) {p : Patch}
    (hok : d.apply defs p = .ok d') :
    ∃ e', e.apply defs p = .ok e' ∧ Tree.Resembles view d'.tree e'.tree := by
  cases p with
  | createNode nodeType parent nodeId =>
    cases nodeId with
    | some c => exact create_resembles hv hd.linked he.linked h hok
    | none =>
      obtain ⟨schema, hs, hok⟩ := Outcome.bind_eq_ok.mp hok
      obtain ⟨e', he', htrees⟩ := create_resembles hv hd.linked he.linked h hok
      refine ⟨e', ?_, htrees⟩
      rw [apply, hs, Outcome.ok_bind, h.freshId]
      exact he'
  | deleteNode nodeId => exact delete_resembles hv hd.linked he.linked h hok
  | renameNode nodeId newId => exact rename_resembles hv hd he h hok
  | setNodeInput nodeId inputName index expression =>
    exact setInput_resembles hv hd.linked he.linked h hok

/-- The same goes for several patches, one after the other. -/
theorem foldlM_apply_resembles (hv : Node.IsView view) (ps : List Patch) : ∀ {d d' e : Draft},
    Tree.Valid defs d.tree → Tree.Valid defs e.tree → Tree.Resembles view d.tree e.tree →
      ps.foldlM (fun d p => d.apply defs p) d = .ok d' →
        ∃ e', ps.foldlM (fun d p => d.apply defs p) e = .ok e' ∧
          Tree.Resembles view d'.tree e'.tree := by
  induction ps with
  | nil =>
    intro d d' e _ _ h hok
    cases hok
    exact ⟨e, rfl, h⟩
  | cons p rest ih =>
    intro d d' e hd he h hok
    rw [List.foldlM_cons] at hok
    obtain ⟨d₁, hd₁, hok⟩ := Outcome.bind_eq_ok.mp hok
    obtain ⟨e₁, he₁, h₁⟩ := apply_resembles hv hd he h hd₁
    obtain ⟨e', he', h'⟩ := ih (apply_valid hd hd₁) (apply_valid he he₁) h₁ hok
    exact ⟨e', by rw [List.foldlM_cons, he₁, Outcome.ok_bind]; exact he', h'⟩

end Draft

end SlotTree
