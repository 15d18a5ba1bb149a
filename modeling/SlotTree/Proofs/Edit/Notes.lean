import SlotTree.Proofs.Edit.Moving

/-!
# What an edit notes

An edit notes the ids of the nodes that it changes, each once.  Along its steps the notes add up,
and under an id that none of the steps has noted the tree is as it was.

## Main definitions

* `Draft.Notes` — the ids that were noted between two drafts.

## Main results

* `Draft.Notes.trans`, `Draft.Notes.foldlM` — the notes of steps one after the other.
* `Draft.notes_moveChildren`, `Draft.notes_discard` — the notes of the loops of an edit.
-/

namespace SlotTree.Draft

variable {d d' d'' : Draft} {ids ids' : List String}

/-- Between two drafts, exactly some ids were noted, and nothing has changed under any other. -/
structure Notes (d d' : Draft) (ids : List String) : Prop where
  /-- What is noted was noted before, or is one of the ids. -/
  mem : ∀ y, y ∈ d'.changed ↔ y ∈ d.changed ∨ y ∈ ids
  /-- No id is noted twice. -/
  nodup : d.changed.Nodup → d'.changed.Nodup
  /-- Under all other ids the tree is as it was. -/
  still : ∀ y, y ∉ ids → d'.tree.nodes.get? y = d.tree.nodes.get? y

/-! ### Notes -/

theorem mem_touch {id y : String} : y ∈ (d.touch id).changed ↔ y ∈ d.changed ∨ y = id := by
  rw [touch]
  split
  · next h =>
    constructor
    · exact .inl
    · rintro (hy | rfl)
      · exact hy
      · exact h
  · simp

theorem nodup_touch {id : String} (h : d.changed.Nodup) : (d.touch id).changed.Nodup := by
  rw [touch]
  split
  · exact h
  · next hid =>
    rw [List.nodup_append]
    refine ⟨h, List.nodup_singleton id, fun a ha b hb => ?_⟩
    rw [List.mem_singleton] at hb
    rintro rfl
    exact hid (hb ▸ ha)

@[simp] theorem tree_touchAll (ids : List String) : ∀ d : Draft,
    (d.touchAll ids).tree = d.tree := by
  induction ids with
  | nil => exact fun _ => rfl
  | cons id rest ih => exact fun d => (ih (d.touch id)).trans (tree_touch d id)

theorem mem_touchAll {y : String} (ids : List String) : ∀ d : Draft,
    y ∈ (d.touchAll ids).changed ↔ y ∈ d.changed ∨ y ∈ ids := by
  induction ids with
  | nil => exact fun _ => by simp [touchAll]
  | cons id rest ih =>
    intro d
    rw [touchAll, List.foldl_cons, ← touchAll, ih, mem_touch, List.mem_cons, or_assoc]

theorem nodup_touchAll (ids : List String) : ∀ {d : Draft}, d.changed.Nodup →
    (d.touchAll ids).changed.Nodup := by
  induction ids with
  | nil => exact fun h => h
  | cons id rest ih => exact fun h => ih (nodup_touch h)

/-! ### Steps -/

namespace Notes

theorem refl (d : Draft) : Notes d d [] where
  mem := by simp
  nodup h := h
  still _ _ := rfl

theorem trans (h : Notes d d' ids) (h' : Notes d' d'' ids') : Notes d d'' (ids ++ ids') where
  mem y := by rw [h'.mem, h.mem, List.mem_append, or_assoc]
  nodup hd := h'.nodup (h.nodup hd)
  still y hy := by
    rw [List.mem_append, not_or] at hy
    rw [h'.still y hy.2, h.still y hy.1]

/-- The steps of a loop. -/
theorem foldlM {α : Type} {f : Draft → α → Except DocumentError Draft} {ids : α → List String}
    (hf : ∀ d a d', f d a = .ok d' → Notes d d' (ids a)) (as : List α) : ∀ {d d' : Draft},
      as.foldlM f d = .ok d' → Notes d d' (as.flatMap ids) := by
  induction as with
  | nil =>
    intro d d' h
    cases h
    exact refl d
  | cons a rest ih =>
    intro d d' h
    rw [List.foldlM_cons] at h
    obtain ⟨e, he, h⟩ := Outcome.bind_eq_ok.mp h
    exact (hf d a e he).trans (ih h)

end Notes

/-- What has changed is noted. -/
theorem notes_touchAll (hchanged : d'.changed = d.changed)
    (hstill : ∀ y, y ∉ ids → d'.tree.nodes.get? y = d.tree.nodes.get? y) :
    Notes d (d'.touchAll ids) ids where
  mem y := by rw [mem_touchAll, hchanged]
  nodup h := nodup_touchAll ids (hchanged ▸ h)
  still y hy := by rw [tree_touchAll, hstill y hy]

/-- A node is put under an id, and noted. -/
theorem notes_put (d : Draft) (id : String) (n : Node) :
    Notes d ((d.put id n).touch id) [id] := by
  have hnotes : Notes d ((d.put id n).touchAll [id]) [id] := notes_touchAll rfl fun y hy => by
    rw [List.mem_singleton] at hy
    rw [tree_put, Tree.get?_put, if_neg (Ne.symm hy)]
  exact hnotes

/-- The children that move are noted. -/
theorem notes_moveChildren {moved : MovedChildren} (h : d.moveChildren moved = .ok d') :
    Notes d d' moved.keys := by
  have hstep : ∀ (d : Draft) (e : String × ParentLink) (d' : Draft), moveChild d e = .ok d' →
      Notes d d' [e.1] := by
    intro d e d' h
    obtain ⟨n, -, h⟩ := Outcome.bind_eq_ok.mp h
    cases h
    exact notes_put d e.1 _
  have hnotes := Notes.foldlM hstep moved.entries h
  rwa [← List.map_eq_flatMap] at hnotes

/-- The nodes that are taken away are noted. -/
theorem notes_discard (ids : List String) : ∀ d : Draft, Notes d (ids.foldl discard d) ids := by
  induction ids with
  | nil => exact Notes.refl
  | cons id rest ih =>
    intro d
    have hstep : Notes d ((d.drop id).touchAll [id]) [id] := notes_touchAll rfl fun y hy => by
      rw [List.mem_singleton] at hy
      rw [tree_drop, Tree.get?_drop, if_neg (Ne.symm hy)]
    exact hstep.trans (ih (d.discard id))

end SlotTree.Draft
