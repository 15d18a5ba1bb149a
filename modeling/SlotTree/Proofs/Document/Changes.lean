import SlotTree.Proofs.Document.Runs
import SlotTree.Proofs.Edit.Changes

/-!
# Changes that are told

With every change a document tells which nodes have changed.  It forgets none and names none twice,
so whoever looks at these nodes again has seen everything.  Nodes are named in vain only where an
input is bound to what it was bound to, and where an undo takes its own steps back.

## Main definitions

* `Commit.Covers` — a change that tells of all nodes that have changed.

## Main results

* `Document.covers_apply`, `Document.covers_undo` — what accepted patches and undos tell.
* `Document.mem_changed_iff` — all but bindings name nothing in vain.
* `Document.changed_run` — what is told in a run.
-/

namespace SlotTree

/-- A change from one tree to another names every node that has changed, and none twice. -/
structure Commit.Covers (c : Commit) (t t' : Tree) : Prop where
  /-- No node is named twice. -/
  nodup : c.changed.Nodup
  /-- Every node that has come, gone or changed is named. -/
  complete : ∀ y, t'.nodes.get? y ≠ t.nodes.get? y → y ∈ c.changed

/-- What an edit notes from the start covers all that it changes. -/
theorem Draft.Notes.covers {t : Tree} {d : Draft} {ids : List String}
    (h : Draft.Notes { tree := t } d ids) {c : Commit} (hc : c.changed = d.changed) :
    c.Covers t d.tree where
  nodup := hc ▸ h.nodup List.nodup_nil
  complete := by
    intro y hy
    rw [hc, h.mem]
    exact .inr (Classical.not_not.mp fun hnot => hy (h.still y hnot))

namespace Document

variable {doc : Document} {now : Instant} {p : Patch} {r : Document × Commit}

/-- With its id, a patch binds an input exactly if it did without. -/
theorem not_setNodeInput_of_assignId {q : Patch} (hq : doc.assignId p = .ok q)
    (hp : ∀ x name i e, p ≠ .setNodeInput x name i e) :
    ∀ x name i e, q ≠ .setNodeInput x name i e := by
  rcases assignId_eq_ok hq with ⟨-, rfl⟩ | ⟨_, _, _, -, -, rfl⟩
  · exact hp
  · exact fun _ _ _ _ heq => (by cases heq)

/-- An accepted patch covers all that it changes. -/
theorem covers_apply (h : Tree.Valid doc.definitions doc.tree) (hr : doc.apply now p = .ok r) :
    r.2.Covers doc.tree r.1.tree := by
  obtain ⟨q, inverses, d, -, -, hd, rfl⟩ := apply_eq_ok_iff.mp hr
  obtain ⟨ids, hnotes, -⟩ := Draft.apply_notes (d := { tree := doc.tree }) h hd
  exact hnotes.covers rfl

/-- A patch that is not for a binding changes all nodes that it names. -/
theorem mem_changed_iff (h : Tree.Valid doc.definitions doc.tree)
    (hp : ∀ x name i e, p ≠ .setNodeInput x name i e) (hr : doc.apply now p = .ok r) (y : String) :
    y ∈ r.2.changed ↔ r.1.tree.nodes.get? y ≠ doc.tree.nodes.get? y := by
  refine ⟨?_, (covers_apply h hr).complete y⟩
  obtain ⟨q, inverses, d, hq, -, hd, rfl⟩ := apply_eq_ok_iff.mp hr
  obtain ⟨ids, hnotes, hids⟩ := Draft.apply_notes (d := { tree := doc.tree }) h hd
  intro hy
  rcases (hnotes.mem y).mp hy with hy | hy
  · cases hy
  · exact hids (not_setNodeInput_of_assignId hq hp) y hy

/-- An undo covers all that it changes. -/
theorem covers_undo (h : Tree.Valid doc.definitions doc.tree) (hr : doc.undo = .ok (some r)) :
    r.2.Covers doc.tree r.1.tree := by
  obtain ⟨group, log, d, -, hd, rfl⟩ := undo_eq_ok_some_iff.mp hr
  obtain ⟨ids, hnotes⟩ := Draft.foldlM_apply_notes _ (d := { tree := doc.tree }) h hd
  exact hnotes.covers rfl

/-! ### Runs -/

/-- In every run, accepted patches and undos cover all that they change, and patches that create,
delete or rename nodes name exactly the nodes that they change. -/
theorem changed_run (name : String) (defs : Definitions) (config : DocumentConfig)
    (calls : List Call) :
    let doc := (Document.new name defs config).run calls
    (∀ now p r, doc.apply now p = .ok r → r.2.Covers doc.tree r.1.tree ∧
      ((∀ x name i e, p ≠ .setNodeInput x name i e) →
        ∀ y, y ∈ r.2.changed ↔ r.1.tree.nodes.get? y ≠ doc.tree.nodes.get? y)) ∧
    ∀ r, doc.undo = .ok (some r) → r.2.Covers doc.tree r.1.tree := by
  intro doc
  have hvalid : Tree.Valid doc.definitions doc.tree := by
    rw [show doc.definitions = defs from definitions_run calls _]
    exact valid_run name defs config calls
  exact ⟨fun now p r hr => ⟨covers_apply hvalid hr, fun hp => mem_changed_iff hvalid hp hr⟩,
    fun r hr => covers_undo hvalid hr⟩

/-- One type of nodes: shelves, each with a label, a tone that all below it see, and shelves in it
that have a tag each. -/
def shelfDefinitions : Definitions where
  nodes := [⟨((({ name := "Shelf" : Declaration }.withInput "label" .string).withOutput "tone"
    .string).withCollectionSlot "items" [("tag", .string)]), by decide⟩]

/-- A shelf with two others in it; the second has the tone of the first as its label. -/
def shelfCalls : List Call :=
  [.apply 0 (.createNode "Shelf" none (some "top")),
    .apply 0 (.createNode "Shelf" (some ⟨"top", "items", none⟩) (some "left")),
    .apply 0 (.createNode "Shelf" (some ⟨"top", "items", none⟩) (some "right")),
    .apply 0 (.setNodeInput "right" "label" none (some (.output "top" "tone" [])))]

/-- Deleting the one that comes first changes the two others, and undoing the label changes the one
that has it. -/
theorem changed_run_shelfCalls :
    let doc := (Document.new "shelves" shelfDefinitions).run shelfCalls
    ∃ r r', doc.apply 0 (.deleteNode "left") = .ok r ∧ doc.undo = .ok (some r') ∧
      r.2.changed = ["top", "right", "left"] ∧ r'.2.changed = ["right"] ∧
      (∀ y, y ∈ r.2.changed ↔ r.1.tree.nodes.get? y ≠ doc.tree.nodes.get? y) ∧
      r'.2.Covers doc.tree r'.1.tree := by
  intro doc
  obtain ⟨happly, hundo⟩ := changed_run "shelves" shelfDefinitions {} shelfCalls
  obtain ⟨r, hr, hchanged⟩ : ∃ r, doc.apply 0 (.deleteNode "left") = .ok r ∧
      r.2.changed = ["top", "right", "left"] := by decide +kernel
  obtain ⟨o, ho, hsome⟩ : ∃ o, doc.undo = .ok o ∧ o.map (fun r => r.2.changed) = some ["right"] := by
    decide +kernel
  obtain ⟨r', rfl, hchanged'⟩ := Option.map_eq_some_iff.mp hsome
  exact ⟨r, r', hr, ho, hchanged, hchanged', (happly _ _ r hr).2 fun _ _ _ _ heq => (by cases heq),
    hundo r' ho⟩

end Document

end SlotTree
