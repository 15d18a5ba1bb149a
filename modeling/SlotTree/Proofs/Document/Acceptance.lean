import SlotTree.Proofs.Document.Runs
import SlotTree.Proofs.Undo.Inverses

/-!
# Acceptance of patches

A document accepts exactly the patches that its tree takes.  The conditions of `Tree.Takes` are all
there are: in a valid tree no look-up on the way fails, no binding fails its check again when a node
is renamed, and the patches that take the edit back are always found.

## Main results

* `Document.exists_apply_eq_ok_iff` — documents with a valid tree accept what the tree takes.
* `Document.accepts_run_iff` — so do documents in every run.
-/

namespace SlotTree.Document

variable {doc : Document} {now : Instant} {p : Patch}

/-- With its id, a patch is taken exactly if it was taken without. -/
theorem assignId_takes (htakes : doc.tree.Takes doc.definitions p) :
    ∃ q, doc.assignId p = .ok q ∧ doc.tree.Takes doc.definitions q := by
  cases p with
  | createNode nodeType parent nodeId =>
    cases nodeId with
    | some c => exact ⟨_, rfl, htakes⟩
    | none =>
      obtain ⟨⟨schema, hs⟩, -, hplace⟩ := htakes
      refine ⟨.createNode nodeType parent (some (doc.tree.freshId schema.idStem)), ?_,
        ⟨schema, hs⟩, ?_, hplace⟩
      · rw [assignId, hs]
        rfl
      · rintro _ ⟨⟩
        exact doc.tree.get?_freshId schema.idStem
  | deleteNode _ | renameNode _ _ | setNodeInput _ _ _ _ => exact ⟨_, rfl, htakes⟩

/-- A patch is accepted exactly if the tree takes it. -/
theorem exists_apply_eq_ok_iff (h : Tree.Valid doc.definitions doc.tree) :
    (∃ r, doc.apply now p = .ok r) ↔ doc.tree.Takes doc.definitions p := by
  constructor
  · rintro ⟨r, hr⟩
    obtain ⟨q, inverses, d, hq, -, hd, -⟩ := apply_eq_ok_iff.mp hr
    have htakes := (Draft.apply_eq_ok_iff (d := { tree := doc.tree }) h).mp ⟨d, hd⟩
    rcases assignId_eq_ok hq with ⟨-, rfl⟩ | ⟨nodeType, parent, schema, rfl, hs, rfl⟩
    · exact htakes
    · exact ⟨⟨schema, hs⟩, fun _ heq => (by cases heq), htakes.2.2⟩
  · intro htakes
    obtain ⟨q, hq, htakes⟩ := assignId_takes htakes
    obtain ⟨inverses, hinv⟩ := Tree.inverses_eq_ok h.linked htakes doc.log.config.recordFirstBinding
    obtain ⟨d, hd⟩ := (Draft.apply_eq_ok_iff (d := { tree := doc.tree }) h).mpr htakes
    exact ⟨_, apply_eq_ok_iff.mpr ⟨q, inverses, d, hq, hinv, hd, rfl⟩⟩

/-- In every run, at any time, a patch is accepted exactly if the tree takes it. -/
theorem accepts_run_iff (name : String) (defs : Definitions) (config : DocumentConfig)
    (calls : List Call) (now : Instant) (p : Patch) :
    (∃ r, ((Document.new name defs config).run calls).apply now p = .ok r) ↔
      ((Document.new name defs config).run calls).tree.Takes defs p := by
  have hdefs : ((Document.new name defs config).run calls).definitions = defs :=
    definitions_run calls _
  have hvalid : Tree.Valid ((Document.new name defs config).run calls).definitions
      ((Document.new name defs config).run calls).tree := by
    rw [hdefs]
    exact valid_run name defs config calls
  rw [exists_apply_eq_ok_iff hvalid, hdefs]

end SlotTree.Document
