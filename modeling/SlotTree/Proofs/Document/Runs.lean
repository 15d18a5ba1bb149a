import SlotTree.Document.Basic
import SlotTree.Proofs.Edit.Patches

/-!
# Runs of a document

A run is a sequence of calls: patches that are applied at some time, and undos.  A call that fails
leaves the document as it is.  Whatever is called, the tree of the document stays valid.

## Main definitions

* `Document.Call`, `Document.after`, `Document.run` — calls, and what becomes of a document.

## Main results

* `Document.apply_eq_ok_iff`, `Document.undo_eq_ok_some_iff` — the steps of a call that succeeds.
* `Document.valid_run` — in every run the tree is valid.
-/

namespace SlotTree.Document

/-- A call on a document. -/
inductive Call where
  /-- Apply a patch at some time. -/
  | apply (now : Instant) (p : Patch) : Call
  /-- Undo. -/
  | undo : Call

/-- The document after a call; one that fails, or has nothing to undo, leaves it as it is. -/
def after (doc : Document) : Call → Document
  | .apply now p =>
    match doc.apply now p with
    | .ok (doc, _) => doc
    | .error _ => doc
  | .undo =>
    match doc.undo with
    | .ok (some (doc, _)) => doc
    | _ => doc

/-- The document after some calls. -/
def run (doc : Document) (calls : List Call) : Document := calls.foldl after doc

variable {doc doc' : Document} {now : Instant} {p : Patch}

/-! ### Calls -/

/-- A patch that gives a new node its id is the patch with an id. -/
theorem assignId_eq_ok {q : Patch} (h : doc.assignId p = .ok q) :
    ((∀ nodeType parent, p ≠ .createNode nodeType parent none) ∧ q = p) ∨
      ∃ nodeType parent schema, p = .createNode nodeType parent none ∧
        doc.definitions.node nodeType = .ok schema ∧
          q = .createNode nodeType parent (some (doc.tree.freshId schema.idStem)) := by
  cases p with
  | createNode nodeType parent nodeId =>
    cases nodeId with
    | some c =>
      cases h
      exact .inl ⟨fun _ _ heq => (by cases heq), rfl⟩
    | none =>
      obtain ⟨schema, hs, h⟩ := Outcome.bind_eq_ok.mp h
      cases h
      exact .inr ⟨nodeType, parent, schema, rfl, Outcome.mapError_eq_ok.mp hs, rfl⟩
  | deleteNode _ | renameNode _ _ | setNodeInput _ _ _ _ =>
    cases h
    exact .inl ⟨fun _ _ heq => (by cases heq), rfl⟩

/-- With an id there is one for every new node. -/
theorem id_of_assignId {q : Patch} (h : doc.assignId p = .ok q) (nodeType : String)
    (parent : Option PatchParent) : q ≠ .createNode nodeType parent none := by
  rcases assignId_eq_ok h with ⟨hne, rfl⟩ | ⟨_, _, _, -, -, rfl⟩
  · exact hne nodeType parent
  · exact fun heq => (by cases heq)

/-- What the steps of an accepted patch give. -/
theorem apply_eq_ok_iff {r : Document × Commit} :
    doc.apply now p = .ok r ↔ ∃ q inverses d, doc.assignId p = .ok q ∧
      doc.tree.inverses doc.log.config.recordFirstBinding q = .ok inverses ∧
      Draft.apply { tree := doc.tree } doc.definitions q = .ok d ∧
      r = ({ doc with
        tree := d.tree, version := doc.version + 1, log := doc.record q inverses now },
        { version := doc.version + 1, changed := d.changed, patches := [q] }) := by
  rw [apply]
  simp only [Outcome.bind_eq_ok, Outcome.pure_eq_ok, Except.ok.injEq]
  constructor
  · rintro ⟨q, hq, inverses, hinv, d, hd, rfl⟩
    exact ⟨q, inverses, d, hq, hinv, hd, rfl⟩
  · rintro ⟨q, inverses, d, hq, hinv, hd, rfl⟩
    exact ⟨q, hq, inverses, hinv, d, hd, rfl⟩

/-- What the steps of an undo give. -/
theorem undo_eq_ok_some_iff {r : Document × Commit} :
    doc.undo = .ok (some r) ↔ ∃ group log d, doc.log.pop? = some (group, log) ∧
      (group.map UndoEntry.patch).foldlM (fun d p => d.apply doc.definitions p)
        ({ tree := doc.tree } : Draft) = .ok d ∧
      r = ({ doc with tree := d.tree, version := doc.version + 1, log },
        { version := doc.version + 1, changed := d.changed,
          patches := group.map UndoEntry.patch }) := by
  rw [undo]
  cases hpop : doc.log.pop? with
  | none => simp
  | some popped =>
    obtain ⟨group, log⟩ := popped
    simp only [Outcome.bind_eq_ok, Outcome.pure_eq_ok, Except.ok.injEq, Option.some.injEq]
    constructor
    · rintro ⟨d, hd, rfl⟩
      exact ⟨group, log, d, rfl, hd, rfl⟩
    · rintro ⟨group', log', d, heq, hd, rfl⟩
      cases heq
      exact ⟨d, hd, rfl⟩

/-! ### One call -/

/-- What a call can do: nothing, apply a patch, or undo. -/
theorem after_cases (doc : Document) (c : Call) :
    doc.after c = doc ∨
    (∃ now p r, c = .apply now p ∧ doc.apply now p = .ok r ∧ doc.after c = r.1) ∨
    ∃ r, c = .undo ∧ doc.undo = .ok (some r) ∧ doc.after c = r.1 := by
  cases c with
  | apply now p =>
    cases h : doc.apply now p with
    | error e => exact .inl (by rw [after, h])
    | ok r => exact .inr (.inl ⟨now, p, r, rfl, h, by rw [after, h]⟩)
  | undo =>
    cases h : doc.undo with
    | error e => exact .inl (by rw [after, h])
    | ok r =>
      cases r with
      | none => exact .inl (by rw [after, h])
      | some r => exact .inr (.inr ⟨r, rfl, rfl, by rw [after, h]⟩)

/-- No call changes the definitions. -/
theorem definitions_after (doc : Document) (c : Call) :
    (doc.after c).definitions = doc.definitions := by
  rcases doc.after_cases c with h | ⟨now, p, r, -, hr, h⟩ | ⟨r, -, hr, h⟩
  · rw [h]
  · obtain ⟨q, inverses, d, -, -, -, rfl⟩ := apply_eq_ok_iff.mp hr
    rw [h]
  · obtain ⟨group, log, d, -, -, rfl⟩ := undo_eq_ok_some_iff.mp hr
    rw [h]

/-- Every call leaves a valid tree. -/
theorem valid_after (h : Tree.Valid doc.definitions doc.tree) (c : Call) :
    Tree.Valid doc.definitions (doc.after c).tree := by
  rcases doc.after_cases c with hc | ⟨now, p, r, -, hr, hc⟩ | ⟨r, -, hr, hc⟩
  · rw [hc]
    exact h
  · obtain ⟨q, inverses, d, -, -, hd, rfl⟩ := apply_eq_ok_iff.mp hr
    rw [hc]
    exact Draft.apply_valid (d := { tree := doc.tree }) h hd
  · obtain ⟨group, log, d, -, hd, rfl⟩ := undo_eq_ok_some_iff.mp hr
    rw [hc]
    exact Draft.foldlM_apply_valid _ (d := { tree := doc.tree }) h hd

/-! ### Runs -/

theorem definitions_run (calls : List Call) : ∀ doc : Document,
    (doc.run calls).definitions = doc.definitions := by
  induction calls with
  | nil => exact fun _ => rfl
  | cons c rest ih =>
    intro doc
    rw [run, List.foldl_cons]
    exact (ih (doc.after c)).trans (definitions_after doc c)

theorem valid_run_of_valid (calls : List Call) : ∀ doc : Document,
    Tree.Valid doc.definitions doc.tree → Tree.Valid doc.definitions (doc.run calls).tree := by
  induction calls with
  | nil => exact fun _ h => h
  | cons c rest ih =>
    intro doc h
    have hnext := ih (doc.after c) (by rw [definitions_after]; exact valid_after h c)
    rw [definitions_after] at hnext
    exact hnext

/-- In every run of an empty document the tree is valid. -/
theorem valid_run (name : String) (defs : Definitions) (config : DocumentConfig)
    (calls : List Call) : Tree.Valid defs ((Document.new name defs config).run calls).tree :=
  valid_run_of_valid calls (Document.new name defs config) (Tree.valid_empty defs)

/-- The definitions for which it is valid are those of the document. -/
theorem valid_definitions_run (name : String) (defs : Definitions) (config : DocumentConfig)
    (calls : List Call) : Tree.Valid ((Document.new name defs config).run calls).definitions
      ((Document.new name defs config).run calls).tree := by
  rw [show ((Document.new name defs config).run calls).definitions = defs from
    definitions_run calls _]
  exact valid_run name defs config calls

end SlotTree.Document
