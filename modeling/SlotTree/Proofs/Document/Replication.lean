import SlotTree.Document.Observers
import SlotTree.Proofs.Document.Acceptance
import SlotTree.Proofs.Edit.Views

/-!
# Replication

Who listens to the patches of a document from the start can follow it: passed on one by one to
another empty document with the same definitions, all of them are accepted, and lead to the same
tree.  This holds for new nodes that were given their ids, for undos, which pass on a whole group of
patches, and for calls that fail, which pass on none.

## Main definitions

* `Document.commit?` — the change that a call makes.
* `Broadcast`, `Broadcast.call` — a document with a listener that keeps what it is told.
* `Document.replay` — patches that are applied one after the other, at the times of a clock.

## Main results

* `Document.replay_of_foldlM` — what can be done in one edit can be done in several.
* `Broadcast.Replayed.call` — a call keeps what is heard up to date.
* `Broadcast.replay_run` — the patches that are heard in a run.
-/

namespace SlotTree

namespace Document

variable {doc : Document} {p : Patch}

/-! ### Replaying -/

/-- Apply patches one after the other, each at the next time of a clock. -/
def replay (doc : Document) (clock : Nat → Instant) : List Patch → Except DocumentError Document
  | [] => .ok doc
  | p :: rest => do
    let (doc, _) ← doc.apply (clock 0) p
    doc.replay (fun i => clock (i + 1)) rest

theorem replay_append (ps qs : List Patch) : ∀ (doc : Document) (clock : Nat → Instant),
    doc.replay clock (ps ++ qs) =
      (doc.replay clock ps >>= fun doc => doc.replay (fun i => clock (i + ps.length)) qs) := by
  induction ps with
  | nil => exact fun _ _ => rfl
  | cons p rest ih =>
    intro doc clock
    rw [List.cons_append, replay, replay]
    cases doc.apply (clock 0) p with
    | error e => rfl
    | ok r =>
      rw [Outcome.ok_bind, Outcome.ok_bind]
      exact ih r.1 _

/-- A document accepts a patch that can be applied to its tree, and does to it what the edit does. -/
theorem apply_of_draft (h : Tree.Valid doc.definitions doc.tree) (now : Instant) {d : Draft}
    (hd : Draft.apply { tree := doc.tree } doc.definitions p = .ok d) :
    ∃ r, doc.apply now p = .ok r ∧ r.1.tree = d.tree ∧ r.1.definitions = doc.definitions := by
  have htakes := (Draft.apply_eq_ok_iff (d := { tree := doc.tree }) h).mp ⟨d, hd⟩
  obtain ⟨r, hr⟩ : ∃ r, doc.apply now p = .ok r := (exists_apply_eq_ok_iff h).mpr htakes
  obtain ⟨q, inverses, d', hq, -, hd', rfl⟩ := apply_eq_ok_iff.mp hr
  refine ⟨_, hr, ?_, rfl⟩
  rcases assignId_eq_ok hq with ⟨-, rfl⟩ | ⟨nodeType, parent, schema, rfl, hs, rfl⟩
  · rw [hd, Except.ok.injEq] at hd'
    rw [hd']
  · -- the edit gives the new node the same id
    rw [Draft.apply, hs] at hd
    have heq : Except.ok d = Except.ok d' := hd.symm.trans hd'
    rw [Except.ok.inj heq]

/-- Patches that can be applied in one edit are accepted one after the other. -/
theorem replay_of_foldlM (ps : List Patch) : ∀ {doc : Document} {d d' : Draft}
    (clock : Nat → Instant), Tree.Valid doc.definitions doc.tree → d.tree = doc.tree →
      ps.foldlM (fun d p => d.apply doc.definitions p) d = .ok d' →
        ∃ doc', doc.replay clock ps = .ok doc' ∧ doc'.tree = d'.tree ∧
          doc'.definitions = doc.definitions := by
  induction ps with
  | nil =>
    intro doc d d' clock _ hd hok
    cases hok
    exact ⟨doc, rfl, hd.symm, rfl⟩
  | cons p rest ih =>
    intro doc d d' clock h hd hok
    rw [List.foldlM_cons] at hok
    obtain ⟨d₁, hd₁, hok⟩ := Outcome.bind_eq_ok.mp hok
    have hvalid : Tree.Valid doc.definitions d.tree := hd.symm ▸ h
    -- what has been noted before makes no difference to the tree
    obtain ⟨e, he, htree⟩ := Draft.apply_resembles (e := { tree := doc.tree }) Node.isView_self
      hvalid h (Tree.resembles_self_iff.mpr hd.symm) hd₁
    obtain ⟨r, hr, hrtree, hdefs⟩ := apply_of_draft h (clock 0) he
    have hsame : d₁.tree = r.1.tree := (Tree.resembles_self_iff.mp htree).symm.trans hrtree.symm
    rw [← hdefs] at hok
    obtain ⟨doc', hreplay, htree', hdefs'⟩ := ih (fun i => clock (i + 1))
      (by rw [hdefs, ← hsame]; exact Draft.apply_valid hvalid hd₁) hsame hok
    refine ⟨doc', ?_, htree', hdefs'.trans hdefs⟩
    rw [replay, hr, Outcome.ok_bind]
    exact hreplay

/-! ### Calls -/

/-- The document after a call and the change that was made, if there is one. -/
def commit? (doc : Document) : Call → Option (Document × Commit)
  | .apply now p => (doc.apply now p).toOption
  | .undo => doc.undo.toOption.join

theorem after_eq (doc : Document) (c : Call) :
    doc.after c = ((doc.commit? c).map Prod.fst).getD doc := by
  cases c with
  | apply now p =>
    rw [after, commit?]
    cases doc.apply now p <;> rfl
  | undo =>
    rw [after, commit?]
    cases doc.undo with
    | error e => rfl
    | ok r => cases r <;> rfl

/-- The patches of a change are what was done to the tree. -/
theorem foldlM_of_commit? {c : Call} {r : Document × Commit} (h : doc.commit? c = some r) :
    ∃ d, r.2.patches.foldlM (fun d p => d.apply doc.definitions p)
      ({ tree := doc.tree } : Draft) = .ok d ∧ r.1.tree = d.tree := by
  cases c with
  | apply now p =>
    rw [commit?] at h
    cases hr : doc.apply now p with
    | error e =>
      rw [hr] at h
      cases h
    | ok r' =>
      rw [hr] at h
      cases h
      obtain ⟨q, inverses, d, -, -, hd, rfl⟩ := apply_eq_ok_iff.mp hr
      exact ⟨d, by rw [List.foldlM_cons, hd, Outcome.ok_bind]; rfl, rfl⟩
  | undo =>
    rw [commit?] at h
    cases hr : doc.undo with
    | error e =>
      rw [hr] at h
      cases h
    | ok r' =>
      rw [hr] at h
      cases r' with
      | none => cases h
      | some r' =>
        cases h
        obtain ⟨group, log, d, -, hd, rfl⟩ := undo_eq_ok_some_iff.mp hr
        exact ⟨d, hd, rfl⟩

end Document

/-! ### Listening -/

/-- A document, those who listen to it, and the patches that one of them has heard. -/
structure Broadcast where
  /-- The document. -/
  doc : Document
  /-- Those who listen. -/
  observers : Observers Unit
  /-- The patches that were heard, in order. -/
  heard : List Patch

namespace Broadcast

/-- Somebody begins to listen to the patches of a document. -/
def start (doc : Document) : Broadcast where
  doc := doc
  observers := { patches := (Registry.add {} ()).1 }
  heard := []

/-- The listener keeps the patches that it is told. -/
def hear (_ : Unit) : Notice → Broadcast → Broadcast
  | .change _, b => b
  | .patch p, b => { b with heard := b.heard ++ [p] }

/-- A call on the document; if it makes a change, this is told. -/
def call (b : Broadcast) (c : Document.Call) : Broadcast :=
  match b.doc.commit? c with
  | some (doc, commit) => Observers.tell Broadcast.observers hear commit.notices { b with doc }
  | none => b

/-- Some calls, one after the other. -/
def run (b : Broadcast) (calls : List Document.Call) : Broadcast := calls.foldl call b

variable {b : Broadcast}

/-- The listener hears the patches of a change, and nobody else is told anything. -/
theorem tell_notices (hchanges : b.observers.changes.listeners = [])
    (hpatches : b.observers.patches.listeners = [()]) (c : Commit) :
    Observers.tell Broadcast.observers hear c.notices b =
      { b with heard := b.heard ++ c.patches } := by
  have hpatch : ∀ (ps : List Patch) (b : Broadcast), b.observers.patches.listeners = [()] →
      Observers.tell Broadcast.observers hear (ps.map .patch) b =
        { b with heard := b.heard ++ ps } := by
    intro ps
    induction ps with
    | nil => exact fun b _ => by rw [List.append_nil]; rfl
    | cons p rest ih =>
      intro b hb
      have hstep : announce (fun b : Broadcast => b.observers.concerned (.patch p))
          (fun listener => hear listener (.patch p)) b = { b with heard := b.heard ++ [p] } := by
        rw [announce, Observers.concerned, hb]
        rfl
      rw [List.map_cons, Observers.tell, List.foldl_cons, hstep]
      refine (ih { b with heard := b.heard ++ [p] } hb).trans ?_
      rw [List.append_assoc, List.singleton_append]
  have hchange : announce (fun b : Broadcast => b.observers.concerned (.change c.changed))
      (fun listener => hear listener (.change c.changed)) b = b := by
    rw [announce, Observers.concerned, hchanges]
    rfl
  rw [Commit.notices, Observers.tell, List.foldl_cons, hchange]
  exact hpatch c.patches b hpatches

/-- What was heard leads an empty document, under any options and at any times, to the same tree. -/
structure Replayed (name : String) (config : DocumentConfig) (b : Broadcast) : Prop where
  /-- The tree is valid. -/
  valid : Tree.Valid b.doc.definitions b.doc.tree
  /-- Nobody listens to changes. -/
  changes : b.observers.changes.listeners = []
  /-- One listens to patches. -/
  patches : b.observers.patches.listeners = [()]
  /-- The patches that were heard are accepted, and lead to the tree. -/
  replays : ∀ clock, ∃ replica,
    (Document.new name b.doc.definitions config).replay clock b.heard = .ok replica ∧
      replica.tree = b.doc.tree ∧ replica.definitions = b.doc.definitions

variable {name : String} {config : DocumentConfig}

theorem replayed_start (name name' : String) (defs : Definitions) (config config' : DocumentConfig) :
    Replayed name' config' (start (Document.new name defs config)) where
  valid := Tree.valid_empty defs
  changes := rfl
  patches := rfl
  replays _ := ⟨_, rfl, rfl, rfl⟩

/-- The document does what it does without a listener, and what is heard stays up to date. -/
theorem Replayed.call (h : Replayed name config b) (c : Document.Call) :
    (b.call c).doc = b.doc.after c ∧ Replayed name config (b.call c) := by
  rw [Broadcast.call, Document.after_eq]
  cases hr : b.doc.commit? c with
  | none => exact ⟨rfl, h⟩
  | some r =>
    obtain ⟨doc, commit⟩ := r
    have hafter : b.doc.after c = doc := by rw [Document.after_eq, hr]; rfl
    have hdefs : doc.definitions = b.doc.definitions := by
      rw [← hafter, Document.definitions_after]
    have hvalid : Tree.Valid b.doc.definitions doc.tree := by
      rw [← hafter]
      exact Document.valid_after h.valid c
    simp only [tell_notices (b := { b with doc }) h.changes h.patches]
    refine ⟨rfl, ?_, h.changes, h.patches, fun clock => ?_⟩
    · rw [hdefs]
      exact hvalid
    · obtain ⟨d, hd, htree⟩ := Document.foldlM_of_commit? hr
      obtain ⟨replica, hreplica, hsame, hdefs'⟩ := h.replays clock
      rw [← hdefs'] at hd
      obtain ⟨replica', hreplica', hsame', hdefs''⟩ := Document.replay_of_foldlM commit.patches
        (fun i => clock (i + b.heard.length))
        (by rw [hsame, hdefs']; exact h.valid) hsame.symm hd
      refine ⟨replica', ?_, hsame'.trans htree.symm, by rw [hdefs'', hdefs', hdefs]⟩
      rw [hdefs, Document.replay_append, hreplica, Outcome.ok_bind]
      exact hreplica'

theorem Replayed.run (calls : List Document.Call) : ∀ {b : Broadcast}, Replayed name config b →
    (b.run calls).doc = b.doc.run calls ∧ Replayed name config (b.run calls) := by
  induction calls with
  | nil => exact fun h => ⟨rfl, h⟩
  | cons c rest ih =>
    intro b h
    obtain ⟨hdoc, hcall⟩ := h.call c
    obtain ⟨hrun, hreplayed⟩ := ih hcall
    refine ⟨?_, hreplayed⟩
    rw [Document.run, List.foldl_cons, ← hdoc]
    exact hrun

/-- In every run, the patches that were heard from the start on are all accepted by another empty
document with the same definitions, whatever its options and the times, and lead it to the same
tree. -/
theorem replay_run (name name' : String) (defs : Definitions) (config config' : DocumentConfig)
    (calls : List Document.Call) (clock : Nat → Instant) :
    let b := (start (Document.new name defs config)).run calls
    b.doc = (Document.new name defs config).run calls ∧
      ∃ replica, (Document.new name' defs config').replay clock b.heard = .ok replica ∧
        replica.tree = b.doc.tree := by
  intro b
  obtain ⟨hdoc, h⟩ := (replayed_start name name' defs config config').run calls
  obtain ⟨replica, hreplica, htree, -⟩ := h.replays clock
  have hdefs : b.doc.definitions = defs := by
    rw [show b.doc = _ from hdoc, Document.definitions_run]
    rfl
  rw [hdefs] at hreplica
  exact ⟨hdoc, replica, hreplica, htree⟩

end Broadcast

end SlotTree
