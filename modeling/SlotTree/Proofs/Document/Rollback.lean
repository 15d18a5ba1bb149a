import SlotTree.Document.Observers
import SlotTree.Proofs.Document.Runs
import SlotTree.Proofs.Edit.InPlace
import SlotTree.Proofs.History.GroupStack

/-!
# Calls that leave no trace

Done in place, a call changes the nodes of the document step by step, and may fail after some of
them have been changed.  The tree as it was before is therefore kept, and put back after a failure;
an undo also puts the group back that it has taken off the log.  Here it is shown that nothing else
has to be put back: done in this way a call gives the document, and the error, that it gives when it
is done on a copy.

A `Session` is a document in use, with a clock and with an audience that is told of every change.
Calls that fail, and undos for which there is nothing to undo, can be left out of a session
altogether: everything else goes on as it did.

## Main definitions

* `Document.applyInPlace`, `Document.undoInPlace` — calls in place.
* `Session`, `Session.act` — documents in use.
* `Session.trace`, `Session.after` — what is answered to some actions, and what comes of them.

## Main results

* `Document.applyInPlace_eq`, `Document.undoInPlace_eq` — in place, calls come to the same.
* `Session.act_eq_self` — an action that leaves no trace.
* `Session.leaves_no_trace` — all of them left out of a session.
-/

namespace SlotTree

open InPlace

namespace Document

variable {α : Type} {doc : Document}

/-! ### Calls in place -/

/-- An edit on the nodes of a document.  Where it fails, they stay as they are at that moment. -/
def edit (m : InPlace Draft Unit) : InPlace Document (List String) := fun doc =>
  match m { tree := doc.tree } with
  | .ok _ d => .ok d.changed { doc with tree := d.tree }
  | .error e d => .error e { doc with tree := d.tree }

/-- Apply a patch, and keep the patches that take it back: which patch it was in the end, and which
nodes have changed. -/
def applyLogged (now : Instant) (p : Patch) : InPlace Document (Patch × List String) := do
  let doc ← get
  let p ← check (doc.assignId p)
  let inverses ← check (doc.tree.inverses doc.log.config.recordFirstBinding p)
  let changed ← edit (Draft.InPlace.apply doc.definitions p)
  modify fun doc => { doc with log := doc.record p inverses now }
  return (p, changed)

/-- Try something in place.  After a failure the tree is put back. -/
def attempt (m : InPlace Document α) (doc : Document) : Except DocumentError α × Document :=
  let snapshot := doc.tree
  match m doc with
  | .ok a doc => (.ok a, doc)
  | .error e doc => (.error e, { doc with tree := snapshot })

/-- Count a change. -/
def commit (doc : Document) (changed : List String) (patches : List Patch) : Commit × Document :=
  let version := doc.version + 1
  ({ version, changed, patches }, { doc with version })

/-- Apply a patch in place. -/
def applyInPlace (doc : Document) (now : Instant) (p : Patch) :
    Except DocumentError Commit × Document :=
  match doc.attempt (applyLogged now p) with
  | (.ok (p, changed), doc) =>
    let r := doc.commit changed [p]
    (.ok r.1, r.2)
  | (.error e, doc) => (.error e, doc)

/-- Take the last group of patches back in place. -/
def undoInPlace (doc : Document) : Except DocumentError (Option Commit) × Document :=
  match doc.log.pop? with
  | none => (.ok none, doc)
  | some (group, log) =>
    let patches := group.map UndoEntry.patch
    match attempt (edit (forM patches (Draft.InPlace.apply doc.definitions))) { doc with log } with
    | (.ok changed, doc) =>
      let r := doc.commit changed patches
      (.ok (some r.1), r.2)
    | (.error e, doc) => (.error e, { doc with log := doc.log.restore group })

/-! ### What they come to -/

/-- A computation that, where it fails, has changed nothing but the tree. -/
def SparesRest (m : InPlace Document α) : Prop :=
  ∀ ⦃doc e doc'⦄, m doc = .error e doc' → { doc' with tree := doc.tree } = doc

theorem sparesRest_edit (m : InPlace Draft Unit) : SparesRest (edit m) := by
  intro doc e doc' h
  rw [edit] at h
  split at h <;> cases h
  rfl

theorem SparesRest.get_bind {k : Document → InPlace Document α} (h : ∀ doc, SparesRest (k doc)) :
    SparesRest (get >>= k) :=
  fun doc _ _ hfail => h doc hfail

/-- A step that changes nothing may come first. -/
theorem SparesRest.check_bind {β : Type} {x : Except DocumentError β}
    {k : β → InPlace Document α} (h : ∀ b, SparesRest (k b)) : SparesRest (check x >>= k) := by
  intro doc e doc' hfail
  cases x with
  | error e =>
    cases hfail
    rfl
  | ok b => exact h b hfail

/-- Steps that cannot fail may follow. -/
theorem SparesRest.bind_of_ok {β : Type} {m : InPlace Document β} {k : β → InPlace Document α}
    (h : SparesRest m) (hk : ∀ b doc, ∃ a doc', k b doc = .ok a doc') : SparesRest (m >>= k) := by
  intro doc e doc' hfail
  rw [bind_apply] at hfail
  cases hm : m doc with
  | error e' doc'' =>
    rw [hm] at hfail
    cases hfail
    exact h hm
  | ok b doc'' =>
    obtain ⟨a, doc₃, hok⟩ := hk b doc''
    rw [hm] at hfail
    cases hok.symm.trans hfail

theorem sparesRest_applyLogged (now : Instant) (p : Patch) : SparesRest (applyLogged now p) :=
  .get_bind fun _ => .check_bind fun _ => .check_bind fun _ =>
    (sparesRest_edit _).bind_of_ok fun _ _ => ⟨_, _, rfl⟩

/-- What an attempt comes to: after a failure everything is as it was. -/
theorem attempt_eq {m : InPlace Document α} (h : SparesRest m) (doc : Document) :
    doc.attempt m = match outcome (m doc) with
      | .ok (a, doc') => (.ok a, doc')
      | .error e => (.error e, doc) := by
  rw [attempt]
  cases hm : m doc with
  | ok a doc' => rfl
  | error e doc' =>
    simp only [outcome]
    rw [h hm]

/-- An edit on the nodes of a document comes to what it comes to on a draft. -/
theorem outcome_edit {m : InPlace Draft Unit} {f : Draft → Except DocumentError Draft}
    (h : ∀ d, outcome (m d) = ends (f d)) (doc : Document) :
    outcome (edit m doc) = (f { tree := doc.tree }).map fun d =>
      (d.changed, { doc with tree := d.tree }) := by
  have hd := h { tree := doc.tree }
  rw [edit]
  cases hf : f { tree := doc.tree } with
  | error e =>
    rw [hf] at hd
    cases hm : m { tree := doc.tree } with
    | ok a d =>
      rw [hm] at hd
      cases hd
    | error e' d =>
      rw [hm] at hd
      cases hd
      rfl
  | ok d =>
    rw [hf] at hd
    cases hm : m { tree := doc.tree } with
    | ok a d' =>
      rw [hm] at hd
      cases hd
      rfl
    | error e' d' =>
      rw [hm] at hd
      cases hd

/-- In place, a patch comes to the same. -/
theorem applyInPlace_eq (doc : Document) (now : Instant) (p : Patch) :
    doc.applyInPlace now p = match doc.apply now p with
      | .ok (doc', commit) => (.ok commit, doc')
      | .error e => (.error e, doc) := by
  rw [applyInPlace, attempt_eq (sparesRest_applyLogged now p), apply]
  have hedit := fun p => outcome_edit
    (fun d => Draft.InPlace.outcome_apply d doc.definitions p) doc
  rw [applyLogged]
  simp only [outcome_bind, outcome_get, outcome_check, outcome_modify, outcome_pure, map_bind_eq,
    Outcome.ok_bind, hedit]
  cases doc.assignId p with
  | error e => rfl
  | ok p =>
    rw [Outcome.ok_bind, Outcome.ok_bind]
    cases doc.tree.inverses doc.log.config.recordFirstBinding p with
    | error e => rfl
    | ok inverses =>
      rw [Outcome.ok_bind, Outcome.ok_bind]
      cases Draft.apply { tree := doc.tree } doc.definitions p <;> rfl

/-- In place, an undo comes to the same. -/
theorem undoInPlace_eq (doc : Document) :
    doc.undoInPlace = match doc.undo with
      | .ok (some (doc', commit)) => (.ok (some commit), doc')
      | .ok none => (.ok none, doc)
      | .error e => (.error e, doc) := by
  rw [undoInPlace, undo]
  cases hpop : doc.log.pop? with
  | none => rfl
  | some popped =>
    obtain ⟨group, log⟩ := popped
    have hedit := outcome_edit (outcome_forM
      (fun p d => Draft.InPlace.outcome_apply d doc.definitions p) (group.map UndoEntry.patch))
      { doc with log }
    simp only [attempt_eq (sparesRest_edit _), hedit]
    cases (group.map UndoEntry.patch).foldlM (fun d p => d.apply doc.definitions p)
        ({ tree := doc.tree } : Draft) with
    | ok d => rfl
    | error e =>
      -- the group goes back to where it was taken from
      simp only [Except.map, Outcome.error_bind, UndoLog.restore_of_pop? hpop]

end Document

/-! ### Sessions -/

/-- A document in use. -/
structure Session (σ : Type) where
  /-- The document. -/
  doc : Document
  /-- The time. -/
  now : Instant
  /-- Those who are told of changes, and what they have made of it. -/
  audience : σ

namespace Session

/-- What can be done in a session. -/
inductive Action where
  /-- Apply a patch, now. -/
  | apply (p : Patch) : Action
  /-- Undo. -/
  | undo : Action
  /-- Let time pass. -/
  | advance (nanos : Int) : Action

/-- What is answered to an action. -/
inductive Answer where
  /-- The change that the patch makes, or why it is refused. -/
  | applied (r : Except DocumentError Commit) : Answer
  /-- The change that the undo makes, if there is anything to undo. -/
  | undone (r : Except DocumentError (Option Commit)) : Answer
  /-- The time. -/
  | advanced (now : Instant) : Answer

/-- The change that was made, if one was. -/
def Answer.commit? : Answer → Option Commit
  | .applied r => r.toOption
  | .undone r => r.toOption.join
  | .advanced _ => none

/-- Whether a patch was accepted, or an undo successful. -/
def Answer.commits (a : Answer) : Bool := a.commit?.isSome

/-- Whether time has passed. -/
def Answer.advances : Answer → Bool
  | .advanced _ => true
  | .applied _ | .undone _ => false

/-- Whether the action has left a trace: a change, or a later time. -/
def Answer.leavesTrace (a : Answer) : Bool := a.commits || a.advances

section

variable {α σ : Type} (observers : σ → Observers α) (listen : α → Notice → σ → σ)

/-- Go on with a document.  If a change was made, the audience is told. -/
def goOn (s : Session σ) (doc : Document) : Option Commit → Session σ
  | some c => { s with doc, audience := Observers.tell observers listen c.notices s.audience }
  | none => { s with doc }

/-- Do something: what is answered, and the session afterwards.  The audience consists of those that
are observers at the moment, each of whom may do something with a notice, and register or
unregister others. -/
def act (s : Session σ) : Action → Answer × Session σ
  | .apply p =>
    let r := s.doc.applyInPlace s.now p
    (.applied r.1, s.goOn observers listen r.2 r.1.toOption)
  | .undo =>
    let r := s.doc.undoInPlace
    (.undone r.1, s.goOn observers listen r.2 r.1.toOption.join)
  | .advance nanos =>
    let now := (s.now.advance? nanos).getD s.now
    (.advanced now, { s with now })

/-- Some actions, one after the other, with what is answered to each. -/
def trace (s : Session σ) : List Action → List (Action × Answer)
  | [] => []
  | a :: rest => (a, (s.act observers listen a).1) :: trace (s.act observers listen a).2 rest

/-- The session after some actions. -/
def after (s : Session σ) (actions : List Action) : Session σ :=
  actions.foldl (fun s a => (s.act observers listen a).2) s

/-! ### One action -/

/-- An action that leaves no trace leaves the session as it is. -/
theorem act_eq_self {s : Session σ} {a : Action}
    (h : (s.act observers listen a).1.leavesTrace = false) :
    (s.act observers listen a).2 = s := by
  cases a with
  | apply p =>
    rw [act, Document.applyInPlace_eq] at h ⊢
    cases hr : s.doc.apply s.now p with
    | error e => rfl
    | ok r =>
      rw [hr] at h
      cases h
  | undo =>
    rw [act, Document.undoInPlace_eq] at h ⊢
    cases hr : s.doc.undo with
    | error e => rfl
    | ok r =>
      cases r with
      | none => rfl
      | some r =>
        rw [hr] at h
        cases h
  | advance micros => cases h

/-- The version goes up by one with every change, and stays as it is otherwise. -/
theorem version_act (s : Session σ) (a : Action) :
    (s.act observers listen a).2.doc.version =
      s.doc.version + if (s.act observers listen a).1.commits then 1 else 0 := by
  cases a with
  | apply p =>
    rw [act, Document.applyInPlace_eq]
    cases hr : s.doc.apply s.now p with
    | error e => rfl
    | ok r =>
      obtain ⟨q, inverses, d, -, -, -, rfl⟩ := Document.apply_eq_ok_iff.mp hr
      rfl
  | undo =>
    rw [act, Document.undoInPlace_eq]
    cases hr : s.doc.undo with
    | error e => rfl
    | ok r =>
      cases r with
      | none => rfl
      | some r =>
        obtain ⟨group, log, d, -, -, rfl⟩ := Document.undo_eq_ok_some_iff.mp hr
        rfl
  | advance micros => rfl

/-! ### Many actions -/

/-- Without the actions that leave no trace the others are answered alike, and the session ends
alike. -/
theorem trace_leavesTrace (actions : List Action) : ∀ s : Session σ,
    let left := (s.trace observers listen actions).filter fun step => step.2.leavesTrace
    s.trace observers listen (left.map Prod.fst) = left ∧
      s.after observers listen (left.map Prod.fst) = s.after observers listen actions := by
  induction actions with
  | nil => exact fun _ => ⟨rfl, rfl⟩
  | cons a rest ih =>
    intro s
    obtain ⟨htrace, hafter⟩ := ih (s.act observers listen a).2
    simp only [trace]
    by_cases h : (s.act observers listen a).1.leavesTrace
    · rw [List.filter_cons_of_pos (by exact h), List.map_cons]
      exact ⟨congrArg _ htrace, hafter⟩
    · rw [List.filter_cons_of_neg (by exact h)]
      have hself := act_eq_self observers listen (Bool.eq_false_iff.mpr h)
      rw [hself] at htrace hafter ⊢
      refine ⟨htrace, hafter.trans ?_⟩
      rw [after, after, List.foldl_cons, hself]

/-- The version counts the changes. -/
theorem version_after (actions : List Action) : ∀ s : Session σ,
    (s.after observers listen actions).doc.version =
      s.doc.version + (s.trace observers listen actions).countP fun step => step.2.commits := by
  induction actions with
  | nil => exact fun _ => rfl
  | cons a rest ih =>
    intro s
    rw [after, List.foldl_cons]
    refine (ih (s.act observers listen a).2).trans ?_
    rw [version_act, trace, List.countP_cons, Nat.add_assoc, Nat.add_comm (ite _ _ _)]

/-- Of any actions on an empty document those that leave no trace can be left out: patches that are
refused, undos that fail, and undos for which there is nothing to undo.  The others are answered as
they were, and document, log, time and audience end as they did; and the version is the number of
patches that were accepted and undos that were successful. -/
theorem leaves_no_trace (name : String) (defs : Definitions) (config : DocumentConfig)
    (now : Instant) (audience : σ) (actions : List Action) :
    let s : Session σ := { doc := Document.new name defs config, now, audience }
    let left := (s.trace observers listen actions).filter fun step => step.2.leavesTrace
    s.trace observers listen (left.map Prod.fst) = left ∧
      s.after observers listen (left.map Prod.fst) = s.after observers listen actions ∧
      (s.after observers listen actions).doc.version =
        (s.trace observers listen actions).countP fun step => step.2.commits := by
  intro s left
  obtain ⟨htrace, hafter⟩ := trace_leavesTrace observers listen actions s
  exact ⟨htrace, hafter, (version_after observers listen actions s).trans (Nat.zero_add _)⟩

end

end Session

end SlotTree
