import SlotTree.Proofs.Document.Groups

/-!
# Undoing

An undo takes back exactly what was done: it leads to the tree in which the group on top was pushed,
whatever has happened in between, and takes that group off the log and no other.  Without a bound on
the number of groups, undoing all of them leads back to the empty tree.

The proof saves, for every group, the tree in which it was pushed.  The groups of the log form a
chain through these trees, and every call keeps the chain.

## Main definitions

* `Document.Recorded` — documents whose log is a chain through the trees that were saved.

## Main results

* `Document.Recorded.apply`, `Document.Recorded.undo` — what the calls do.
* `Document.undo_run` — undoing in a run.
-/

namespace SlotTree.Document

/-- First bindings are recorded, and what is kept for undoing leads through the trees that were
saved, and if all groups are kept, on to the empty tree. -/
structure Recorded (saved : Nat → Tree) (doc : Document) : Prop
    extends Chained Tree.Replays (fun config t => config.maxGroups = 0 → t = {}) saved doc where
  /-- First bindings are recorded. -/
  first : doc.log.config.recordFirstBinding = true

variable {doc : Document} {saved : Nat → Tree} {now : Instant} {p : Patch} {g : Nat}

/-! ### Calls -/

/-- An accepted patch saves the tree before it under the number of the next group. -/
theorem Recorded.apply (h : Recorded saved doc) (hsmall : doc.tree.Small) {r : Document × Commit}
    (hr : doc.apply now p = .ok r) :
    Recorded (Function.update saved doc.log.nextGroup doc.tree) r.1 := by
  obtain ⟨q, inverses, d, hq, hinv, hd, rfl⟩ := apply_eq_ok_iff.mp hr
  rw [h.first] at hinv
  have hid := id_of_assignId hq
  have hvalid := Draft.apply_valid (d := { tree := doc.tree }) h.valid hd
  rcases doc.record_cases q inverses now with
    ⟨x, inputName, index, expression, rfl, hdeb, hlog⟩ | hlog
  · -- the edit belongs to the entry on top
    obtain ⟨n, e, hn, -, -, htree⟩ :=
      (Draft.setInput_eq_ok_iff (d := { tree := doc.tree }) h.valid.linked).mp ⟨d, hd, rfl⟩
    simp only [hlog]
    refine ⟨⟨hvalid, h.lt_next, ?_⟩, h.first⟩
    simp only [htree]
    exact h.save.chain.debounced h.valid.linked hdeb hn e
  · -- the inverse patches form a group of their own
    have hreplays := Tree.inverses_replays h.valid hsmall hid hinv hd
    simp only [hlog]
    refine ⟨h.push (fun hmax _ hzero => absurd hzero hmax) hvalid (Tree.inverses_ne_nil hid hinv)
      hreplays now _, ?_⟩
    simp only [UndoLog.push_config]
    exact h.first

/-- An undo leads to the tree that was saved for the group on top, and takes the group off. -/
theorem Recorded.undo (h : Recorded saved doc) (htop : doc.log.top? = some g) :
    ∃ r, doc.undo = .ok (some r) ∧ Recorded saved r.1 ∧ r.1.tree = saved g ∧
      r.1.log = { doc.log with entries := doc.log.entries.filter fun e => e.group ≠ g } := by
  obtain ⟨es, log, hpop, hlog, hreplays, hlt, hchain⟩ := h.pop htop
  obtain ⟨d, hd, htree⟩ := hreplays { tree := doc.tree } rfl
  refine ⟨_, undo_eq_ok_some_iff.mpr ⟨_, _, d, hpop, hd, rfl⟩, ⟨⟨?_, hlt, ?_⟩, ?_⟩, htree, hlog⟩
  · exact Draft.foldlM_apply_valid _ (d := { tree := doc.tree }) h.valid hd
  · simp only [htree]
    exact hchain
  · simp only [hlog]
    exact h.first

theorem keeps_recorded : Keeps Recorded where
  lt_next h := h.lt_next
  apply h hsmall hr := h.apply hsmall hr
  undo := by
    intro saved doc r h hr
    obtain ⟨g, htop⟩ := exists_top?_of_undo hr
    obtain ⟨r', hr', hrecorded, -⟩ := h.undo htop
    cases hr.symm.trans hr'
    exact hrecorded

/-- If all groups are kept, none are left in the empty tree alone. -/
theorem Recorded.eq_empty (h : Recorded saved doc) (hmax : doc.log.config.maxGroups = 0)
    (htop : doc.log.top? = none) : doc.tree = {} := by
  have hchain := h.chain
  rw [UndoLog.top?_eq_none_iff.mp htop] at hchain
  generalize hentries : ([] : List UndoEntry) = entries at hchain
  cases hchain with
  | nil hends => exact hends hmax
  | group hne _ _ _ _ => exact absurd (List.append_eq_nil_iff.mp hentries.symm).1 hne

/-! ### Runs -/

/-- An empty document has nothing to undo. -/
theorem recorded_new (name : String) (defs : Definitions) {config : DocumentConfig}
    (hfirst : config.undo.recordFirstBinding = true) :
    Recorded (fun _ => {}) (Document.new name defs config) where
  valid := Tree.valid_empty defs
  lt_next := fun _ he => by cases he
  chain := .nil fun _ => rfl
  first := hfirst

/-- If all groups are kept, undoing all of them leads back to the empty tree. -/
theorem Recorded.undo_all (h : Recorded saved doc) (hmax : doc.log.config.maxGroups = 0) :
    ∃ k, (∀ j < k, ∃ r, (doc.run (List.replicate j .undo)).undo = .ok (some r)) ∧
      (doc.run (List.replicate k .undo)).undo = .ok none ∧
        (doc.run (List.replicate k .undo)).tree = {} := by
  -- every undo makes the log shorter
  generalize hlen : doc.log.entries.length = len
  induction len using Nat.strong_induction_on generalizing doc with
  | _ len ih =>
    cases htop : doc.log.top? with
    | none =>
      exact ⟨0, fun j hj => absurd hj (Nat.not_lt_zero j), undo_eq_none htop, h.eq_empty hmax htop⟩
    | some g =>
      obtain ⟨r, hr, hrecorded, -, hlog⟩ := h.undo htop
      have hafter : doc.after .undo = r.1 := by rw [Document.after, hr]
      have hlt : r.1.log.entries.length < len := by
        obtain ⟨e, he, hg⟩ := UndoLog.exists_of_top? htop
        rw [hlog, ← hlen]
        exact List.length_filter_lt_length_iff_exists.mpr ⟨e, he, by simpa using hg⟩
      obtain ⟨k, hsome, hnone, hempty⟩ := ih _ hlt hrecorded (by rw [hlog]; exact hmax) rfl
      have hstep : ∀ j, doc.run (List.replicate (j + 1) .undo) =
          r.1.run (List.replicate j .undo) := by
        intro j
        rw [List.replicate_succ, Document.run, List.foldl_cons, hafter]
        rfl
      refine ⟨k + 1, fun j hj => ?_, ?_, ?_⟩
      · cases j with
        | zero => exact ⟨r, hr⟩
        | succ j =>
          rw [hstep]
          exact hsome j (Nat.lt_of_succ_lt_succ hj)
      · rw [hstep]
        exact hnone
      · rw [hstep]
        exact hempty

/-- Wherever in a run a group that was pushed is on top, an undo leads to the tree in which it was
pushed, and takes that group alone off the log.  And if all groups are kept, undoing as long as
there is anything to undo ends in the empty tree. -/
theorem undo_run (name : String) (defs : Definitions) (config : DocumentConfig)
    (hfirst : config.undo.recordFirstBinding = true) (calls : List Call)
    (hsmall : (Document.new name defs config).StaysSmall calls) :
    (∀ before now p between g, calls = before ++ .apply now p :: between →
      ((Document.new name defs config).run before).Pushes now p g →
        ((Document.new name defs config).run calls).log.top? = some g →
          ∃ r, ((Document.new name defs config).run calls).undo = .ok (some r) ∧
            r.1.tree = ((Document.new name defs config).run before).tree ∧
            r.1.log = { ((Document.new name defs config).run calls).log with
              entries := ((Document.new name defs config).run calls).log.entries.filter
                fun e => e.group ≠ g }) ∧
      (config.undo.maxGroups = 0 → ∃ k,
        (∀ j < k, ∃ r, (((Document.new name defs config).run calls).run
          (List.replicate j .undo)).undo = .ok (some r)) ∧
        (((Document.new name defs config).run calls).run (List.replicate k .undo)).undo =
          .ok none ∧
        (((Document.new name defs config).run calls).run (List.replicate k .undo)).tree = {}) := by
  have hnew := recorded_new name defs hfirst
  constructor
  · rintro before now p between g rfl hpushes htop
    obtain ⟨saved, h, hsaved⟩ := keeps_recorded.saved_of_pushes hnew hsmall hpushes
    obtain ⟨r, hr, -, htree, hlog⟩ := h.undo htop
    exact ⟨r, hr, htree.trans hsaved, hlog⟩
  · intro hmax
    obtain ⟨saved, h, -⟩ := keeps_recorded.run calls hnew hsmall
    exact h.undo_all (by rw [config_run]; exact hmax)

/-- One type of nodes, with a label. -/
def leafDefinitions : Definitions where
  nodes := [⟨{ name := "Leaf", inputs := OrderedMap.empty.insert "label" { type := .string } },
    by decide⟩]

/-- A leaf is created, and its label is set twice within the time of one edit. -/
def leafCalls : List Call :=
  [.apply 0 (.createNode "Leaf" none (some "leaf")),
    .apply 0 (.setNodeInput "leaf" "label" none (some (.string "first"))),
    .apply 100000 (.setNodeInput "leaf" "label" none (some (.string "second")))]

/-- Both edits of the label are undone together. -/
theorem undo_run_leafCalls :
    let config : DocumentConfig := { undo := { maxGroups := 0 } }
    let doc := (Document.new "leaf" leafDefinitions config).run leafCalls
    (∃ r, doc.undo = .ok (some r) ∧
      r.1.tree = ((Document.new "leaf" leafDefinitions config).run (leafCalls.take 1)).tree ∧
      r.1.log = { doc.log with entries := doc.log.entries.filter fun e => e.group ≠ 1 }) ∧
    ∃ k, (∀ j < k, ∃ r, (doc.run (List.replicate j .undo)).undo = .ok (some r)) ∧
      (doc.run (List.replicate k .undo)).undo = .ok none ∧
      (doc.run (List.replicate k .undo)).tree = {} := by
  intro config doc
  obtain ⟨hundo, hall⟩ := undo_run "leaf" leafDefinitions config rfl leafCalls
    (by decide +kernel)
  exact ⟨hundo (leafCalls.take 1) _ _ _ 1 rfl (by decide +kernel) (by decide +kernel), hall rfl⟩

end SlotTree.Document
