import SlotTree.Proofs.Document.Undoing
import SlotTree.Proofs.Edit.Views

/-!
# Undoing under all options

If first bindings are not recorded, an undo need not lead back to the tree in which a group was
pushed, for it may leave bindings that the log knows nothing of.  But it never fails, and leads to a
tree with the skeleton of that tree: the same root, and the same nodes in the same places.

No binding decides what becomes of the nodes, so patches that lead from one tree to another lead
from every tree with the skeleton of the one to a tree with the skeleton of the other.

## Main definitions

* `Tree.Reshapes` — patches that lead from one skeleton to another.
* `Document.Shaped` — documents whose log is a chain through the skeletons that were saved.

## Main results

* `Tree.Replays.reshapes` — patches that lead to a tree lead to its skeleton.
* `Document.Shaped.apply`, `Document.Shaped.undo` — what the calls do.
* `Document.undo_skeleton_run` — undoing in a run, under all options.
-/

namespace SlotTree

namespace Tree

variable {defs : Definitions} {t t' u : Tree} {ps : List Patch}

/-- Patches lead from every tree with one skeleton to a tree with another. -/
def Reshapes (defs : Definitions) (t : Tree) (ps : List Patch) (t' : Tree) : Prop :=
  ∀ d : Draft, Valid defs d.tree → Resembles Node.bare t d.tree →
    ∃ d', ps.foldlM (fun d p => d.apply defs p) d = .ok d' ∧ Resembles Node.bare t' d'.tree

/-- Patches that lead to a tree lead to its skeleton. -/
theorem Replays.reshapes (h : Replays defs t ps t') (hvalid : Valid defs t) :
    Reshapes defs t ps t' := by
  intro d hd hsame
  obtain ⟨e, he, rfl⟩ := h { tree := t } rfl
  exact Draft.foldlM_apply_resembles Node.isView_bare ps hvalid hd hsame he

/-- Only the skeleton decides where patches lead. -/
theorem Reshapes.congr (h : Reshapes defs t ps t') (hsame : Resembles Node.bare t u) :
    Reshapes defs u ps t' :=
  fun d hd hu => h d hd (hsame.trans hu)

/-- The inverse patches are those that are found when first bindings are recorded, or there are
none, for a first binding. -/
theorem inverses_cases {first : Bool} {p : Patch} (h : t.inverses first p = .ok ps) :
    t.inverses true p = .ok ps ∨
      (ps = [] ∧ ∃ x inputName index expression, p = .setNodeInput x inputName index expression) := by
  cases p with
  | setNodeInput x inputName index expression =>
    rw [inverses] at h ⊢
    obtain ⟨n, hn, h⟩ := Outcome.bind_eq_ok.mp h
    rw [hn, Outcome.ok_bind]
    cases hin : n.input? ⟨inputName, index.map UInt32.toNat⟩ with
    | some e =>
      rw [hin] at h
      exact .inl h
    | none =>
      rw [hin] at h
      cases first with
      | true => exact .inl h
      | false =>
        cases h
        exact .inr ⟨rfl, x, inputName, index, expression, rfl⟩
  | createNode _ _ _ | deleteNode _ | renameNode _ _ => exact .inl h

/-- To bind an input leaves the skeleton. -/
theorem resembles_bind {x : String} {n : Node} (hn : t.nodes.get? x = some n) (a : InputAddress)
    (e : Option TypedExpression) : Resembles Node.bare t (t.put x (n.bind a e)) := by
  have h := (Resembles.refl Node.bare t).put (n.bare_bind a e) x
  rwa [put_self hn] at h

end Tree

namespace Document

/-- What is kept for undoing leads through the skeletons of the trees that were saved. -/
abbrev Shaped (saved : Nat → Tree) (doc : Document) : Prop :=
  Chained Tree.Reshapes (fun _ _ => True) saved doc

variable {doc : Document} {saved : Nat → Tree} {now : Instant} {p : Patch} {g : Nat}

/-! ### Calls -/

/-- An edit that leaves the skeleton and the log leaves the chain. -/
theorem Shaped.congr (h : Shaped saved doc) {t : Tree} (hvalid : Tree.Valid doc.definitions t)
    (hsame : Tree.Resembles Node.bare doc.tree t) (version : Nat) :
    Shaped saved { doc with tree := t, version } :=
  ⟨hvalid, h.lt_next, h.chain.start_congr (fun _ => trivial) fun _ _ hleads => hleads.congr hsame⟩

/-- An accepted patch saves the tree before it under the number of the next group. -/
theorem Shaped.apply (h : Shaped saved doc) (hsmall : doc.tree.Small) {r : Document × Commit}
    (hr : doc.apply now p = .ok r) :
    Shaped (Function.update saved doc.log.nextGroup doc.tree) r.1 := by
  obtain ⟨q, inverses, d, hq, hinv, hd, rfl⟩ := apply_eq_ok_iff.mp hr
  have hid := id_of_assignId hq
  have hvalid := Draft.apply_valid (d := { tree := doc.tree }) h.valid hd
  -- a binding for which the log stays as it is
  have hkept : ∀ {x inputName index expression},
      q = .setNodeInput x inputName index expression → doc.record q inverses now = doc.log →
        Shaped (Function.update saved doc.log.nextGroup doc.tree)
          { doc with tree := d.tree, version := doc.version + 1,
                     log := doc.record q inverses now } := by
    rintro x inputName index expression rfl hlog
    obtain ⟨n, e, hn, -, -, htree⟩ :=
      (Draft.setInput_eq_ok_iff (d := { tree := doc.tree }) h.valid.linked).mp ⟨d, hd, rfl⟩
    rw [hlog]
    exact Shaped.congr h.save hvalid (htree ▸ Tree.resembles_bind hn _ e) _
  rcases doc.record_cases q inverses now with
    ⟨x, inputName, index, expression, heq, -, hlog⟩ | hlog
  · exact hkept heq hlog
  · rcases Tree.inverses_cases hinv with htrue | ⟨rfl, x, inputName, index, expression, heq⟩
    · have hreplays := Tree.inverses_replays h.valid hsmall hid htrue hd
      simp only [hlog]
      exact h.push (fun _ _ => trivial) hvalid (Tree.inverses_ne_nil hid htrue)
        (hreplays.reshapes hvalid) now _
    · exact hkept heq hlog

/-- An undo leads to the skeleton of the tree that was saved for the group on top, and takes the
group off. -/
theorem Shaped.undo (h : Shaped saved doc) (htop : doc.log.top? = some g) :
    ∃ r, doc.undo = .ok (some r) ∧ Shaped saved r.1 ∧
      Tree.Resembles Node.bare (saved g) r.1.tree ∧
      r.1.log = { doc.log with entries := doc.log.entries.filter fun e => e.group ≠ g } := by
  obtain ⟨es, log, hpop, hlog, hreshapes, hlt, hchain⟩ := h.pop htop
  obtain ⟨d, hd, hsame⟩ :=
    hreshapes { tree := doc.tree } h.valid (Tree.Resembles.refl Node.bare doc.tree)
  refine ⟨_, undo_eq_ok_some_iff.mpr ⟨_, _, d, hpop, hd, rfl⟩, ⟨?_, hlt, ?_⟩, hsame, hlog⟩
  · exact Draft.foldlM_apply_valid _ (d := { tree := doc.tree }) h.valid hd
  · exact hchain.start_congr (fun _ => trivial) fun _ _ hleads => hleads.congr hsame

theorem keeps_shaped : Keeps Shaped where
  lt_next h := h.lt_next
  apply h hsmall hr := Shaped.apply h hsmall hr
  undo := by
    intro saved doc r h hr
    obtain ⟨g, htop⟩ := exists_top?_of_undo hr
    obtain ⟨r', hr', hshaped, -⟩ := Shaped.undo h htop
    cases hr.symm.trans hr'
    exact hshaped

/-! ### Runs -/

/-- An empty document has nothing to undo. -/
theorem shaped_new (name : String) (defs : Definitions) (config : DocumentConfig) :
    Shaped (fun _ => {}) (Document.new name defs config) where
  valid := Tree.valid_empty defs
  lt_next := fun _ he => by cases he
  chain := .nil trivial

/-- Under all options, wherever in a run there is anything to undo, an undo succeeds and takes the
group on top off the log.  The group was pushed by a patch of the run, and the undo leads to the
skeleton of the tree before that patch. -/
theorem undo_skeleton_run (name : String) (defs : Definitions) (config : DocumentConfig)
    (calls : List Call) (hsmall : (Document.new name defs config).StaysSmall calls) :
    let start := Document.new name defs config
    let doc := start.run calls
    (doc.log.entries = [] → doc.undo = .ok none) ∧
    (doc.log.entries ≠ [] → ∃ g r, doc.log.top? = some g ∧ doc.undo = .ok (some r) ∧
      r.1.log = { doc.log with entries := doc.log.entries.filter fun e => e.group ≠ g } ∧
      (∃ before now p between, calls = before ++ .apply now p :: between ∧
        (start.run before).Pushes now p g) ∧
      ∀ before now p between, calls = before ++ .apply now p :: between →
        (start.run before).Pushes now p g → r.1.tree.skeleton = (start.run before).tree.skeleton) := by
  intro start doc
  have hnew : Shaped (fun _ => {}) start := shaped_new name defs config
  constructor
  · exact fun hentries => undo_eq_none (UndoLog.top?_eq_none_iff.mpr hentries)
  · intro hentries
    obtain ⟨g, htop⟩ : ∃ g, doc.log.top? = some g :=
      Option.ne_none_iff_exists'.mp fun hnone => hentries (UndoLog.top?_eq_none_iff.mp hnone)
    obtain ⟨saved, h, -⟩ := keeps_shaped.run calls hnew hsmall
    obtain ⟨r, hr, -, -, hlog⟩ := Shaped.undo h htop
    refine ⟨g, r, htop, hr, hlog, ?_, ?_⟩
    · obtain ⟨e, he, rfl⟩ := UndoLog.exists_of_top? htop
      exact keeps_shaped.exists_pushes hnew rfl calls hsmall e he
    · rintro before now p between rfl hpushes
      obtain ⟨saved', h', hsaved⟩ := keeps_shaped.saved_of_pushes hnew hsmall hpushes
      obtain ⟨r', hr', -, hsame, -⟩ := Shaped.undo h' htop
      rw [hr, Except.ok.injEq, Option.some.injEq] at hr'
      rw [hr', Tree.resembles_bare_iff.mp hsame, hsaved]

/-- A leaf is created and renamed, and under its new id its label is set. -/
def renamedLeafCalls : List Call :=
  [.apply 0 (.createNode "Leaf" none (some "leaf")),
    .apply 0 (.renameNode "leaf" "tip"),
    .apply 0 (.setNodeInput "tip" "label" none (some (.string "first")))]

/-- If the label is not recorded, the leaf gets its old id back, with the label. -/
theorem undo_skeleton_run_renamedLeafCalls :
    let start := Document.new "leaf" leafDefinitions { undo := { recordFirstBinding := false } }
    start.StaysSmall renamedLeafCalls ∧
    ∃ r, (start.run renamedLeafCalls).undo = .ok (some r) ∧
      r.1.tree.skeleton = (start.run (renamedLeafCalls.take 1)).tree.skeleton := by
  intro start
  have hsmall : start.StaysSmall renamedLeafCalls := by decide +kernel
  have htop : (start.run renamedLeafCalls).log.top? = some 1 := by decide +kernel
  obtain ⟨-, hundo⟩ := undo_skeleton_run "leaf" leafDefinitions _ renamedLeafCalls hsmall
  obtain ⟨g, r, htop', hr, -, -, hskeleton⟩ := hundo fun hnil => by
    rw [UndoLog.top?_eq_none_iff.mpr hnil] at htop
    cases htop
  cases htop.symm.trans htop'
  exact ⟨hsmall, r, hr, hskeleton (renamedLeafCalls.take 1) _ _ _ rfl (by decide +kernel)⟩

end Document

end SlotTree
