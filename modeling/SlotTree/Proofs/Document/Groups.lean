import SlotTree.Proofs.Document.Runs
import SlotTree.Proofs.Undo.Chain

/-!
# Groups in a run

A run pushes groups of patches on the log and takes them off again.  To say what an undo leads to,
one saves the tree in which each group was pushed, under the number of the group.  Whatever is said
of a document and the saved trees, if every call keeps it, it holds at the end of a run, and there
the tree that is saved for a group is still the one in which the group was pushed.

## Main definitions

* `Document.StaysSmall` — runs in which no slot gets too many children.
* `Document.Pushes` — an accepted patch, and the group that it puts on top of the log.
* `Document.Chained` — documents whose log is a chain through the trees that were saved.
* `Document.Keeps` — what every call keeps.

## Main results

* `Document.Keeps.run` — a run forgets no tree that was saved.
* `Document.Keeps.saved_of_pushes` — the tree that is saved for a group.
* `Document.Keeps.exists_pushes` — every group on the log was pushed in the run.
-/

namespace SlotTree

namespace UndoLog

variable {log : UndoLog}

theorem isPrefix_dropOldest (es : List UndoEntry) : dropOldest es <+: es := by
  rw [dropOldest]
  split
  · exact List.nil_prefix
  · next e rest hes =>
    rw [← List.reverse_reverse es, hes, List.reverse_prefix]
    exact List.dropWhile_suffix _

theorem isPrefix_trim (log : UndoLog) : log.trim.entries <+: log.entries := by
  have hgroups : ∀ n es, dropOldestGroups n es <+: es := by
    intro n
    induction n with
    | zero => exact fun es => List.prefix_rfl
    | succ n ih => exact fun es => (ih (dropOldest es)).trans (isPrefix_dropOldest es)
  rw [trim]
  split
  · exact List.prefix_rfl
  · exact hgroups _ _

theorem nextGroup_le_push (log : UndoLog) (now : Instant) (ps : List Patch) :
    log.nextGroup ≤ (log.push now ps).1.nextGroup := by
  cases ps with
  | nil => exact Nat.le_refl _
  | cons p ps =>
    rw [push_nextGroup log now (List.cons_ne_nil p ps)]
    exact Nat.le_succ _

/-- The groups are numbered below the next one, also when patches were put on top. -/
theorem lt_nextGroup_push (h : ∀ e ∈ log.entries, e.group < log.nextGroup) (now : Instant)
    (ps : List Patch) :
    ∀ e ∈ (log.push now ps).1.entries, e.group < (log.push now ps).1.nextGroup := by
  intro e he
  cases ps with
  | nil => exact h e he
  | cons p ps =>
    have hne := List.cons_ne_nil p ps
    rw [push_nextGroup log now hne]
    rcases mem_push hne he with heq | hold
    · rw [heq]
      exact Nat.lt_succ_self _
    · exact Nat.lt_succ_of_lt (h e hold)

/-- What is on the log when patches were put on top was there before, or belongs to their group,
which is on top then. -/
theorem mem_push_cases {now : Instant} {ps : List Patch} {e : UndoEntry}
    (he : e ∈ (log.push now ps).1.entries) : e ∈ log.entries ∨
      (e.group = log.nextGroup ∧ (log.push now ps).1.top? = some log.nextGroup) := by
  cases ps with
  | nil => exact .inl he
  | cons p ps =>
    have hne := List.cons_ne_nil p ps
    refine (mem_push hne he).symm.imp_right fun hg => ⟨hg, ?_⟩
    -- to forget the oldest groups leaves what is on top, if it leaves anything
    have hpre := isPrefix_trim { log with
      entries := (p :: ps).map (UndoEntry.mk log.nextGroup now) ++ log.entries
      nextGroup := log.nextGroup + 1 }
    rw [← push_eq log now hne] at hpre
    obtain ⟨top, rest, htop⟩ := List.exists_cons_of_ne_nil (List.ne_nil_of_mem he)
    rw [htop, List.map_cons, List.cons_append, List.cons_prefix_cons] at hpre
    rw [top?, peek?, htop, hpre.1]
    rfl

theorem nextGroup_of_pop? {log' : UndoLog} {group : List UndoEntry}
    (h : log.pop? = some (group, log')) : log'.nextGroup = log.nextGroup := by
  rw [pop?] at h
  split at h <;> cases h
  rfl

theorem mem_of_pop? {log' : UndoLog} {group : List UndoEntry} (h : log.pop? = some (group, log'))
    {e : UndoEntry} (he : e ∈ log'.entries) : e ∈ log.entries := by
  rw [pop?] at h
  split at h
  · cases h
  · next top rest hentries =>
    cases h
    simp only [below] at he
    rw [hentries]
    exact List.dropWhile_subset _ he

end UndoLog

namespace Document

/-- In no state of a run does a slot hold so many children that their positions do not fit into 32
bits. -/
def StaysSmall (doc : Document) (calls : List Call) : Prop :=
  ∀ ⦃before⦄, before <+: calls → (doc.run before).tree.Small

/-- A patch is accepted and pushes a group: the group is on top afterwards, and was not there
before. -/
def Pushes (doc : Document) (now : Instant) (p : Patch) (g : Nat) : Prop :=
  ∃ r, doc.apply now p = .ok r ∧ r.1.log.top? = some g ∧ ∀ e ∈ doc.log.entries, e.group ≠ g

instance (doc : Document) (calls : List Call) : Decidable (doc.StaysSmall calls) :=
  decidable_of_iff (∀ before ∈ calls.inits, (doc.run before).tree.Small)
    ⟨fun h before hbefore => h before ((List.mem_inits before calls).mpr hbefore),
      fun h before hbefore => h ((List.mem_inits before calls).mp hbefore)⟩

instance (doc : Document) (now : Instant) (p : Patch) (g : Nat) : Decidable (doc.Pushes now p g) :=
  inferInstanceAs (Decidable (∃ r, doc.apply now p = .ok r ∧
    (r.1.log.top? = some g ∧ ∀ e ∈ doc.log.entries, e.group ≠ g)))

variable {doc : Document} {saved : Nat → Tree} {now : Instant} {p : Patch} {g : Nat}

/-! ### Calls -/

/-- The log after an accepted patch: the same, if the edit belongs to the entry on top, or with the
inverse patches on top. -/
theorem record_cases (doc : Document) (p : Patch) (inverses : List Patch) (now : Instant) :
    (∃ x inputName index expression, p = .setNodeInput x inputName index expression ∧
      doc.log.debounces x inputName index now = true ∧ doc.record p inverses now = doc.log) ∨
    doc.record p inverses now = (doc.log.push now inverses).1 := by
  cases p with
  | setNodeInput x inputName index expression =>
    by_cases hdeb : doc.log.debounces x inputName index now = true
    · exact .inl ⟨x, inputName, index, expression, rfl, hdeb, if_pos hdeb⟩
    · exact .inr (if_neg hdeb)
  | createNode _ _ _ | deleteNode _ | renameNode _ _ => exact .inr rfl

/-- Without groups there is nothing to undo. -/
theorem undo_eq_none (htop : doc.log.top? = none) : doc.undo = .ok none := by
  rw [Document.undo, UndoLog.pop?, UndoLog.top?_eq_none_iff.mp htop]

/-- Where an undo takes something back there is a group on top. -/
theorem exists_top?_of_undo {r : Document × Commit} (hr : doc.undo = .ok (some r)) :
    ∃ g, doc.log.top? = some g := by
  refine Option.ne_none_iff_exists'.mp fun htop => ?_
  rw [undo_eq_none htop] at hr
  cases hr

theorem config_record (doc : Document) (p : Patch) (inverses : List Patch) (now : Instant) :
    (doc.record p inverses now).config = doc.log.config := by
  rcases doc.record_cases p inverses now with ⟨_, _, _, _, -, -, h⟩ | h
  · rw [h]
  · rw [h, UndoLog.push_config]

/-- No call changes the options. -/
theorem config_after (doc : Document) (c : Call) :
    (doc.after c).log.config = doc.log.config := by
  rcases doc.after_cases c with h | ⟨now, p, r, -, hr, h⟩ | ⟨r, -, hr, h⟩
  · rw [h]
  · obtain ⟨q, inverses, d, -, -, -, rfl⟩ := apply_eq_ok_iff.mp hr
    rw [h]
    exact config_record doc q inverses now
  · obtain ⟨group, log, d, hpop, -, rfl⟩ := undo_eq_ok_some_iff.mp hr
    rw [h]
    rw [UndoLog.pop?] at hpop
    split at hpop <;> cases hpop
    rfl

/-! ### Runs -/

theorem run_append (doc : Document) (calls calls' : List Call) :
    doc.run (calls ++ calls') = (doc.run calls).run calls' := List.foldl_append

theorem StaysSmall.small {calls : List Call} (h : StaysSmall doc calls) : doc.tree.Small :=
  h (List.nil_prefix)

/-- What holds of a run holds of what is left of it. -/
theorem StaysSmall.rest (calls : List Call) {calls' : List Call}
    (h : StaysSmall doc (calls ++ calls')) :
    StaysSmall (doc.run calls) calls' := by
  intro before hbefore
  rw [← run_append]
  exact h ((List.prefix_append_right_inj calls).mpr hbefore)

theorem StaysSmall.start {calls calls' : List Call} (h : StaysSmall doc (calls ++ calls')) :
    StaysSmall doc calls :=
  fun _ hbefore => h (hbefore.trans (List.prefix_append calls calls'))

theorem config_run (calls : List Call) : ∀ doc : Document,
    (doc.run calls).log.config = doc.log.config := by
  induction calls with
  | nil => exact fun _ => rfl
  | cons c rest ih => exact fun doc => (ih (doc.after c)).trans (config_after doc c)

/-! ### Saved trees -/

/-- The groups on the log lead through the trees that were saved for them. -/
structure Chained (leads : Definitions → Tree → List Patch → Tree → Prop)
    (ends : UndoConfig → Tree → Prop) (saved : Nat → Tree) (doc : Document) : Prop where
  /-- The tree is valid. -/
  valid : Tree.Valid doc.definitions doc.tree
  /-- The groups are numbered below the next one. -/
  lt_next : ∀ e ∈ doc.log.entries, e.group < doc.log.nextGroup
  /-- The groups form a chain. -/
  chain : Chain (leads doc.definitions) saved (ends doc.log.config) doc.tree doc.log.entries

namespace Chained

variable {leads : Definitions → Tree → List Patch → Tree → Prop} {ends : UndoConfig → Tree → Prop}

/-- The tree is saved under the number of the next group, which no group has yet. -/
theorem save (h : Chained leads ends saved doc) :
    Chained leads ends (Function.update saved doc.log.nextGroup doc.tree) doc :=
  ⟨h.valid, h.lt_next,
    h.chain.congr fun e he => Function.update_of_ne (Nat.ne_of_lt (h.lt_next e he)) _ _⟩

/-- Patches that lead back from the next tree are put on top as the next group. -/
theorem push (h : Chained leads ends saved doc)
    (hends : doc.log.config.maxGroups ≠ 0 → ∀ t, ends doc.log.config t) {t : Tree}
    (hvalid : Tree.Valid doc.definitions t) {ps : List Patch} (hne : ps ≠ [])
    (hleads : leads doc.definitions t ps doc.tree) (now : Instant) (version : Nat) :
    Chained leads ends (Function.update saved doc.log.nextGroup doc.tree)
      { doc with tree := t, version, log := (doc.log.push now ps).1 } where
  valid := hvalid
  lt_next := UndoLog.lt_nextGroup_push h.lt_next now ps
  chain := by
    rw [UndoLog.push_config]
    refine Chain.push hends hne h.lt_next ?_ ?_ now
    · rw [Function.update_self]
      exact hleads
    · rw [Function.update_self]
      exact h.save.chain

/-- The group on top is taken off, and leads to the tree that was saved for it. -/
theorem pop (h : Chained leads ends saved doc) (htop : doc.log.top? = some g) :
    ∃ es log, doc.log.pop? = some (es, log) ∧
      log = { doc.log with entries := doc.log.entries.filter fun e => e.group ≠ g } ∧
      leads doc.definitions doc.tree (es.map UndoEntry.patch) (saved g) ∧
      (∀ e ∈ log.entries, e.group < log.nextGroup) ∧
      Chain (leads doc.definitions) saved (ends log.config) (saved g) log.entries := by
  obtain ⟨es, rest, hentries, hne, hes, hrest, hleads, hchain⟩ := h.chain.pop htop
  refine ⟨es, _, UndoLog.pop?_append hentries hne hes hrest, ?_, hleads, ?_, hchain⟩
  · rw [hentries, UndoLog.filter_append hes hrest]
  · intro e he
    exact h.lt_next e (hentries ▸ List.mem_append_right _ he)

end Chained

/-! ### What every call keeps -/

/-- What is said of a document and of the trees that were saved for its groups is kept by every
call; an accepted patch saves the tree before it under the number of the next group. -/
structure Keeps (Inv : (Nat → Tree) → Document → Prop) : Prop where
  /-- The groups are numbered below the next one. -/
  lt_next : ∀ {saved doc}, Inv saved doc → ∀ e ∈ doc.log.entries, e.group < doc.log.nextGroup
  /-- Accepted patches. -/
  apply : ∀ {saved doc now p r}, Inv saved doc → doc.tree.Small → doc.apply now p = .ok r →
    Inv (Function.update saved doc.log.nextGroup doc.tree) r.1
  /-- Undos. -/
  undo : ∀ {saved doc r}, Inv saved doc → doc.undo = .ok (some r) → Inv saved r.1

/-- What an accepted patch makes of the log. -/
theorem log_apply {r : Document × Commit} (hr : doc.apply now p = .ok r) :
    doc.log.nextGroup ≤ r.1.log.nextGroup ∧ ∀ e ∈ r.1.log.entries, e ∈ doc.log.entries ∨
      (e.group = doc.log.nextGroup ∧ r.1.log.top? = some doc.log.nextGroup) := by
  obtain ⟨q, inverses, d, -, -, -, rfl⟩ := apply_eq_ok_iff.mp hr
  rcases doc.record_cases q inverses now with ⟨_, _, _, _, -, -, hlog⟩ | hlog
  · simp only [hlog]
    exact ⟨Nat.le_refl _, fun e he => .inl he⟩
  · simp only [hlog]
    exact ⟨UndoLog.nextGroup_le_push _ _ _, fun e he => UndoLog.mem_push_cases he⟩

/-- What an undo makes of the log. -/
theorem log_undo {r : Document × Commit} (hr : doc.undo = .ok (some r)) :
    r.1.log.nextGroup = doc.log.nextGroup ∧ ∀ e ∈ r.1.log.entries, e ∈ doc.log.entries := by
  obtain ⟨group, log, d, hpop, -, rfl⟩ := undo_eq_ok_some_iff.mp hr
  exact ⟨UndoLog.nextGroup_of_pop? hpop, fun e he => UndoLog.mem_of_pop? hpop he⟩

/-- Every call leaves the groups numbered below the next one. -/
theorem lt_nextGroup_after (h : ∀ e ∈ doc.log.entries, e.group < doc.log.nextGroup) (c : Call) :
    ∀ e ∈ (doc.after c).log.entries, e.group < (doc.after c).log.nextGroup := by
  rcases doc.after_cases c with hc | ⟨now, p, r, -, hr, hc⟩ | ⟨r, -, hr, hc⟩
  · rw [hc]
    exact h
  · obtain ⟨q, inverses, d, -, -, -, rfl⟩ := apply_eq_ok_iff.mp hr
    rw [hc]
    rcases doc.record_cases q inverses now with ⟨_, _, _, _, -, -, hlog⟩ | hlog
    · rw [hlog]
      exact h
    · rw [hlog]
      exact UndoLog.lt_nextGroup_push h now inverses
  · obtain ⟨hnext, hmem⟩ := log_undo hr
    rw [hc, hnext]
    exact fun e he => h e (hmem e he)

namespace Keeps

variable {Inv : (Nat → Tree) → Document → Prop} (hk : Keeps Inv)

include hk

/-- A call forgets no tree that was saved for a group. -/
theorem after (h : Inv saved doc) (hsmall : doc.tree.Small) (c : Call) :
    ∃ saved', Inv saved' (doc.after c) ∧ doc.log.nextGroup ≤ (doc.after c).log.nextGroup ∧
      ∀ g < doc.log.nextGroup, saved' g = saved g := by
  rcases doc.after_cases c with hc | ⟨now, p, r, -, hr, hc⟩ | ⟨r, -, hr, hc⟩
  · rw [hc]
    exact ⟨saved, h, Nat.le_refl _, fun _ _ => rfl⟩
  · rw [hc]
    exact ⟨_, hk.apply h hsmall hr, (log_apply hr).1,
      fun g hg => Function.update_of_ne (Nat.ne_of_lt hg) _ _⟩
  · rw [hc]
    exact ⟨saved, hk.undo h hr, Nat.le_of_eq (log_undo hr).1.symm, fun _ _ => rfl⟩

/-- A run forgets no tree that was saved for a group. -/
theorem run (calls : List Call) : ∀ {doc : Document} {saved : Nat → Tree},
    Inv saved doc → StaysSmall doc calls →
      ∃ saved', Inv saved' (doc.run calls) ∧ ∀ g < doc.log.nextGroup, saved' g = saved g := by
  induction calls with
  | nil => exact fun h _ => ⟨_, h, fun _ _ => rfl⟩
  | cons c rest ih =>
    intro doc saved h hsmall
    obtain ⟨saved₁, h₁, hle, heq₁⟩ := hk.after h hsmall.small c
    obtain ⟨saved₂, h₂, heq₂⟩ := ih h₁ (hsmall.rest [c])
    refine ⟨saved₂, h₂, fun g hg => ?_⟩
    rw [heq₂ g (Nat.lt_of_lt_of_le hg hle), heq₁ g hg]

/-- The tree that is saved for a group is the one in which the group was pushed. -/
theorem saved_of_pushes (h : Inv saved doc) {before between : List Call}
    (hsmall : doc.StaysSmall (before ++ .apply now p :: between))
    (hp : (doc.run before).Pushes now p g) :
    ∃ saved', Inv saved' (doc.run (before ++ .apply now p :: between)) ∧
      saved' g = (doc.run before).tree := by
  obtain ⟨r, hr, hpushed, hfresh⟩ := hp
  obtain ⟨saved₁, h₁, -⟩ := hk.run before h hsmall.start
  have h₂ := hk.apply h₁ (hsmall.rest before).small hr
  -- the group that is new is the next one, under whose number the tree was saved
  obtain ⟨e, he, rfl⟩ := UndoLog.exists_of_top? hpushed
  obtain ⟨hnext, -⟩ := ((log_apply hr).2 e he).resolve_left fun hold => hfresh e hold rfl
  have hafter : (doc.run before).after (.apply now p) = r.1 := by rw [Document.after, hr]
  have hrun : doc.run (before ++ .apply now p :: between) = r.1.run between := by
    rw [run_append, Document.run, List.foldl_cons, hafter]
    rfl
  have hsmall₂ : StaysSmall r.1 between := by
    rw [← hafter]
    exact (hsmall.rest before).rest [.apply now p]
  obtain ⟨saved₃, h₃, heq⟩ := hk.run between h₂ hsmall₂
  exact ⟨saved₃, hrun ▸ h₃, by rw [heq _ (hk.lt_next h₂ e he), hnext, Function.update_self]⟩

/-- Every group on the log was pushed in the run. -/
theorem exists_pushes (h : Inv saved doc) (hempty : doc.log.entries = []) (calls : List Call) :
    doc.StaysSmall calls → ∀ e ∈ (doc.run calls).log.entries, ∃ before now p between,
      calls = before ++ .apply now p :: between ∧ (doc.run before).Pushes now p e.group := by
  induction calls using List.reverseRecOn with
  | nil =>
    intro _ e he
    rw [Document.run, List.foldl_nil, hempty] at he
    cases he
  | append_singleton calls c ih =>
    intro hsmall e he
    have hold : e ∈ (doc.run calls).log.entries → ∃ before now p between,
        calls ++ [c] = before ++ .apply now p :: between ∧
          (doc.run before).Pushes now p e.group := by
      intro he
      obtain ⟨before, now, p, between, rfl, hp⟩ := ih hsmall.start e he
      exact ⟨before, now, p, between ++ [c], by rw [List.append_assoc, List.cons_append], hp⟩
    rw [run_append, Document.run, List.foldl_cons, List.foldl_nil] at he
    rcases (doc.run calls).after_cases c with hc | ⟨now, p, r, rfl, hr, hc⟩ | ⟨r, -, hr, hc⟩
    · exact hold (hc ▸ he)
    · rw [hc] at he
      rcases (log_apply hr).2 e he with hin | ⟨hg, htop⟩
      · exact hold hin
      · obtain ⟨saved₁, h₁, -⟩ := hk.run calls h hsmall.start
        exact ⟨calls, now, p, [], rfl, r, hr, hg ▸ htop, fun f hf =>
          hg ▸ Nat.ne_of_lt (hk.lt_next h₁ f hf)⟩
    · exact hold ((log_undo hr).2 e (hc ▸ he))

end Keeps

end Document

end SlotTree
