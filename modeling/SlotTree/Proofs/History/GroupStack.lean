import SlotTree.Proofs.Undo.Chain

/-!
# The undo log as a stack of groups

An undo log is one flat list of entries, in which a group is a run of equal numbers.  Here it is
compared with what it stands for: a stack of groups that are kept apart, none of them empty, of
which at most so many are kept.  Whatever is done with a log, it is the flat form of the stack with
which the same was done, and both give the same replies.

## Main definitions

* `PatchGroup`, `GroupStack` — groups, and stacks of them.
* `UndoLog.Use`, `UndoLog.Reply` — what can be done with a log, and what it replies.
* `GroupStack.reply`, `UndoLog.reply` — how a stack and a log reply.
* `UndoLog.Flattens` — a log is the flat form of a stack.

## Main results

* `UndoLog.Flattens.reply` — one use of a log.
* `UndoLog.flattens_run` — any number of uses, from a new log on.
-/

namespace SlotTree

/-! ### Stacks -/

/-- Patches that are undone together. -/
structure PatchGroup where
  /-- The number of the group. -/
  number : Nat
  /-- When the edit was made that they take back. -/
  timestamp : Instant
  /-- The patches, in the order in which they are to be applied. -/
  patches : List Patch
  /-- There is at least one. -/
  nonempty : patches ≠ []

/-- The entries of a group. -/
def PatchGroup.entries (g : PatchGroup) : List UndoEntry :=
  g.patches.map (UndoEntry.mk g.number g.timestamp)

/-- A stack of groups. -/
structure GroupStack where
  /-- The groups, the newest first. -/
  groups : List PatchGroup := []
  /-- The number of the next group. -/
  next : Nat := 0
  /-- How many groups are kept; zero keeps all. -/
  capacity : Nat

namespace GroupStack

/-- The groups that are kept of some: the newest. -/
def kept (capacity : Nat) (groups : List PatchGroup) : List PatchGroup :=
  if capacity = 0 then groups else groups.take capacity

/-- Put a group on.  No patches make no group. -/
def push (s : GroupStack) (timestamp : Instant) : List Patch → GroupStack × Option Nat
  | [] => (s, none)
  | p :: ps =>
    let group := ⟨s.next, timestamp, p :: ps, List.cons_ne_nil p ps⟩
    ({ s with groups := kept s.capacity (group :: s.groups), next := s.next + 1 }, some s.next)

/-- The group on top, if there is one. -/
def top? (s : GroupStack) : Option PatchGroup := s.groups.head?

/-- The stack without the group on top. -/
def pop (s : GroupStack) : GroupStack := { s with groups := s.groups.tail }

/-- The stack without its groups.  The numbers go on from where they are. -/
def clear (s : GroupStack) : GroupStack := { s with groups := [] }

/-- The number of groups. -/
def height (s : GroupStack) : Nat := s.groups.length

/-- The number of patches in all groups. -/
def patchCount (s : GroupStack) : Nat := (s.groups.flatMap PatchGroup.patches).length

end GroupStack

/-! ### Uses -/

namespace UndoLog

/-- What can be done with a log. -/
inductive Use where
  /-- Put a group on. -/
  | push (timestamp : Instant) (patches : List Patch) : Use
  /-- Take the group on top off. -/
  | pop : Use
  /-- Take the group on top off and put it back at once. -/
  | popAndRestore : Use
  /-- Forget all groups. -/
  | clear : Use

/-- What is replied to a use. -/
inductive Reply where
  /-- The number of the group that was put on, if one was. -/
  | pushed (number : Option Nat) : Reply
  /-- The entries of the group that was taken off, if one was. -/
  | popped (entries : Option (List UndoEntry)) : Reply
  /-- Nothing. -/
  | cleared : Reply

/-- The number that was handed out, if one was. -/
def Reply.issued : Reply → Option Nat
  | .pushed number => number
  | .popped _ | .cleared => none

/-- What a log replies to a use, and the log afterwards. -/
def reply (log : UndoLog) : Use → UndoLog × Reply
  | .push timestamp patches =>
    let r := log.push timestamp patches
    (r.1, .pushed r.2)
  | .pop =>
    match log.pop? with
    | some (group, log) => (log, .popped (some group))
    | none => (log, .popped none)
  | .popAndRestore =>
    match log.pop? with
    | some (group, log) => (log.restore group, .popped (some group))
    | none => (log, .popped none)
  | .clear => (log.clear, .cleared)

/-- Some uses, one after the other, of whatever replies to them: what is replied, and what becomes
of it. -/
def Use.run {σ : Type} (reply : σ → Use → σ × Reply) (s : σ) : List Use → σ × List Reply
  | [] => (s, [])
  | u :: rest =>
    let r := run reply (reply s u).1 rest
    (r.1, (reply s u).2 :: r.2)

end UndoLog

/-- What a stack replies to a use, and the stack afterwards. -/
def GroupStack.reply (s : GroupStack) : UndoLog.Use → GroupStack × UndoLog.Reply
  | .push timestamp patches =>
    let r := s.push timestamp patches
    (r.1, .pushed r.2)
  | .pop => (s.pop, .popped (s.top?.map PatchGroup.entries))
  | .popAndRestore => (s, .popped (s.top?.map PatchGroup.entries))
  | .clear => (s.clear, .cleared)

/-! ### Groups in a flat list -/

/-- The entries of some groups, one group after the other. -/
def PatchGroup.flatten (groups : List PatchGroup) : List UndoEntry := groups.flatMap entries

/-- The newer a group, the higher its number. -/
abbrev PatchGroup.Descending (groups : List PatchGroup) : Prop :=
  groups.Pairwise fun newer older => older.number < newer.number

namespace PatchGroup

variable {g : PatchGroup} {groups : List PatchGroup}

@[simp] theorem flatten_nil : flatten [] = [] := rfl

@[simp] theorem flatten_cons (g : PatchGroup) (groups : List PatchGroup) :
    flatten (g :: groups) = g.entries ++ flatten groups := rfl

theorem entries_ne_nil (g : PatchGroup) : g.entries ≠ [] :=
  fun h => g.nonempty (List.map_eq_nil_iff.mp h)

theorem group_of_mem_entries {e : UndoEntry} (h : e ∈ g.entries) : e.group = g.number := by
  obtain ⟨p, -, rfl⟩ := List.mem_map.mp h
  rfl

theorem length_flatten (groups : List PatchGroup) :
    (flatten groups).length = (groups.flatMap patches).length := by
  induction groups with
  | nil => rfl
  | cons g rest ih =>
    rw [flatten_cons, List.flatMap_cons, List.length_append, List.length_append, ih, entries,
      List.length_map]

theorem flatten_eq_nil_iff : flatten groups = [] ↔ groups = [] := by
  cases groups with
  | nil => simp
  | cons g rest => simp [entries_ne_nil]

/-- Behind the newest of some groups stand entries with smaller numbers. -/
theorem lt_of_mem_flatten (h : Descending (g :: groups)) {e : UndoEntry}
    (he : e ∈ flatten groups) : e.group < g.number := by
  obtain ⟨older, holder, he⟩ := List.mem_flatMap.mp he
  rw [group_of_mem_entries he]
  exact (List.pairwise_cons.mp h).1 older holder

end PatchGroup

namespace UndoLog

variable {g : Nat} {es rest : List UndoEntry} {groups : List PatchGroup}

/-- Entries of the group that stands in front begin no run. -/
theorem runsAfter_append (hes : ∀ e ∈ es, e.group = g) :
    runsAfter g (es ++ rest) = runsAfter g rest := by
  induction es with
  | nil => rfl
  | cons e es ih =>
    rw [List.forall_mem_cons] at hes
    rw [List.cons_append, runsAfter, if_pos hes.1, hes.1, ih hes.2, Nat.zero_add]

/-- Behind entries with greater numbers every run is a run of its own. -/
theorem runsAfter_of_lt (hrest : ∀ e ∈ rest, e.group < g) : runsAfter g rest = runs rest := by
  cases rest with
  | nil => rfl
  | cons e rest =>
    rw [runsAfter, if_neg (Nat.ne_of_lt (hrest e List.mem_cons_self)), runs]

/-- Every group is one run. -/
theorem runs_flatten : ∀ {groups : List PatchGroup}, PatchGroup.Descending groups →
    runs (PatchGroup.flatten groups) = groups.length := by
  intro groups h
  induction groups with
  | nil => rfl
  | cons g rest ih =>
    obtain ⟨e, es, hes⟩ := List.exists_cons_of_ne_nil g.entries_ne_nil
    have hgroup : ∀ f ∈ e :: es, f.group = g.number := fun f hf =>
      PatchGroup.group_of_mem_entries (hes ▸ hf)
    rw [List.forall_mem_cons] at hgroup
    rw [PatchGroup.flatten_cons, hes, List.cons_append, runs, hgroup.1, runsAfter_append hgroup.2,
      runsAfter_of_lt fun f hf => PatchGroup.lt_of_mem_flatten h hf, ih h.of_cons, List.length_cons,
      Nat.add_comm]

/-- To forget the oldest run is to forget the oldest group. -/
theorem dropOldest_flatten : ∀ {groups : List PatchGroup}, PatchGroup.Descending groups →
    dropOldest (PatchGroup.flatten groups) = PatchGroup.flatten groups.dropLast := by
  intro groups h
  induction groups with
  | nil => rfl
  | cons g rest ih =>
    have hes : ∀ e ∈ g.entries, e.group = g.number := fun _ => PatchGroup.group_of_mem_entries
    cases rest with
    | nil =>
      rw [PatchGroup.flatten_cons, PatchGroup.flatten_nil, List.append_nil, dropOldest_group hes]
      rfl
    | cons older rest =>
      rw [PatchGroup.flatten_cons, dropOldest_append hes
        (fun e he => PatchGroup.lt_of_mem_flatten h he)
        (mt PatchGroup.flatten_eq_nil_iff.mp (List.cons_ne_nil older rest)), ih h.of_cons]
      rfl

/-- To forget so many runs is to keep the other groups. -/
theorem dropOldestGroups_flatten (n : Nat) : ∀ {groups : List PatchGroup},
    PatchGroup.Descending groups →
      dropOldestGroups n (PatchGroup.flatten groups) =
        PatchGroup.flatten (groups.take (groups.length - n)) := by
  induction n with
  | zero =>
    intro groups _
    rw [dropOldestGroups, Nat.sub_zero, List.take_length]
  | succ n ih =>
    intro groups h
    rw [dropOldestGroups, dropOldest_flatten h, ih (h.sublist groups.dropLast_sublist),
      List.dropLast_eq_take, List.take_take, List.length_take]
    congr 2
    omega

/-- What is left of groups when there may be no more than so many. -/
theorem trim_flatten {log : UndoLog} (h : PatchGroup.Descending groups)
    (hentries : log.entries = PatchGroup.flatten groups) :
    log.trim.entries =
      PatchGroup.flatten (GroupStack.kept log.config.maxGroups.toNat groups) := by
  rw [trim, GroupStack.kept]
  by_cases hmax : log.config.maxGroups = 0
  · rw [if_pos hmax, if_pos (by rw [hmax]; rfl), hentries]
  · have hne : log.config.maxGroups.toNat ≠ 0 := fun h0 => hmax (UInt64.toNat_inj.mp h0)
    rw [if_neg hmax, if_neg hne]
    show dropOldestGroups _ log.entries = _
    rw [groupCount, hentries, runs_flatten h, dropOldestGroups_flatten _ h]
    -- to take all but the groups that are too many is to take as many as may be kept
    congr 1
    rcases Nat.le_total groups.length log.config.maxGroups.toNat with hle | hle
    · rw [Nat.sub_eq_zero_of_le hle, Nat.sub_zero, List.take_length, List.take_of_length_le hle]
    · rw [Nat.sub_sub_self hle]

/-! ### One use -/

/-- A log is the flat form of a stack. -/
structure Flattens (log : UndoLog) (s : GroupStack) : Prop where
  /-- The entries are those of the groups. -/
  entries : log.entries = PatchGroup.flatten s.groups
  /-- Both number the next group alike. -/
  next : log.nextGroup = s.next
  /-- Both keep as many groups. -/
  capacity : log.config.maxGroups.toNat = s.capacity
  /-- The newer a group, the higher its number. -/
  descending : PatchGroup.Descending s.groups
  /-- The next group gets a number that no group has. -/
  lt_next : ∀ g ∈ s.groups, g.number < s.next

variable {log : UndoLog} {s : GroupStack}

/-- What is taken off a log that has no entries. -/
theorem pop?_eq_none (h : log.entries = []) : log.pop? = none := by rw [pop?, h]

/-- A group that was taken off and is put back leaves the log as it was. -/
theorem restore_of_pop? {log' : UndoLog} {group : List UndoEntry}
    (h : log.pop? = some (group, log')) : log'.restore group = log := by
  rw [pop?] at h
  split at h
  · cases h
  · next e rest hentries =>
    cases h
    rw [restore, topOf, below, List.takeWhile_append_dropWhile, ← hentries]

/-- What is on top is what is taken off first. -/
theorem peek?_eq_head?_pop? (log : UndoLog) : log.peek? = log.pop?.bind fun r => r.1.head? := by
  rw [peek?, pop?]
  cases log.entries with
  | nil => rfl
  | cons e rest => simp [topOf]

namespace Flattens

theorem new (config : UndoConfig) :
    Flattens { config } { capacity := config.maxGroups.toNat } :=
  ⟨rfl, rfl, rfl, List.Pairwise.nil, fun _ h => by cases h⟩

theorem pop? (h : Flattens log s) :
    log.pop? = s.top?.map fun g =>
      (g.entries, { log with entries := PatchGroup.flatten s.pop.groups }) := by
  have hentries := h.entries
  rw [GroupStack.top?, GroupStack.pop]
  cases hs : s.groups with
  | nil =>
    rw [hs] at hentries
    exact pop?_eq_none hentries
  | cons g rest =>
    rw [hs, PatchGroup.flatten_cons] at hentries
    exact pop?_append hentries g.entries_ne_nil (fun _ => PatchGroup.group_of_mem_entries)
      fun e he => PatchGroup.lt_of_mem_flatten (hs ▸ h.descending) he

theorem push (h : Flattens log s) (timestamp : Instant) (ps : List Patch) :
    Flattens (log.push timestamp ps).1 (s.push timestamp ps).1 ∧
      (log.push timestamp ps).2 = (s.push timestamp ps).2 := by
  cases ps with
  | nil => exact ⟨h, rfl⟩
  | cons p ps =>
    have hnumber : (log.push timestamp (p :: ps)).2 = some log.nextGroup := rfl
    refine ⟨?_, hnumber.trans (congrArg some h.next)⟩
    have hne : p :: ps ≠ [] := List.cons_ne_nil p ps
    let group : PatchGroup := ⟨s.next, timestamp, p :: ps, hne⟩
    have hdesc : PatchGroup.Descending (group :: s.groups) :=
      List.pairwise_cons.mpr ⟨h.lt_next, h.descending⟩
    -- the groups that are kept are some of those that are there with the new one
    have hsub : (GroupStack.kept s.capacity (group :: s.groups)).Sublist (group :: s.groups) := by
      rw [GroupStack.kept]
      split
      · exact List.Sublist.refl _
      · exact List.take_sublist _ _
    refine ⟨?_, ?_, ?_, hdesc.sublist hsub, ?_⟩
    · rw [push_eq log timestamp hne, GroupStack.push, ← h.capacity]
      refine trim_flatten hdesc ?_
      rw [PatchGroup.flatten_cons, ← h.entries, h.next]
      rfl
    · rw [push_nextGroup log timestamp hne, h.next]
      rfl
    · rw [push_config]
      exact h.capacity
    · intro g hg
      rcases List.mem_cons.mp (hsub.subset hg) with rfl | hold
      · exact Nat.lt_succ_self _
      · exact Nat.lt_succ_of_lt (h.lt_next g hold)

theorem pop (h : Flattens log s) :
    Flattens { log with entries := PatchGroup.flatten s.pop.groups } s.pop :=
  ⟨rfl, h.next, h.capacity, h.descending.sublist (List.tail_sublist _),
    fun g hg => h.lt_next g (List.mem_of_mem_tail hg)⟩

theorem clear (h : Flattens log s) : Flattens log.clear s.clear :=
  ⟨rfl, h.next, h.capacity, List.Pairwise.nil, fun _ h => by cases h⟩

/-- To a use a log replies as the stack does, and stays its flat form. -/
theorem reply (h : Flattens log s) (u : Use) :
    Flattens (log.reply u).1 (s.reply u).1 ∧ (log.reply u).2 = (s.reply u).2 := by
  cases u with
  | push timestamp patches =>
    obtain ⟨hflat, hnumber⟩ := h.push timestamp patches
    exact ⟨hflat, congrArg Reply.pushed hnumber⟩
  | pop =>
    have hpop := h.pop?
    rw [UndoLog.reply, GroupStack.reply]
    cases hs : s.groups with
    | nil =>
      rw [GroupStack.top?, hs] at hpop
      rw [hpop, GroupStack.top?, hs]
      have hsame : s.pop = s := by
        rw [GroupStack.pop, hs, List.tail_nil, ← hs]
      exact ⟨hsame.symm ▸ h, rfl⟩
    | cons g rest =>
      rw [GroupStack.top?, hs] at hpop
      rw [hpop, GroupStack.top?, hs]
      exact ⟨h.pop, rfl⟩
  | popAndRestore =>
    have hpop := h.pop?
    rw [UndoLog.reply, GroupStack.reply]
    cases htop : s.top? with
    | none =>
      rw [htop] at hpop
      rw [hpop]
      exact ⟨h, rfl⟩
    | some g =>
      rw [htop] at hpop
      rw [hpop]
      refine ⟨?_, rfl⟩
      show Flattens (UndoLog.restore _ _) s
      rw [restore_of_pop? hpop]
      exact h
  | clear => exact ⟨h.clear, rfl⟩

/-! ### Many uses -/

theorem run (uses : List Use) : ∀ {log : UndoLog} {s : GroupStack}, Flattens log s →
    Flattens (Use.run UndoLog.reply log uses).1 (Use.run GroupStack.reply s uses).1 ∧
      (Use.run UndoLog.reply log uses).2 = (Use.run GroupStack.reply s uses).2 := by
  induction uses with
  | nil => exact fun h => ⟨h, rfl⟩
  | cons u rest ih =>
    intro log s h
    obtain ⟨hflat, hreply⟩ := h.reply u
    obtain ⟨hrun, hreplies⟩ := ih hflat
    exact ⟨hrun, congrArg₂ List.cons hreply hreplies⟩

end Flattens

end UndoLog

namespace GroupStack

open UndoLog

/-- A number that is handed out is the next one. -/
theorem next_reply (s : GroupStack) (u : Use) :
    (∀ n ∈ (s.reply u).2.issued, n = s.next ∧ (s.reply u).1.next = s.next + 1) ∧
      s.next ≤ (s.reply u).1.next := by
  cases u with
  | push timestamp patches =>
    cases patches with
    | nil => exact ⟨fun n hn => (by cases hn), Nat.le_refl _⟩
    | cons p ps => exact ⟨fun n hn => ⟨(Option.some.inj hn).symm, rfl⟩, Nat.le_succ _⟩
  | pop | popAndRestore | clear => exact ⟨fun n hn => (by cases hn), Nat.le_refl _⟩

/-- The numbers that are handed out ascend, from the next one on. -/
theorem issued_run (uses : List Use) : ∀ s : GroupStack,
    ((Use.run reply s uses).2.filterMap Reply.issued).Pairwise (· < ·) ∧
      ∀ n ∈ (Use.run reply s uses).2.filterMap Reply.issued, s.next ≤ n := by
  induction uses with
  | nil => exact fun s => ⟨List.Pairwise.nil, fun n hn => by cases hn⟩
  | cons u rest ih =>
    intro s
    obtain ⟨hissued, hnext⟩ := s.next_reply u
    obtain ⟨hpairwise, hle⟩ := ih (s.reply u).1
    rw [Use.run, List.filterMap_cons]
    cases hu : (s.reply u).2.issued with
    | none => exact ⟨hpairwise, fun n hn => Nat.le_trans hnext (hle n hn)⟩
    | some m =>
      obtain ⟨rfl, hsucc⟩ := hissued m hu
      refine ⟨List.pairwise_cons.mpr ⟨fun n hn => ?_, hpairwise⟩, ?_⟩
      · have hn := hle n hn
        rw [hsucc] at hn
        exact hn
      · intro n hn
        rcases List.mem_cons.mp hn with rfl | hn
        · exact Nat.le_refl _
        · exact Nat.le_trans hnext (hle n hn)

end GroupStack

/-- Whatever is done with a new log, it replies as a stack of groups does, and is its flat form: it
has the entries of the groups, counts the groups and the patches in them, shows the patch that is
taken off first, and hands out ascending numbers. -/
theorem UndoLog.flattens_run (config : UndoConfig) (uses : List Use) :
    let log := Use.run UndoLog.reply { config } uses
    let stack := Use.run GroupStack.reply { capacity := config.maxGroups.toNat } uses
    log.2 = stack.2 ∧ log.1.entries = stack.1.groups.flatMap PatchGroup.entries ∧
      log.1.groupCount = stack.1.height ∧ log.1.size = stack.1.patchCount ∧
      (log.1.peek? = log.1.pop?.bind fun r => r.1.head?) ∧
      (log.2.filterMap Reply.issued).Pairwise (· < ·) := by
  intro log stack
  obtain ⟨hflat, hreplies⟩ := (Flattens.new config).run uses
  refine ⟨hreplies, hflat.entries, ?_, ?_, peek?_eq_head?_pop? _, ?_⟩
  · rw [groupCount, hflat.entries, runs_flatten hflat.descending]
    rfl
  · rw [size, hflat.entries, PatchGroup.length_flatten]
    rfl
  · rw [hreplies]
    exact (GroupStack.issued_run uses _).1

end SlotTree
