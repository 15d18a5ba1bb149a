import Mathlib.Data.List.TakeWhile
import SlotTree.History.UndoLog
import SlotTree.Proofs.Undo.Inverses

/-!
# Chains of groups

The groups of an undo log lead from tree to tree: the one on top from the tree as it is now to the
tree that was there before the edit, the next one from there, and so on.  A group that is put on top
extends the chain, one that is taken off leaves the rest, and to forget the oldest groups shortens
the chain at its far end.

## Main definitions

* `UndoLog.top?` — the number of the group on top.
* `Chain` — entries that lead through trees.

## Main results

* `Chain.trim` — to forget groups leaves a chain.
* `Chain.pop` — the group on top, and the chain behind it.
* `Chain.debounced` — an edit that belongs to the entry on top leaves the chain.
-/

namespace SlotTree

/-! ### Entries of one group -/

namespace UndoLog

variable {g : Nat} {es rest : List UndoEntry}

/-- The number of the group on top. -/
def top? (log : UndoLog) : Option Nat := log.peek?.map UndoEntry.group

theorem exists_of_top? {log : UndoLog} (h : log.top? = some g) :
    ∃ e ∈ log.entries, e.group = g := by
  obtain ⟨e, he, hg⟩ := Option.map_eq_some_iff.mp h
  exact ⟨e, List.mem_of_head? he, hg⟩

theorem top?_eq_none_iff {log : UndoLog} : log.top? = none ↔ log.entries = [] := by
  rw [top?, peek?, Option.map_eq_none_iff, List.head?_eq_none_iff]

theorem topOf_append (hes : ∀ e ∈ es, e.group = g) (hrest : ∀ e ∈ rest, e.group < g) :
    topOf g (es ++ rest) = es := by
  have hnil : rest.takeWhile (fun e => decide (e.group = g)) = [] := by
    cases rest with
    | nil => rfl
    | cons e rest =>
      rw [List.takeWhile_cons_of_neg]
      simp [Nat.ne_of_lt (hrest e List.mem_cons_self)]
  rw [topOf, List.takeWhile_append_of_pos (by simpa using hes), hnil, List.append_nil]

theorem below_append (hes : ∀ e ∈ es, e.group = g) (hrest : ∀ e ∈ rest, e.group < g) :
    below g (es ++ rest) = rest := by
  rw [below, List.dropWhile_append_of_pos (by simpa using hes)]
  cases rest with
  | nil => rfl
  | cons e rest =>
    rw [List.dropWhile_cons_of_neg]
    simp [Nat.ne_of_lt (hrest e List.mem_cons_self)]

/-- The group on top is taken off. -/
theorem pop?_append {log : UndoLog} (h : log.entries = es ++ rest) (hne : es ≠ [])
    (hes : ∀ e ∈ es, e.group = g) (hrest : ∀ e ∈ rest, e.group < g) :
    log.pop? = some (es, { log with entries := rest }) := by
  obtain ⟨e, back, rfl⟩ := List.exists_cons_of_ne_nil hne
  rw [pop?, h, List.cons_append]
  simp only [hes e List.mem_cons_self]
  rw [← List.cons_append, topOf_append hes hrest, below_append hes hrest]

/-- What is left without a group is what stands behind it. -/
theorem filter_append (hes : ∀ e ∈ es, e.group = g) (hrest : ∀ e ∈ rest, e.group < g) :
    (es ++ rest).filter (fun e => e.group ≠ g) = rest := by
  have hdrop : es.filter (fun e => e.group ≠ g) = [] := by
    rw [List.filter_eq_nil_iff]
    simpa using hes
  have hkeep : rest.filter (fun e => e.group ≠ g) = rest := by
    rw [List.filter_eq_self]
    exact fun e he => decide_eq_true (Nat.ne_of_lt (hrest e he))
  rw [List.filter_append, hdrop, hkeep, List.nil_append]

/-- The oldest group is not the one on top, unless there is no other. -/
theorem dropOldest_append (hes : ∀ e ∈ es, e.group = g) (hrest : ∀ e ∈ rest, e.group < g)
    (hne : rest ≠ []) : dropOldest (es ++ rest) = es ++ dropOldest rest := by
  obtain ⟨e, back, hback⟩ := List.exists_cons_of_ne_nil (List.reverse_ne_nil_iff.mpr hne)
  have hlt : e.group < g :=
    hrest e (List.mem_reverse.mp (by rw [hback]; exact List.mem_cons_self))
  have hkeep : below e.group es.reverse = es.reverse := by
    cases hfront : es.reverse with
    | nil => rfl
    | cons f front =>
      have hf : f.group = g :=
        hes f (List.mem_reverse.mp (by rw [hfront]; exact List.mem_cons_self))
      rw [below, List.dropWhile_cons_of_neg]
      simp [hf, (Nat.ne_of_lt hlt).symm]
  have happend : below e.group ((e :: back) ++ es.reverse) =
      below e.group (e :: back) ++ es.reverse := by
    rw [below, List.dropWhile_append]
    split
    · next hnil =>
      rw [below, List.isEmpty_iff.mp hnil]
      exact hkeep
    · rfl
  rw [dropOldest, dropOldest, List.reverse_append, hback]
  show (below e.group ((e :: back) ++ es.reverse)).reverse = _
  rw [happend, List.reverse_append, List.reverse_reverse]

/-- One group alone is the oldest. -/
theorem dropOldest_group (hes : ∀ e ∈ es, e.group = g) : dropOldest es = [] := by
  rw [dropOldest]
  cases hback : es.reverse with
  | nil => rfl
  | cons e back =>
    have hall : ∀ f ∈ e :: back, f.group = e.group := by
      intro f hf
      rw [← hback, List.mem_reverse] at hf
      have he : e ∈ es := List.mem_reverse.mp (by rw [hback]; exact List.mem_cons_self)
      rw [hes f hf, hes e he]
    simp only [below]
    rw [List.dropWhile_eq_nil_iff.mpr (by simpa using hall), List.reverse_nil]

theorem mem_dropOldest {e : UndoEntry} (h : e ∈ dropOldest es) : e ∈ es := by
  rw [dropOldest] at h
  split at h
  · cases h
  · next f back hback =>
    rw [List.mem_reverse] at h
    rw [← List.mem_reverse, hback]
    exact List.dropWhile_subset _ h

theorem mem_dropOldestGroups {e : UndoEntry} (n : Nat) :
    ∀ {es : List UndoEntry}, e ∈ dropOldestGroups n es → e ∈ es := by
  induction n with
  | zero => exact fun h => h
  | succ n ih => exact fun h => mem_dropOldest (ih h)

theorem mem_trim {log : UndoLog} {e : UndoEntry} (h : e ∈ log.trim.entries) : e ∈ log.entries := by
  rw [trim] at h
  split at h
  · exact h
  · exact mem_dropOldestGroups _ h

@[simp] theorem trim_config (log : UndoLog) : log.trim.config = log.config := by
  rw [trim]
  split <;> rfl

@[simp] theorem trim_nextGroup (log : UndoLog) : log.trim.nextGroup = log.nextGroup := by
  rw [trim]
  split <;> rfl

/-- What the log is when a group was put on top. -/
theorem push_eq (log : UndoLog) (now : Instant) {ps : List Patch} (hne : ps ≠ []) :
    (log.push now ps).1 =
      { log with
        entries := ps.map (UndoEntry.mk log.nextGroup now) ++ log.entries
        nextGroup := log.nextGroup + 1 }.trim := by
  obtain ⟨p, ps, rfl⟩ := List.exists_cons_of_ne_nil hne
  rfl

@[simp] theorem push_config (log : UndoLog) (now : Instant) (ps : List Patch) :
    (log.push now ps).1.config = log.config := by
  cases ps with
  | nil => rfl
  | cons p ps => rw [push_eq log now (List.cons_ne_nil p ps), trim_config]

theorem push_nextGroup (log : UndoLog) (now : Instant) {ps : List Patch} (hne : ps ≠ []) :
    (log.push now ps).1.nextGroup = log.nextGroup + 1 := by
  rw [push_eq log now hne, trim_nextGroup]

/-- What is on the log when a group was put on top belongs to that group, or was there before. -/
theorem mem_push {log : UndoLog} {now : Instant} {ps : List Patch} (hne : ps ≠ []) {e : UndoEntry}
    (he : e ∈ (log.push now ps).1.entries) : e.group = log.nextGroup ∨ e ∈ log.entries := by
  rw [push_eq log now hne] at he
  refine (List.mem_append.mp (mem_trim he)).imp_left fun he => ?_
  obtain ⟨p, -, rfl⟩ := List.mem_map.mp he
  rfl

/-- An edit belongs to the entry on top if that is the only one of its group, sets the same input,
and was made at most one window before. -/
theorem debounces_eq_true_iff {log : UndoLog} {x inputName : String} {index : Option UInt32}
    {now : Instant} : log.debounces x inputName index now = true ↔
      ∃ top rest expression, log.entries = top :: rest ∧
        top.patch = .setNodeInput x inputName index expression ∧
        (topOf top.group (top :: rest)).length = 1 ∧
        0 ≤ Instant.elapsedMillis top.timestamp now ∧
        Instant.elapsedMillis top.timestamp now ≤ log.window := by
  rw [debounces]
  constructor
  · intro h
    split at h
    · cases h
    · next top rest hentries =>
      split at h
      · next topNode topInput topIndex expression hpatch =>
        simp only [Bool.and_eq_true, decide_eq_true_eq] at h
        obtain ⟨⟨⟨⟨⟨hone, rfl⟩, rfl⟩, rfl⟩, hfrom⟩, hto⟩ := h
        exact ⟨top, rest, expression, hentries, hpatch, hone, hfrom, hto⟩
      · cases h
  · rintro ⟨top, rest, expression, hentries, hpatch, hone, hfrom, hto⟩
    simp [hentries, hpatch, hone, hfrom, hto]

end UndoLog

/-! ### Chains -/

/-- Entries that lead from a tree through those that are saved under the numbers of their groups, in
whatever sense patches lead from one tree to another.  The groups of a log are numbered upwards, so
further back are the smaller numbers. -/
inductive Chain (leads : Tree → List Patch → Tree → Prop) (saved : Nat → Tree)
    (ends : Tree → Prop) :
    Tree → List UndoEntry → Prop where
  /-- Without entries the tree is one in which a chain may end. -/
  | nil {t : Tree} : ends t → Chain leads saved ends t []
  /-- A group leads to the tree that is saved under its number, and the chain goes on from there. -/
  | group {t : Tree} {g : Nat} {es rest : List UndoEntry} : es ≠ [] →
      (∀ e ∈ es, e.group = g) → (∀ e ∈ rest, e.group < g) →
      leads t (es.map UndoEntry.patch) (saved g) →
      Chain leads saved ends (saved g) rest → Chain leads saved ends t (es ++ rest)

namespace Chain

variable {leads : Tree → List Patch → Tree → Prop} {saved saved' : Nat → Tree}
  {ends : Tree → Prop} {t u : Tree} {entries : List UndoEntry} {log : UndoLog} {g : Nat}

/-- Only the trees that are saved under the numbers of the entries matter. -/
theorem congr (h : Chain leads saved ends t entries)
    (heq : ∀ e ∈ entries, saved' e.group = saved e.group) : Chain leads saved' ends t entries := by
  induction h with
  | nil hends => exact .nil hends
  | @group t g es rest hne hes hrest hleads _ ih =>
    obtain ⟨e, back, rfl⟩ := List.exists_cons_of_ne_nil hne
    have hg : saved' g = saved g := by
      rw [← hes e List.mem_cons_self]
      exact heq e (List.mem_append_left _ List.mem_cons_self)
    refine .group hne hes hrest (hg ▸ hleads) ?_
    rw [hg]
    exact ih fun f hf => heq f (List.mem_append_right _ hf)

/-- A chain may as well begin in a tree from which patches lead wherever they lead from its own. -/
theorem start_congr (hends : ends t → ends u) (hleads : ∀ ps t', leads t ps t' → leads u ps t')
    (h : Chain leads saved ends t entries) : Chain leads saved ends u entries := by
  cases h with
  | nil hend => exact .nil (hends hend)
  | group hne hes hrest hlead hchain => exact .group hne hes hrest (hleads _ _ hlead) hchain

/-- To forget the oldest group leaves a chain that may end where it ends now. -/
theorem dropOldest (hends : ∀ t, ends t) (h : Chain leads saved ends t entries) :
    Chain leads saved ends t (UndoLog.dropOldest entries) := by
  induction h with
  | nil hend => exact .nil hend
  | @group t g es rest hne hes hrest hleads _ ih =>
    by_cases hnil : rest = []
    · subst hnil
      rw [List.append_nil, UndoLog.dropOldest_group hes]
      exact .nil (hends t)
    · rw [UndoLog.dropOldest_append hes hrest hnil]
      exact .group hne hes (fun e he => hrest e (UndoLog.mem_dropOldest he)) hleads ih

theorem dropOldestGroups (hends : ∀ t, ends t) (n : Nat) : ∀ {entries : List UndoEntry},
    Chain leads saved ends t entries →
      Chain leads saved ends t (UndoLog.dropOldestGroups n entries) := by
  induction n with
  | zero => exact fun h => h
  | succ n ih => exact fun h => ih (h.dropOldest hends)

/-- A log that forgets groups keeps a chain, if one without all of its groups may end anywhere. -/
theorem trim (hends : log.config.maxGroups ≠ 0 → ∀ t, ends t)
    (h : Chain leads saved ends t log.entries) : Chain leads saved ends t log.trim.entries := by
  rw [UndoLog.trim]
  split
  · exact h
  · next hmax => exact h.dropOldestGroups (hends hmax) _

/-- Patches that lead to a saved tree are put on top as a group, under the number of that tree. -/
theorem push (hends : log.config.maxGroups ≠ 0 → ∀ t, ends t) {ps : List Patch} (hne : ps ≠ [])
    (hlt : ∀ e ∈ log.entries, e.group < log.nextGroup)
    (hleads : leads t ps (saved log.nextGroup))
    (h : Chain leads saved ends (saved log.nextGroup) log.entries) (now : Instant) :
    Chain leads saved ends t (log.push now ps).1.entries := by
  rw [UndoLog.push_eq log now hne]
  refine trim hends (group ?_ ?_ hlt ?_ h)
  · rw [ne_eq, List.map_eq_nil_iff]
    exact hne
  · intro e he
    obtain ⟨p, -, rfl⟩ := List.mem_map.mp he
    rfl
  · rw [List.map_map]
    exact (List.map_id' ps).symm ▸ hleads

/-- The group on top, and the chain behind it. -/
theorem pop (h : Chain leads saved ends t log.entries) (htop : log.top? = some g) :
    ∃ es rest, log.entries = es ++ rest ∧ es ≠ [] ∧ (∀ e ∈ es, e.group = g) ∧
      (∀ e ∈ rest, e.group < g) ∧ leads t (es.map UndoEntry.patch) (saved g) ∧
        Chain leads saved ends (saved g) rest := by
  rw [UndoLog.top?, UndoLog.peek?] at htop
  generalize log.entries = entries at h htop
  cases h with
  | nil _ => cases htop
  | @group _ g' es rest hne hes hrest hleads hchain =>
    obtain ⟨e, back, rfl⟩ := List.exists_cons_of_ne_nil hne
    have hg : g' = g := (hes e List.mem_cons_self).symm.trans (Option.some.inj htop)
    subst hg
    exact ⟨_, rest, rfl, hne, hes, hrest, hleads, hchain⟩

/-- An edit that belongs to the entry on top leaves the chain: the entry brings back the tree that
was there before both edits. -/
theorem debounced {defs : Definitions} (h : Tree.Linked defs t)
    (hchain : Chain (Tree.Replays defs) saved ends t log.entries)
    {x inputName : String} {index : Option UInt32} {now : Instant} {n : Node}
    (hdeb : log.debounces x inputName index now = true) (hn : t.nodes.get? x = some n)
    (e : Option TypedExpression) :
    Chain (Tree.Replays defs) saved ends
      (t.put x (n.bind ⟨inputName, index.map UInt32.toNat⟩ e)) log.entries := by
  obtain ⟨top, back, expression, hentries, hpatch, hone, -⟩ := UndoLog.debounces_eq_true_iff.mp hdeb
  have htop : log.top? = some top.group := by
    rw [UndoLog.top?, UndoLog.peek?, hentries]
    rfl
  obtain ⟨es, rest, happend, hne, hes, hrest, hreplays, hchain⟩ := hchain.pop htop
  -- the group is the entry on top alone
  have hes' : es = [top] := by
    rw [← hentries, happend, UndoLog.topOf_append hes hrest] at hone
    obtain ⟨e, rfl⟩ := List.length_eq_one_iff.mp hone
    rw [hentries, List.singleton_append] at happend
    rw [(List.cons.inj happend).1]
  subst hes'
  rw [List.map_singleton, hpatch] at hreplays
  obtain ⟨d, hd, htree⟩ := hreplays { tree := t } rfl
  rw [List.foldlM_cons] at hd
  obtain ⟨d', hd', hd⟩ := Outcome.bind_eq_ok.mp hd
  cases hd
  obtain ⟨m, f, hm, ha, hok, hsaved⟩ :=
    (Draft.setInput_eq_ok_iff (d := { tree := t }) h).mp ⟨d, hd', rfl⟩
  rw [hn, Option.some.injEq] at hm
  subst hm
  rw [happend]
  refine .group hne hes hrest ?_ hchain
  rw [List.map_singleton, hpatch, ← htree, hsaved]
  exact Tree.setInput_replays h hn ha hok e

end Chain

end SlotTree
