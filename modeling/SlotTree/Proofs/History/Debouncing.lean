import Mathlib.Algebra.Group.Nat.Defs
import SlotTree.Proofs.History.GroupStack

/-!
# Debouncing

Whether an edit of an input belongs to what is on top of a log, in terms of the groups that the log
stands for: the group on top has to be one patch for the same input, and the edit may come so many
milliseconds after it as the window allows.

The window is a signed number of 64 bits.  Half of the settings are what they say.  The others, from
2 ^ 63 milliseconds on, make the window negative, and no edit belongs to any other.

## Main definitions

* `PatchGroup.Absorbs` — a group to which an edit belongs.

## Main results

* `UndoLog.window_eq`, `UndoLog.window_neg` — the settings.
* `UndoLog.Flattens.debounces_iff` — when a log takes an edit for one that belongs to its top.
* `UndoLog.debounces_run` — the same for logs in use, and what a longer window does.
-/

namespace SlotTree

/-! ### The window -/

namespace UndoLog

variable {log : UndoLog}

/-- Half of the settings are what they say. -/
theorem window_eq (h : log.config.debounceMs.toNat < 2 ^ 63) :
    log.window = log.config.debounceMs.toNat := by
  have hbits : 2 * log.config.debounceMs.toBitVec.toNat < 2 ^ 64 := by
    rw [UInt64.toNat_toBitVec]
    omega
  exact BitVec.toInt_eq_toNat_of_lt hbits

/-- The other half makes the window negative. -/
theorem window_neg (h : 2 ^ 63 ≤ log.config.debounceMs.toNat) : log.window < 0 := by
  show log.config.debounceMs.toBitVec.toInt < 0
  rw [BitVec.toInt_eq_toNat_cond, UInt64.toNat_toBitVec, if_neg (by omega)]
  have := log.config.debounceMs.toNat_lt
  omega

/-- What is not later than the window allows comes within so many milliseconds as the settings
say, and the settings are among those that are what they say. -/
theorem le_window_iff {elapsed : Int} (h : 0 ≤ elapsed) : elapsed ≤ log.window ↔
    log.config.debounceMs.toNat < 2 ^ 63 ∧ elapsed ≤ log.config.debounceMs.toNat := by
  rcases Nat.lt_or_ge log.config.debounceMs.toNat (2 ^ 63) with hlt | hge
  · rw [window_eq hlt, and_iff_right hlt]
  · have := window_neg hge
    omega

/-- An edit belongs to an entry of its input that is a group alone if it is not later than the
window allows. -/
theorem debounces_cons {top : UndoEntry} {rest : List UndoEntry} {x inputName : String}
    {index : Option UInt32} {expression : Option Expression} {now : Instant}
    (hentries : log.entries = top :: rest)
    (hpatch : top.patch = .setNodeInput x inputName index expression)
    (hrest : ∀ e ∈ rest, e.group < top.group) :
    log.debounces x inputName index now = true ↔
      0 ≤ Instant.elapsedMillis top.timestamp now ∧
        Instant.elapsedMillis top.timestamp now ≤ log.window := by
  have hone : topOf top.group ([top] ++ rest) = [top] :=
    topOf_append (fun e he => congrArg UndoEntry.group (List.mem_singleton.mp he)) hrest
  rw [List.singleton_append] at hone
  rw [debounces, hentries]
  simp [hpatch, hone]

end UndoLog

/-! ### Groups -/

/-- An edit of an input, made now, belongs to a group if the group sets the same input and does
nothing else, and the edit comes not before it and at most so many whole milliseconds after it. -/
structure PatchGroup.Absorbs (g : PatchGroup) (nodeId inputName : String) (index : Option UInt32)
    (now : Instant) (millis : Nat) : Prop where
  /-- The group is one patch, which sets the input. -/
  patches : ∃ expression, g.patches = [.setNodeInput nodeId inputName index expression]
  /-- The edit does not come before the group. -/
  nonneg : 0 ≤ Instant.elapsedMillis g.timestamp now
  /-- It is not too late. -/
  le : Instant.elapsedMillis g.timestamp now ≤ millis

variable {nodeId inputName : String} {index : Option UInt32} {now : Instant}

/-- What belongs to a group belongs to it under a longer window, too. -/
theorem PatchGroup.Absorbs.mono {g : PatchGroup} {millis millis' : Nat}
    (h : g.Absorbs nodeId inputName index now millis) (hle : millis ≤ millis') :
    g.Absorbs nodeId inputName index now millis' where
  patches := h.patches
  nonneg := h.nonneg
  le := h.le.trans (Int.ofNat_le.mpr hle)

namespace UndoLog

/-- A log takes an edit for one that belongs to its top if the edit belongs to the group on top of
the stack, and the window is one of those that are what they say. -/
theorem Flattens.debounces_iff {log : UndoLog} {s : GroupStack} (h : Flattens log s) :
    log.debounces nodeId inputName index now = true ↔ log.config.debounceMs.toNat < 2 ^ 63 ∧
      ∃ g, s.top? = some g ∧ g.Absorbs nodeId inputName index now log.config.debounceMs.toNat := by
  have hentries := h.entries
  rw [debounces_eq_true_iff, GroupStack.top?]
  cases hs : s.groups with
  | nil =>
    rw [hs, PatchGroup.flatten_nil] at hentries
    simp [hentries]
  | cons g rest =>
    obtain ⟨p, ps, hpatches⟩ := List.exists_cons_of_ne_nil g.nonempty
    have hfront : log.entries = ⟨g.number, g.timestamp, p⟩ ::
        (ps.map (UndoEntry.mk g.number g.timestamp) ++ PatchGroup.flatten rest) := by
      rw [hentries, hs, PatchGroup.flatten_cons, PatchGroup.entries, hpatches]
      rfl
    -- the entries that are counted are those of the group on top
    have hcount : (topOf g.number log.entries).length = (p :: ps).length := by
      rw [hentries, hs, PatchGroup.flatten_cons,
        topOf_append (fun _ => PatchGroup.group_of_mem_entries)
          fun e he => PatchGroup.lt_of_mem_flatten (hs ▸ h.descending) he,
        PatchGroup.entries, List.length_map, hpatches]
    simp only [List.head?_cons, Option.some.injEq, exists_eq_left']
    constructor
    · rintro ⟨top, back, expression, heq, hpatch, hone, hfrom, hto⟩
      rw [← heq] at hone
      rw [hfront, List.cons.injEq] at heq
      obtain ⟨rfl, -⟩ := heq
      cases hpatch
      have hnil : ps = [] := List.length_eq_zero_iff.mp (Nat.succ.inj (hcount.symm.trans hone))
      obtain ⟨hlt, hle⟩ := (le_window_iff hfrom).mp hto
      exact ⟨hlt, ⟨expression, hnil ▸ hpatches⟩, hfrom, hle⟩
    · rintro ⟨hlt, ⟨expression, hpatch⟩, hfrom, hle⟩
      cases hpatches.symm.trans hpatch
      refine ⟨_, _, expression, hfront, rfl, ?_, hfrom, (le_window_iff hfrom).mpr ⟨hlt, hle⟩⟩
      rw [← hfront]
      exact hcount

/-- The options of a log stay what they are. -/
theorem config_reply (log : UndoLog) (u : Use) : (log.reply u).1.config = log.config := by
  cases u with
  | push timestamp patches => exact push_config log timestamp patches
  | clear => rfl
  | pop | popAndRestore =>
    rw [reply, pop?]
    cases log.entries <;> rfl

theorem config_run (uses : List Use) : ∀ log : UndoLog,
    (Use.run reply log uses).1.config = log.config := by
  induction uses with
  | nil => exact fun _ => rfl
  | cons u rest ih => exact fun log => (ih _).trans (config_reply log u)

/-- However a new log has been used, it takes an edit for one that belongs to its top exactly if the
window is below 2 ^ 63 milliseconds, and the edit belongs to the group on top.  So with a longer
window below that bound, what belonged to the top still does. -/
theorem debounces_run (config : UndoConfig) (uses : List Use) (nodeId inputName : String)
    (index : Option UInt32) (now : Instant) :
    let log (millis : UInt64) :=
      (Use.run UndoLog.reply { config := { config with debounceMs := millis } } uses).1
    let stack := (Use.run GroupStack.reply { capacity := config.maxGroups.toNat } uses).1
    (∀ millis, (log millis).debounces nodeId inputName index now = true ↔
      millis.toNat < 2 ^ 63 ∧
        ∃ g, stack.top? = some g ∧ g.Absorbs nodeId inputName index now millis.toNat) ∧
    ∀ millis millis', millis.toNat ≤ millis'.toNat → millis'.toNat < 2 ^ 63 →
      (log millis).debounces nodeId inputName index now = true →
        (log millis').debounces nodeId inputName index now = true := by
  intro log stack
  have hiff (millis : UInt64) : (log millis).debounces nodeId inputName index now = true ↔
      millis.toNat < 2 ^ 63 ∧
        ∃ g, stack.top? = some g ∧ g.Absorbs nodeId inputName index now millis.toNat := by
    obtain ⟨hflat, -⟩ := (Flattens.new { config with debounceMs := millis }).run uses
    rw [hflat.debounces_iff, config_run]
  refine ⟨hiff, fun millis millis' hle hlt hdeb => ?_⟩
  obtain ⟨-, g, hg, habsorbs⟩ := (hiff millis).mp hdeb
  exact (hiff millis').mpr ⟨hlt, g, hg, habsorbs.mono hle⟩

/-- Under the longest window that can be set, an edit of a label a tenth of a second after the one
on top does not belong to it, though it comes within the window.  Under half that window it does. -/
theorem not_debounces_longest :
    let uses : List Use := [.push 0 [.setNodeInput "A" "label" none (some (.string "old"))]]
    let log (millis : UInt64) :=
      (Use.run UndoLog.reply { config := { debounceMs := millis } } uses).1
    let stack := (Use.run GroupStack.reply { capacity := 100 } uses).1
    (∃ g, stack.top? = some g ∧
      g.Absorbs "A" "label" none 100000 (18446744073709551615 : UInt64).toNat) ∧
    (log 18446744073709551615).debounces "A" "label" none 100000 = false ∧
    (log 9223372036854775807).debounces "A" "label" none 100000 = true := by
  intro uses log stack
  refine ⟨⟨_, rfl, ⟨_, rfl⟩, ?_, ?_⟩, ?_, ?_⟩
  all_goals decide

end UndoLog

end SlotTree
