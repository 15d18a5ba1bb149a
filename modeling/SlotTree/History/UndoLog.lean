import SlotTree.Clock
import SlotTree.History.Config
import SlotTree.Patch.Basic

/-!
# Undo log

A stack of groups of patches.  Every edit pushes one group: the patches that take it back, in the
order in which they are to be applied.  An undo takes one group off.

The groups are not kept apart.  The log is one list of entries, the next one to apply first, and the
entries of a group carry the same number.  Numbers grow from group to group, so neighbouring entries
belong together exactly when their numbers are equal.

An edit of an input that was edited shortly before pushes nothing: the entry on top already brings
back the value from before both edits.

## Main definitions

* `UndoEntry`, `UndoLog` — entries and logs.
* `UndoLog.push`, `UndoLog.pop?`, `UndoLog.restore` — put a group on, take one off, put it back.
* `UndoLog.debounces` — whether an edit belongs to the entry on top.
* `UndoLog.groupCount` — the number of groups.
-/

namespace SlotTree

/-- A patch that is kept for undoing. -/
structure UndoEntry where
  /-- The number of its group. -/
  group : Nat
  /-- When the edit was made that it takes back. -/
  timestamp : Instant
  /-- The patch. -/
  patch : Patch
  deriving Repr, Inhabited

/-- The patches that are kept for undoing. -/
structure UndoLog where
  /-- The entries, the next one to apply first. -/
  entries : List UndoEntry := []
  /-- The number of the next group. -/
  nextGroup : Nat := 0
  /-- The options. -/
  config : UndoConfig := {}
  deriving Repr, Inhabited

namespace UndoLog

/-! ### Groups -/

/-- The number of runs of entries of one group, behind an entry of some group. -/
def runsAfter (group : Nat) : List UndoEntry → Nat
  | [] => 0
  | e :: rest => (if e.group = group then 0 else 1) + runsAfter e.group rest

/-- The number of runs of entries of one group. -/
def runs : List UndoEntry → Nat
  | [] => 0
  | e :: rest => 1 + runsAfter e.group rest

/-- The number of groups. -/
def groupCount (log : UndoLog) : Nat := runs log.entries

/-- The entries at the front that belong to a group. -/
def topOf (group : Nat) (entries : List UndoEntry) : List UndoEntry :=
  entries.takeWhile fun e => e.group = group

/-- The entries behind those at the front that belong to a group. -/
def below (group : Nat) (entries : List UndoEntry) : List UndoEntry :=
  entries.dropWhile fun e => e.group = group

/-- The entries without the group that was pushed first. -/
def dropOldest (entries : List UndoEntry) : List UndoEntry :=
  match entries.reverse with
  | [] => []
  | e :: rest => (below e.group (e :: rest)).reverse

/-- The entries without so many of the groups that were pushed first. -/
def dropOldestGroups : Nat → List UndoEntry → List UndoEntry
  | 0, entries => entries
  | n + 1, entries => dropOldestGroups n (dropOldest entries)

/-- The log with no more groups than its options allow. -/
def trim (log : UndoLog) : UndoLog :=
  if log.config.maxGroups = 0 then log
  else
    { log with
      entries := dropOldestGroups (log.groupCount - log.config.maxGroups.toNat) log.entries }

/-! ### The stack -/

/-- Put a group on, given in the order in which it is to be applied.  No patches make no group. -/
def push (log : UndoLog) (timestamp : Instant) (patches : List Patch) : UndoLog × Option Nat :=
  match patches with
  | [] => (log, none)
  | patches =>
    let group := log.nextGroup
    let entries := patches.map fun patch => UndoEntry.mk group timestamp patch
    ({ log with entries := entries ++ log.entries, nextGroup := group + 1 }.trim, some group)

/-- Take the group on top off. -/
def pop? (log : UndoLog) : Option (List UndoEntry × UndoLog) :=
  match log.entries with
  | [] => none
  | e :: rest =>
    some (topOf e.group (e :: rest), { log with entries := below e.group (e :: rest) })

/-- Put a group back that was taken off. -/
def restore (log : UndoLog) (group : List UndoEntry) : UndoLog :=
  { log with entries := group ++ log.entries }

/-- The entry that the next undo starts with. -/
def peek? (log : UndoLog) : Option UndoEntry := log.entries.head?

/-- Forget all groups. -/
def clear (log : UndoLog) : UndoLog := { log with entries := [] }

/-- The number of entries. -/
def size (log : UndoLog) : Nat := log.entries.length

/-- Whether there is nothing to undo. -/
def isEmpty (log : UndoLog) : Bool := log.entries.isEmpty

/-! ### Debouncing -/

/-- The time, in milliseconds, for which edits of one input belong together.  It is taken as a
signed number of 64 bits, so half of the settings are negative and let no edits belong together. -/
def window (log : UndoLog) : Int := log.config.debounceMs.toInt64.toInt

/-- Whether an edit of an input, made now, belongs to the entry on top: that is the only one of its
group, it sets the same input, and it was made at most one window before. -/
def debounces (log : UndoLog) (nodeId inputName : String) (index : Option UInt32) (now : Instant) :
    Bool :=
  match log.entries with
  | [] => false
  | top :: rest =>
    match top.patch with
    | .setNodeInput topNode topInput topIndex _ =>
      let elapsed := Instant.elapsedMillis top.timestamp now
      (topOf top.group (top :: rest)).length = 1 && topNode = nodeId && topInput = inputName &&
        topIndex = index && 0 ≤ elapsed && elapsed ≤ log.window
    | _ => false

end UndoLog

end SlotTree
