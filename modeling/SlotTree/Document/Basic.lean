import SlotTree.History.UndoLog
import SlotTree.Tree.Inverse

/-!
# Documents

A document is a tree of nodes that is changed by patches.  It counts its versions, and keeps for
every patch the patches that take it back.

A patch is applied as a whole or not at all.  One that is applied gives the document after it, and a
`Commit`, which says what to tell those who listen: first which nodes have changed, then every
patch.

## Main definitions

* `Document`, `Document.new` — documents, and an empty one.
* `Document.apply` — apply a patch at some time.
* `Document.undo` — take the last group of patches back.
* `Commit`, `Notice`, `Commit.notices` — what is told about a change.
-/

namespace SlotTree

/-- A tree of nodes with its history. -/
structure Document where
  /-- The name. -/
  name : String
  /-- What names refer to. -/
  definitions : Definitions
  /-- The nodes. -/
  tree : Tree := {}
  /-- The number of changes so far. -/
  version : Nat := 0
  /-- What can be undone. -/
  log : UndoLog := {}
  deriving Repr, Inhabited

/-- A change that was made. -/
structure Commit where
  /-- The version after the change. -/
  version : Nat
  /-- The ids of created, changed and deleted nodes, each once. -/
  changed : List String
  /-- The patches that were applied, in order. -/
  patches : List Patch
  deriving Repr, Inhabited

/-- What those who listen to a document are told. -/
inductive Notice where
  /-- Some nodes have changed. -/
  | change (ids : List String) : Notice
  /-- A patch was applied. -/
  | patch (p : Patch) : Notice
  deriving Repr, Inhabited

/-- What is told about a change, in order. -/
def Commit.notices (c : Commit) : List Notice := .change c.changed :: c.patches.map .patch

namespace Document

/-- An empty document. -/
def new (name : String) (definitions : Definitions) (config : DocumentConfig := {}) : Document :=
  { name, definitions, log := { config := config.undo } }

/-- Whether there is anything to undo. -/
def canUndo (doc : Document) : Bool := !doc.log.isEmpty

/-- The patch with which the next undo begins. -/
def peekUndo? (doc : Document) : Option Patch := doc.log.peek?.map UndoEntry.patch

/-! ### Patches -/

/-- Give a node that is to be created an id, if it has none. -/
def assignId (doc : Document) : Patch → Except DocumentError Patch
  | .createNode nodeType parent none => do
    let schema ← (doc.definitions.node nodeType).mapError .schema
    return .createNode nodeType parent (some (doc.tree.freshId schema.idStem))
  | p => .ok p

/-- Keep the patches that take a patch back, unless it belongs to the edit before it. -/
def record (doc : Document) (p : Patch) (inverses : List Patch) (now : Instant) : UndoLog :=
  let folded := match p with
    | .setNodeInput nodeId inputName index _ => doc.log.debounces nodeId inputName index now
    | _ => false
  if folded then doc.log else (doc.log.push now inverses).1

/-- Apply a patch. -/
def apply (doc : Document) (now : Instant) (p : Patch) :
    Except DocumentError (Document × Commit) := do
  let p ← doc.assignId p
  let inverses ← doc.tree.inverses doc.log.config.recordFirstBinding p
  let d ← Draft.apply { tree := doc.tree } doc.definitions p
  let version := doc.version + 1
  return ({ doc with tree := d.tree, version, log := doc.record p inverses now },
    { version, changed := d.changed, patches := [p] })

/-! ### Undoing -/

/-- Take the last group of patches back, as one change.  Gives nothing if there is no group.  An
undo cannot be undone. -/
def undo (doc : Document) : Except DocumentError (Option (Document × Commit)) :=
  match doc.log.pop? with
  | none => .ok none
  | some (group, log) => do
    let patches := group.map UndoEntry.patch
    let start : Draft := { tree := doc.tree }
    let d ← patches.foldlM (fun d p => d.apply doc.definitions p) start
    let version := doc.version + 1
    return some ({ doc with tree := d.tree, version, log },
      { version, changed := d.changed, patches })

end Document

end SlotTree
