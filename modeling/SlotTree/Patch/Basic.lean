import SlotTree.Expression.Basic

/-!
# Patches

The edits of a document.  Every edit is undone by other patches, so each of them can also be the
inverse of another.

## Main definitions

* `Patch`, `PatchParent` — patches.
* `Patch.kind`, `Patch.display` — their names and texts.
-/

namespace SlotTree

/-- Where a new node is attached. -/
structure PatchParent where
  /-- The id of the parent. -/
  nodeId : String
  /-- The slot of the parent. -/
  slotName : String
  /-- The position in a collection slot; last, if it is left out. -/
  index : Option UInt32 := none
  deriving DecidableEq, Repr, Inhabited

/-- An edit of a document. -/
inductive Patch where
  /-- Create a node.  Without a parent it becomes the root; without an id it is given one. -/
  | createNode (nodeType : String) (parent : Option PatchParent) (nodeId : Option String) : Patch
  /-- Delete a node and all nodes below. -/
  | deleteNode (nodeId : String) : Patch
  /-- Give a node another id. -/
  | renameNode (nodeId newId : String) : Patch
  /-- Bind an input, or clear it if there is no expression. -/
  | setNodeInput (nodeId inputName : String) (index : Option UInt32)
      (expression : Option Expression) : Patch
  deriving Repr, Inhabited

namespace Patch

/-- Create a root. -/
def createRoot (nodeType : String) : Patch := .createNode nodeType none none

/-- Create a child, last in its slot. -/
def createChild (nodeType parentId slotName : String) : Patch :=
  .createNode nodeType (some { nodeId := parentId, slotName }) none

/-- The name of a patch's kind. -/
def kind : Patch → String
  | .createNode _ _ _ => "create-node"
  | .deleteNode _ => "delete-node"
  | .renameNode _ _ => "rename-node"
  | .setNodeInput _ _ _ _ => "set-node-input"

/-- A position in brackets, if there is one. -/
def displayIndex : Option UInt32 → String
  | none => ""
  | some i => "[" ++ toString i.toNat ++ "]"

/-- The text of a patch. -/
def display : Patch → String
  | .createNode nodeType parent nodeId =>
    let id := match nodeId with
      | some id => " '" ++ id ++ "'"
      | none => ""
    let place := match parent with
      | some p => " in " ++ p.nodeId ++ "." ++ p.slotName ++ displayIndex p.index
      | none => " as root"
    "create " ++ nodeType ++ id ++ place
  | .deleteNode nodeId => "delete '" ++ nodeId ++ "'"
  | .renameNode nodeId newId => "rename '" ++ nodeId ++ "' to '" ++ newId ++ "'"
  | .setNodeInput nodeId inputName index expression =>
    "set " ++ nodeId ++ "." ++ inputName ++ displayIndex index ++
      (if expression.isNone then " (clear)" else "")

end Patch

end SlotTree
