import SlotTree.Tree.Edit

/-!
# Inverse patches

The patches that take an edit back.  They are found from the tree before the edit, and applied one
after the other to the tree after it.

## Main definitions

* `Tree.recreation` — the patches that bring a deleted node back, with all below it.
* `Tree.inverses` — the patches that take a patch back.
-/

namespace SlotTree.Tree

/-- The patch that creates a node at its place. -/
def creationOf (n : Node) : Patch :=
  .createNode n.nodeType
    (n.parent.map fun link =>
      { nodeId := link.nodeId, slotName := link.slotName, index := link.index.map UInt32.ofNat })
    (some n.id)

/-- The patch that binds an address of a node. -/
def bindingOf (nodeId : String) (binding : InputAddress × TypedExpression) : Patch :=
  .setNodeInput nodeId binding.1.name (binding.1.index.map UInt32.ofNat) (some binding.2.erase)

/-- The bindings of a collection slot that belong to the child at some position. -/
def bindingsOfChild (parent : Node) (slotName : String) (index : Nat) :
    List (InputAddress × TypedExpression) :=
  (parent.schema.collectionInputs slotName).filterMap fun input =>
    (parent.input? ⟨input.1, some index⟩).map fun e => (⟨input.1, some index⟩, e)

/-- The patches that bring a node back: every node below it, parents first, then all bindings, and
last those that its parent keeps for it. -/
def recreation (t : Tree) (nodeId : String) : Except DocumentError (List Patch) := do
  let n ← t.node nodeId
  let subtree ← t.depthFirst t.size n
  let inner := subtree.map creationOf ++
    subtree.flatMap fun m => m.boundInputs.map (bindingOf m.id)
  match n.parent with
  | some ⟨parentId, slotName, some index⟩ =>
    let parent ← t.node parentId
    return inner ++ (bindingsOfChild parent slotName index).map (bindingOf parentId)
  | _ => return inner

/-- The patches that take a patch back.  If first bindings are not recorded, there are none for an
input that has no value yet. -/
def inverses (t : Tree) (recordFirstBinding : Bool) : Patch → Except DocumentError (List Patch)
  | .createNode _ _ nodeId => .ok (nodeId.toList.map .deleteNode)
  | .deleteNode nodeId => t.recreation nodeId
  | .renameNode nodeId newId => .ok [.renameNode newId nodeId]
  | .setNodeInput nodeId inputName index _ => do
    let n ← t.node nodeId
    match n.input? ⟨inputName, index.map UInt32.toNat⟩ with
    | some e => return [.setNodeInput nodeId inputName index (some e.erase)]
    | none =>
      return if recordFirstBinding then [.setNodeInput nodeId inputName index none] else []

end SlotTree.Tree
