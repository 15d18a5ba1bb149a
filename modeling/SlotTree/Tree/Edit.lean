import SlotTree.Patch.Basic
import SlotTree.Tree.Visibility

/-!
# Edits of a tree

What every kind of patch does to a tree.  An edit works on a `Draft`: the tree as far as it has been
changed, and the ids of the nodes that have changed, each once, in the order of their first change.
An edit that fails gives an error and no draft.

## Main definitions

* `Draft` — a tree under change.
* `Tree.freshId` — an id for a new node.
* `Draft.create`, `Draft.delete`, `Draft.rename`, `Draft.setInput` — the edits.
* `Draft.apply` — the edit of a patch.
-/

namespace SlotTree

/-! ### Ids -/

/-- The first id of the form stem and number that is not in use, from a number on; the number is
tried as many times as is said. -/
def Tree.freshIdFrom (t : Tree) (stem : String) : Nat → Nat → String
  | 0, n => stem ++ toString n
  | tries + 1, n =>
    if t.has (stem ++ toString n) then freshIdFrom t stem tries (n + 1) else stem ++ toString n

/-- The stem and the smallest positive number that make an id not in use.  With as many nodes as
there are, one more number than nodes suffices. -/
def Tree.freshId (t : Tree) (stem : String) : String := t.freshIdFrom stem t.size 1

/-! ### Drafts -/

/-- A tree under change. -/
structure Draft where
  /-- The tree as it is now. -/
  tree : Tree
  /-- The ids of created, changed and deleted nodes, in order. -/
  changed : List String := []
  deriving Repr, Inhabited

namespace Draft

/-- Note that a node has changed. -/
def touch (d : Draft) (id : String) : Draft :=
  if id ∈ d.changed then d else { d with changed := d.changed ++ [id] }

/-- Note that some nodes have changed. -/
def touchAll (d : Draft) (ids : List String) : Draft := ids.foldl touch d

/-- Put a node under an id. -/
def put (d : Draft) (id : String) (n : Node) : Draft := { d with tree := d.tree.put id n }

/-- Take the node under an id away. -/
def drop (d : Draft) (id : String) : Draft := { d with tree := d.tree.drop id }

/-- Take a node away and note it. -/
def discard (d : Draft) (id : String) : Draft := (d.drop id).touch id

/-- Give a child its new link. -/
def moveChild (d : Draft) (child : String × ParentLink) : Except DocumentError Draft := do
  let n ← d.tree.node child.1
  return (d.put child.1 (n.moveTo child.2)).touch child.1

/-- Give the children that moved their new links. -/
def moveChildren (d : Draft) (moved : MovedChildren) : Except DocumentError Draft :=
  moved.entries.foldlM moveChild d

/-! ### Creating and deleting -/

/-- Create a node: the root of an empty tree, or a child of a node. -/
def create (d : Draft) (defs : Definitions) (nodeType : String) (parent : Option PatchParent)
    (nodeId : String) : Except DocumentError Draft := do
  let schema ← (defs.node nodeType).mapError .schema
  if d.tree.has nodeId then throw (.idAlreadyExists nodeId)
  match parent with
  | none =>
    if d.tree.root.isSome then throw .documentNotEmpty
    let d := d.put nodeId (.empty schema nodeId none)
    return { d with tree := { d.tree with root := some nodeId } }.touch nodeId
  | some parent =>
    let n ← d.tree.node parent.nodeId
    let (n, link, moved) ←
      (n.addChild nodeId parent.slotName (parent.index.map UInt32.toNat)).mapError .node
    let d := (d.put parent.nodeId n).put nodeId (.empty schema nodeId (some link))
    ((d.touch parent.nodeId).touch nodeId).moveChildren moved

/-- Delete a node and all nodes below it. -/
def delete (d : Draft) (nodeId : String) : Except DocumentError Draft := do
  let n ← d.tree.node nodeId
  match n.parent with
  | none => return { d.touchAll d.tree.keys with tree := {} }
  | some link =>
    let parent ← d.tree.node link.nodeId
    let (parent, moved) ← (parent.removeChild link.slotName link.index).mapError .node
    let d ← ((d.put link.nodeId parent).touch link.nodeId).moveChildren moved
    return (d.tree.breadthFirst nodeId).foldl discard d

/-! ### Bindings -/

/-- Point one binding of a node at another node, if it refers to the old one.  The expression is
checked again, as a binding of the node as it stands in the tree; `updated` is the node with the
bindings that were changed before. -/
def retargetBinding (d : Draft) (defs : Definitions) (old new : String) (n : Node)
    (updated : Option Node) (binding : InputAddress × TypedExpression) :
    Except DocumentError (Option Node) :=
  match binding.2.retarget? old new with
  | none => .ok updated
  | some e => do
    let e ← d.tree.checkInput defs n binding.1.name e
    let n ← ((updated.getD n).setInput (some e) binding.1).mapError .node
    return some n

/-- Point the bindings of a node at another node, where they refer to the old one. -/
def retargetNode (defs : Definitions) (old new : String) (d : Draft) (nodeId : String) :
    Except DocumentError Draft := do
  let n ← d.tree.node nodeId
  match ← n.boundInputs.foldlM (d.retargetBinding defs old new n) none with
  | some n => return (d.put nodeId n).touch nodeId
  | none => return d

/-- Point the bindings of a node and of all nodes below it at a new id of the node. -/
def retargetBelow (d : Draft) (defs : Definitions) (old new : String) :
    Except DocumentError Draft :=
  (d.tree.breadthFirst new).foldlM (retargetNode defs old new) d

/-- Bind an input of a node, or clear it. -/
def setInput (d : Draft) (defs : Definitions) (nodeId inputName : String) (index : Option UInt32)
    (expression : Option Expression) : Except DocumentError Draft := do
  let n ← d.tree.node nodeId
  let e ← match expression with
    | some e => (d.tree.checkInput defs n inputName e).map some
    | none => pure none
  let n ← (n.setInput e ⟨inputName, index.map UInt32.toNat⟩).mapError .node
  return (d.put nodeId n).touch nodeId

/-! ### Renaming -/

/-- Give a node another id: in the tree, in its parent or as the root, in the links of its children,
and in the bindings below it. -/
def rename (d : Draft) (defs : Definitions) (nodeId newId : String) :
    Except DocumentError Draft := do
  let n ← d.tree.node nodeId
  if d.tree.has newId then throw (.idAlreadyExists newId)
  let (renamed, moved) := n.rename newId
  let d := (((d.drop nodeId).put newId renamed).touch nodeId).touch newId
  let d ← match n.parent with
    | some link => do
      let parent ← d.tree.node link.nodeId
      let parent ← (parent.renameChild newId link.slotName link.index).mapError .node
      pure ((d.put link.nodeId parent).touch link.nodeId)
    | none => pure { d with tree := { d.tree with root := some newId } }
  let d ← d.moveChildren moved
  d.retargetBelow defs nodeId newId

/-! ### Patches -/

/-- The edit of a patch. -/
def apply (d : Draft) (defs : Definitions) : Patch → Except DocumentError Draft
  | .createNode nodeType parent (some nodeId) => d.create defs nodeType parent nodeId
  | .createNode nodeType parent none => do
    let schema ← (defs.node nodeType).mapError .schema
    d.create defs nodeType parent (d.tree.freshId schema.idStem)
  | .deleteNode nodeId => d.delete nodeId
  | .renameNode nodeId newId => d.rename defs nodeId newId
  | .setNodeInput nodeId inputName index expression =>
    d.setInput defs nodeId inputName index expression

end Draft

end SlotTree
