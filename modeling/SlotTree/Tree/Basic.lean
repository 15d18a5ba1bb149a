import SlotTree.Node.Edit
import SlotTree.Document.Error

/-!
# Trees

The nodes of a document under their ids, and the id of the root.

Nodes name their parents and their children by ids, so a tree is walked by looking ids up.  Every
walk is bounded by the number of nodes, which no walk in a tree exceeds.

## Main definitions

* `Tree`, `Tree.node`, `Tree.put` — trees, look-up and replacement of nodes.
* `Tree.breadthFirst`, `Tree.keys` — the ids below a node, and all ids, level by level.
* `Tree.depthFirst` — a node and all nodes below it, each before its children.
* `Tree.ancestorLinks` — the way from the root to a node.
-/

namespace SlotTree

/-- Nodes under their ids, and the id of the root. -/
structure Tree where
  /-- The id of the root, if there are any nodes. -/
  root : Option String := none
  /-- The nodes. -/
  nodes : SortedMap Node := .empty
  deriving Repr, Inhabited

namespace Tree

/-- The number of nodes. -/
def size (t : Tree) : Nat := t.nodes.size

/-- Whether there are no nodes. -/
def isEmpty (t : Tree) : Bool := t.nodes.isEmpty

/-- Whether an id is in use. -/
def has (t : Tree) (id : String) : Bool := t.nodes.contains id

/-- The node with an id. -/
def node (t : Tree) (id : String) : Except DocumentError Node :=
  match t.nodes.get? id with
  | some n => .ok n
  | none => .error (.nodeNotFound id)

/-- The tree with a node under an id, in place of any other. -/
def put (t : Tree) (id : String) (n : Node) : Tree := { t with nodes := t.nodes.insert id n }

/-- The tree without the node under an id. -/
def drop (t : Tree) (id : String) : Tree := { t with nodes := t.nodes.erase id }

/-! ### Walks -/

/-- The ids of a queue and those below, each id before its children, as long as steps are left. -/
def visitQueue (t : Tree) : Nat → List String → List String
  | 0, _ => []
  | _ + 1, [] => []
  | steps + 1, id :: queue =>
    match t.nodes.get? id with
    | some n => id :: visitQueue t steps (queue ++ n.childIds)
    | none => visitQueue t steps queue

/-- An id and those below it, level by level. -/
def breadthFirst (t : Tree) (start : String) : List String := t.visitQueue t.size [start]

/-- All ids, level by level from the root. -/
def keys (t : Tree) : List String :=
  match t.root with
  | some root => t.breadthFirst root
  | none => []

/-- All nodes, level by level from the root. -/
def listing (t : Tree) : List Node := t.keys.filterMap t.nodes.get?

/-- A node and all nodes below it, each before its children, at most so many levels deep. -/
def depthFirst (t : Tree) : Nat → Node → Except DocumentError (List Node)
  | 0, n => .ok [n]
  | levels + 1, n => do
    let below ← n.childIds.mapM fun id => do
      let child ← t.node id
      depthFirst t levels child
    return n :: below.flatten

/-- The links from a node up to the root, in front of those that are known already. -/
def climb (t : Tree) : Nat → Node → List ParentLink → Except DocumentError (List ParentLink)
  | 0, _, links => .ok links
  | steps + 1, n, links =>
    match n.parent with
    | none => .ok links
    | some link => do
      let parent ← t.node link.nodeId
      climb t steps parent (link :: links)

/-- The links from the root down to a node, one for every step.  Each names a node above, and the
slot and position that the way goes through. -/
def ancestorLinks (t : Tree) (id : String) : Except DocumentError (List ParentLink) := do
  let n ← t.node id
  t.climb t.size n []

end Tree

end SlotTree
