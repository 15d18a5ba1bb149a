import SlotTree.Document.Basic
import SlotTree.Expression.Codec

/-!
# A document as data

The nodes of a document as JSON: every node with its id, its type, its place and its bindings, level
by level, beside the name, the version and the id of the root.

## Main definitions

* `Node.data` — the data of a node.
* `Document.data` — the data of a document.
-/

namespace SlotTree

/-- The data of a place. -/
def ParentLink.data (link : ParentLink) : Json :=
  .object [("nodeId", .string link.nodeId), ("slotName", .string link.slotName),
    ("index", Json.optional Json.natural link.index)]

/-- The data of a node. -/
def Node.data (n : Node) : Json :=
  .object [("id", .string n.id), ("type", .string n.nodeType),
    ("parent", Json.optional ParentLink.data n.parent),
    ("inputs", .object (n.boundInputs.map fun b => (b.1.key, b.2.erase.encode)))]

/-- The data of a document, all names in order. -/
def Document.data (doc : Document) : Except DocumentError FreeForm := do
  let nodes ← doc.tree.keys.mapM doc.tree.node
  return Json.freeForm (.object [("name", .string doc.name), ("version", .natural doc.version),
    ("rootId", Json.optional Json.string doc.tree.root), ("nodes", .array (nodes.map Node.data))])

end SlotTree
