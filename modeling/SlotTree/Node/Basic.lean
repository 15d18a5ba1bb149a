import SlotTree.Expression.Typed
import SlotTree.Map.Sorted
import SlotTree.Node.Error

/-!
# Nodes

One vertex of a document: its place under its parent, the children in its slots, and the expressions
bound to its inputs.

Bindings are kept under composed keys: the name of the input, and for an input of a collection slot
also the position of the child, as in `label::0`.

## Main definitions

* `ParentLink`, `SlotContent`, `InputAddress` — where a node hangs, what a slot holds, what can be
  bound.
* `Node`, `Node.empty` — nodes, and a node without children and bindings.
* `Node.childLinks` — all children in order, with their links.
* `Node.inputAddresses`, `Node.boundInputs` — all inputs in order, and those that are bound.
-/

namespace SlotTree

/-! ### Places -/

/-- Where a node hangs: its parent, the slot, and the position in a collection slot. -/
structure ParentLink where
  /-- The id of the parent. -/
  nodeId : String
  /-- The slot of the parent. -/
  slotName : String
  /-- The position, in a collection slot. -/
  index : Option Nat
  deriving DecidableEq, Repr, Inhabited

/-- What a slot holds. -/
inductive SlotContent where
  /-- At most one child. -/
  | single (child : Option String) : SlotContent
  /-- Any number of children, in order. -/
  | collection (children : List String) : SlotContent
  deriving DecidableEq, Repr, Inhabited

namespace SlotContent

/-- What a slot holds when nothing is in it. -/
def empty (slot : SlotDecl) : SlotContent :=
  if slot.isCollection then .collection [] else .single none

/-- The number of children. -/
def size : SlotContent → Nat
  | .single child => child.toList.length
  | .collection children => children.length

/-- Whether there are no children. -/
def isEmpty (c : SlotContent) : Bool := c.size = 0

/-- The children from some position on, with their positions. -/
def numbered (start : Nat) : List String → List (Option Nat × String)
  | [] => []
  | id :: rest => (some start, id) :: numbered (start + 1) rest

/-- The children in order, with their positions in a collection. -/
def children : SlotContent → List (Option Nat × String)
  | .single child => child.toList.map fun id => (none, id)
  | .collection ids => numbered 0 ids

end SlotContent

/-- What an expression can be bound to: an input, and for an input of a collection slot the position
of a child. -/
structure InputAddress where
  /-- The name of the input. -/
  name : String
  /-- The position of the child. -/
  index : Option Nat
  deriving DecidableEq, Repr, Inhabited

/-- The key under which the binding of an address is kept. -/
def InputAddress.key (a : InputAddress) : String :=
  match a.index with
  | none => a.name
  | some i => a.name ++ "::" ++ toString i

/-! ### Nodes -/

/-- A vertex of a document. -/
structure Node where
  /-- The schema of the node's type. -/
  schema : NodeSchema
  /-- The id. -/
  id : String
  /-- Where the node hangs; the root hangs nowhere. -/
  parent : Option ParentLink
  /-- What the slots hold, in the order of their declaration. -/
  slots : OrderedMap SlotContent
  /-- The bindings, under their keys. -/
  inputs : SortedMap TypedExpression
  deriving Repr

namespace Node

/-- A node without children and bindings. -/
def empty (schema : NodeSchema) (id : String) (parent : Option ParentLink) : Node where
  schema := schema
  id := id
  parent := parent
  slots := schema.slots.mapValues fun _ slot => .empty slot
  inputs := .empty

/-- The name of the node's type. -/
def nodeType (n : Node) : String := n.schema.name

/-- What a slot holds. -/
def slot (n : Node) (slotName : String) : Except NodeError SlotContent :=
  match n.slots.get? slotName with
  | some content => .ok content
  | none => .error (.schema (.unknownSlot n.nodeType slotName))

/-- The binding of an address, if there is one. -/
def input? (n : Node) (address : InputAddress) : Option TypedExpression := n.inputs.get? address.key

/-! ### Children and inputs in order -/

/-- The children with their links: slots in the order of declaration, children by position. -/
def childLinks (n : Node) : List (String × ParentLink) :=
  n.slots.entries.flatMap fun slot =>
    slot.2.children.map fun child => (child.2, ⟨n.id, slot.1, child.1⟩)

/-- The ids of the children, in order. -/
def childIds (n : Node) : List String := n.childLinks.map Prod.fst

/-- The addresses of one collection slot: for every child, the inputs of the slot. -/
def slotAddresses (n : Node) (slotName : String) (content : SlotContent) : List InputAddress :=
  (List.range content.size).flatMap fun i =>
    (n.schema.collectionInputs slotName).map fun input => ⟨input.1, some i⟩

/-- What can be bound: the inputs of the node in the order of declaration, then those of each slot,
child by child. -/
def inputAddresses (n : Node) : List InputAddress :=
  n.schema.inputs.keys.map (fun name => ⟨name, none⟩) ++
    n.slots.entries.flatMap fun slot => n.slotAddresses slot.1 slot.2

/-- All addresses with their bindings, in order. -/
def allInputs (n : Node) : List (InputAddress × Option TypedExpression) :=
  n.inputAddresses.map fun a => (a, n.input? a)

/-- The addresses that are bound, with their bindings, in order. -/
def boundInputs (n : Node) : List (InputAddress × TypedExpression) :=
  n.allInputs.filterMap fun a => a.2.map fun e => (a.1, e)

/-! ### Equality of data -/

/-- Whether two lists of bindings are the same, numbers compared by value. -/
def equalBindings : List (String × TypedExpression) → List (String × TypedExpression) → Bool
  | [], [] => true
  | (k, e) :: es, (l, f) :: fs => k = l && e.equals f && equalBindings es fs
  | _, _ => false

/-- Whether two nodes are the same: id, type, place, children and bindings. -/
def equals (m n : Node) : Bool :=
  m.id = n.id && m.nodeType = n.nodeType && m.parent = n.parent &&
    m.slots.equals (fun a b => a = b) n.slots && equalBindings m.inputs.entries n.inputs.entries

end Node

end SlotTree
