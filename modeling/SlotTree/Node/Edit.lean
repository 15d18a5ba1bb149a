import SlotTree.Node.Basic

/-!
# Changes of a node

Every change gives a new node and, where other nodes are concerned, the new links of the children
that moved.  In a collection slot, the bindings of a child move with the child.

## Main definitions

* `MovedChildren` — the children whose links change, with their new links.
* `Node.addChild`, `Node.removeChild`, `Node.renameChild` — changes of a slot.
* `Node.rename`, `Node.moveTo` — changes of the node's id and place.
* `Node.setInput` — bind an input, or clear it.
-/

namespace SlotTree

/-- The children whose links change, with their new links. -/
abbrev MovedChildren : Type := SortedMap ParentLink

namespace Node

/-! ### Bindings that move -/

/-- Move the binding under one key to another key, if there is one. -/
def moveBinding (inputs : SortedMap TypedExpression) (source target : String) :
    SortedMap TypedExpression :=
  match inputs.get? source with
  | some e => (inputs.erase source).insert target e
  | none => inputs

/-- Make room at a position of a collection of `size` children: from the last child down to the
position, the bindings of an input move up by one. -/
def shiftUp (position size : Nat) (inputs : SortedMap TypedExpression) (name : String) :
    SortedMap TypedExpression :=
  (List.range' position (size - position)).reverse.foldl
    (fun inputs i =>
      moveBinding inputs (InputAddress.key ⟨name, some i⟩) (InputAddress.key ⟨name, some (i + 1)⟩))
    inputs

/-- Close the gap at a position of a collection of `size` children: the binding of an input there is
dropped, and those behind it move down by one. -/
def shiftDown (position size : Nat) (inputs : SortedMap TypedExpression) (name : String) :
    SortedMap TypedExpression :=
  (List.range' (position + 1) (size - (position + 1))).foldl
    (fun inputs i =>
      moveBinding inputs (InputAddress.key ⟨name, some i⟩) (InputAddress.key ⟨name, some (i - 1)⟩))
    (inputs.erase (InputAddress.key ⟨name, some position⟩))

/-- Apply a shift to all inputs of a collection slot. -/
def shiftInputs (n : Node) (slotName : String)
    (shift : SortedMap TypedExpression → String → SortedMap TypedExpression) :
    SortedMap TypedExpression :=
  (n.schema.collectionInputs slotName).foldl (fun inputs input => shift inputs input.1) n.inputs

/-! ### Slots -/

/-- The links of the children of a collection from some position on. -/
def linksFrom (n : Node) (slotName : String) (position : Nat) (children : List String) :
    MovedChildren :=
  SortedMap.ofList ((SlotContent.numbered position (children.drop position)).map fun child =>
    (child.2, ⟨n.id, slotName, child.1⟩))

/-- Attach a child.  A single slot has to be empty.  In a collection slot the child comes to the
given position, or last, and the children from there on move up.  Gives the node, the link of the
child, and the links of the children that moved. -/
def addChild (n : Node) (childId slotName : String) (index : Option Nat) :
    Except NodeError (Node × ParentLink × MovedChildren) := do
  match ← n.slot slotName with
  | .single child =>
    if index.isSome then throw (.notACollectionSlot n.id slotName)
    else if child.isSome then throw (.slotOccupied n.id slotName)
    else
      let slots := n.slots.insert slotName (.single (some childId))
      return ({ n with slots }, ⟨n.id, slotName, none⟩, .empty)
  | .collection children =>
    let position := index.getD children.length
    if children.length < position then throw (.indexOutOfBounds n.id slotName position)
    else
      let children' := children.take position ++ childId :: children.drop position
      let slots := n.slots.insert slotName (.collection children')
      let inputs := n.shiftInputs slotName (shiftUp position children.length)
      return ({ n with slots, inputs }, ⟨n.id, slotName, some position⟩,
        n.linksFrom slotName (position + 1) children')

/-- Detach a child.  In a collection slot the children behind it move down, and the bindings made
for it are dropped.  Gives the node, and the links of the children that moved. -/
def removeChild (n : Node) (slotName : String) (index : Option Nat) :
    Except NodeError (Node × MovedChildren) := do
  match ← n.slot slotName with
  | .single _ =>
    if index.isSome then throw (.notACollectionSlot n.id slotName)
    else return ({ n with slots := n.slots.insert slotName (.single none) }, .empty)
  | .collection children =>
    match index with
    | none => throw (.missingIndex n.id slotName)
    | some position =>
      if children.length ≤ position then throw (.indexOutOfBounds n.id slotName position)
      else
        let children' := children.eraseIdx position
        let slots := n.slots.insert slotName (.collection children')
        let inputs := n.shiftInputs slotName (shiftDown position children.length)
        return ({ n with slots, inputs }, n.linksFrom slotName position children')

/-- Put another id in the place of a child. -/
def renameChild (n : Node) (childId slotName : String) (index : Option Nat) :
    Except NodeError Node := do
  match ← n.slot slotName, index with
  | .single _, none =>
    return { n with slots := n.slots.insert slotName (.single (some childId)) }
  | .single _, some _ => throw (.notACollectionSlot n.id slotName)
  | .collection children, some position =>
    if position < children.length then
      return { n with
        slots := n.slots.insert slotName (.collection (children.set position childId)) }
    else throw (.indexOutOfBounds n.id slotName position)
  | .collection _, none => throw (.missingIndex n.id slotName)

/-! ### The node itself -/

/-- Change the id.  The links of all children name it, so all of them change. -/
def rename (n : Node) (newId : String) : Node × MovedChildren :=
  let renamed := { n with id := newId }
  (renamed, SortedMap.ofList renamed.childLinks)

/-- Change the place. -/
def moveTo (n : Node) (parent : ParentLink) : Node := { n with parent := some parent }

/-- Whether an address can be bound: an input of the node has no position, an input of a collection
slot the position of one of its children. -/
def hasAddress (n : Node) (address : InputAddress) : Except NodeError Bool := do
  match ← (n.schema.collectionSlotOf address.name).mapError .schema, address.index with
  | none, none => return true
  | some slotName, some index => return decide (index < (← n.slot slotName).size)
  | _, _ => return false

/-- Bind an expression to an address, or clear the address. -/
def setInput (n : Node) (expression : Option TypedExpression) (address : InputAddress) :
    Except NodeError Node := do
  if ← n.hasAddress address then
    return { n with
      inputs := match expression with
        | some e => n.inputs.insert address.key e
        | none => n.inputs.erase address.key }
  else throw (.invalidInputIndex n.id address.name)

end Node

end SlotTree
