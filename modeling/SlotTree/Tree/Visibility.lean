import SlotTree.Tree.Basic

/-!
# Visibility of outputs

Which outputs an expression on a node may refer to: those of the nodes above it.  An output that
belongs to a slot is seen only from below that slot, so it matters through which slot the way from
the node to the ancestor goes.

## Main definitions

* `Tree.visibleOutput` — the type of an output as seen from a node.
* `Tree.context` — the context for the expressions of a node.
* `Tree.checkInput` — check an expression for an input of a node.
-/

namespace SlotTree.Tree

/-- Look for an output on the way up from a node: at the first ancestor with the id, the output has
to be declared, and shown to the slot that the way came through. -/
def outputAbove (t : Tree) (ancestorId outputName : String) :
    Nat → Node → Except ExpressionError ValueType
  | 0, _ => .error (.notAnAncestor ancestorId)
  | steps + 1, n =>
    match n.parent with
    | none => .error (.notAnAncestor ancestorId)
    | some link =>
      match t.nodes.get? link.nodeId with
      | none => .error (.notAnAncestor ancestorId)
      | some ancestor =>
        if ancestor.id = ancestorId then do
          let output ← (ancestor.schema.output outputName).mapError .schema
          match output.slot with
          | some slot =>
            if slot = link.slotName then return output.type
            else throw (.outputNotExposed ancestorId outputName)
          | none => return output.type
        else outputAbove t ancestorId outputName steps ancestor

/-- The type of an output of an ancestor, as seen from a node. -/
def visibleOutput (t : Tree) (nodeId ancestorId outputName : String) :
    Except ExpressionError ValueType :=
  match t.nodes.get? nodeId with
  | none => .error (.notAnAncestor ancestorId)
  | some n => t.outputAbove ancestorId outputName t.size n

/-- What names refer to in the expressions of a node. -/
def context (t : Tree) (defs : Definitions) (nodeId : String) : Context :=
  defs.context (t.visibleOutput nodeId)

/-- Check an expression for an input of a node. -/
def checkInput (t : Tree) (defs : Definitions) (n : Node) (inputName : String) (e : Expression) :
    Except DocumentError TypedExpression := do
  let input ← (n.schema.input inputName).mapError .schema
  (e.check (t.context defs n.id) input.type).mapError .expression

end SlotTree.Tree
