import SlotTree.Schema.Error

/-!
# Node errors

Why a change of a single node is refused.

## Main definitions

* `NodeError`, `NodeError.message` — the causes, and their wording.
-/

namespace SlotTree

/-- Why a change of a node is refused. -/
inductive NodeError where
  /-- The single slot holds a child already. -/
  | slotOccupied (nodeId slotName : String) : NodeError
  /-- The collection slot has no such position. -/
  | indexOutOfBounds (nodeId slotName : String) (index : Nat) : NodeError
  /-- A position is given for a single slot. -/
  | notACollectionSlot (nodeId slotName : String) : NodeError
  /-- No position is given for a collection slot. -/
  | missingIndex (nodeId slotName : String) : NodeError
  /-- A position is given for an input of the node, or none or a wrong one for an input of a
  slot. -/
  | invalidInputIndex (nodeId inputName : String) : NodeError
  /-- A name is not declared. -/
  | schema (error : SchemaError) : NodeError
  deriving DecidableEq, Repr, Inhabited

/-- The wording of an error. -/
def NodeError.message : NodeError → String
  | .slotOccupied nodeId slotName =>
    "Slot '" ++ slotName ++ "' of node '" ++ nodeId ++ "' is already occupied"
  | .indexOutOfBounds nodeId slotName index =>
    "Index " ++ toString index ++ " is out of bounds for slot '" ++ slotName ++ "' of node '" ++
      nodeId ++ "'"
  | .notACollectionSlot nodeId slotName =>
    "Slot '" ++ slotName ++ "' of node '" ++ nodeId ++ "' is not a collection slot"
  | .missingIndex nodeId slotName =>
    "Collection slot '" ++ slotName ++ "' of node '" ++ nodeId ++ "' requires an index"
  | .invalidInputIndex nodeId inputName =>
    "Invalid index for input '" ++ inputName ++ "' of node '" ++ nodeId ++ "'"
  | .schema error => error.message

end SlotTree
