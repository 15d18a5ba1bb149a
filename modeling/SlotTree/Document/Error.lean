import SlotTree.Expression.Error
import SlotTree.Node.Error

/-!
# Document errors

Why a document refuses a patch.

## Main definitions

* `DocumentError`, `DocumentError.message` — the causes, and their wording.
-/

namespace SlotTree

/-- Why a document refuses a patch. -/
inductive DocumentError where
  /-- There is no node with the id. -/
  | nodeNotFound (nodeId : String) : DocumentError
  /-- There is a node with the id already. -/
  | idAlreadyExists (nodeId : String) : DocumentError
  /-- There is a root already. -/
  | documentNotEmpty : DocumentError
  /-- A node refuses the change. -/
  | node (error : NodeError) : DocumentError
  /-- A name is not declared. -/
  | schema (error : SchemaError) : DocumentError
  /-- An expression cannot be bound. -/
  | expression (error : ExpressionError) : DocumentError
  deriving Repr, Inhabited

/-- The wording of an error. -/
def DocumentError.message : DocumentError → String
  | .nodeNotFound nodeId => "Node '" ++ nodeId ++ "' not found"
  | .idAlreadyExists nodeId => "A node with id '" ++ nodeId ++ "' already exists"
  | .documentNotEmpty => "Document is not empty"
  | .node error => error.message
  | .schema error => error.message
  | .expression error => error.message

end SlotTree
