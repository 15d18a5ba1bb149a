import SlotTree.Decimal.Binary64
import SlotTree.Schema.Error
import SlotTree.ValueType.Display

/-!
# Expression errors

Why an expression cannot be bound to an input.

## Main definitions

* `InvalidExpression`, `ExpressionError` — the causes.
* `ExpressionError.message` — their wording.
-/

namespace SlotTree

/-- What is wrong with an expression as such. -/
inductive InvalidExpression where
  /-- A number is not finite. -/
  | notFinite (value : Binary64) : InvalidExpression
  /-- A value does not belong to the kind of JSON literals it is given as. -/
  | literalMismatch (schemaName : String) : InvalidExpression
  /-- Values of the type have no such property. -/
  | noProperty (name : String) (type : ValueType) : InvalidExpression
  /-- The extension method is made for values of other types. -/
  | notCallableOn (method : String) (type : ValueType) : InvalidExpression
  /-- Values of the type are no functions. -/
  | notCallable (type : ValueType) : InvalidExpression
  /-- The number of arguments is wrong. -/
  | argumentCount (expected actual : Nat) : InvalidExpression
  /-- An argument is left out that is required. -/
  | missingArgument (index : Nat) : InvalidExpression
  deriving Repr, Inhabited

/-- The text of a number that is not finite. -/
def Binary64.notFiniteText (x : Binary64) : String :=
  if x.isNaN then "NaN" else if x.isNegative then "-inf" else "inf"

/-- The wording of what is wrong. -/
def InvalidExpression.message : InvalidExpression → String
  | .notFinite value => "Number literal must be finite, got " ++ value.notFiniteText
  | .literalMismatch schemaName =>
    "Value doesn't match JSON literal schema '" ++ schemaName ++ "'"
  | .noProperty name type =>
    "Property '" ++ name ++ "' doesn't exist on type '" ++ type.display ++ "'"
  | .notCallableOn method type =>
    "Extension method '" ++ method ++ "' can't be called on type '" ++ type.display ++ "'"
  | .notCallable type => "Type '" ++ type.display ++ "' is not callable"
  | .argumentCount expected actual =>
    "Expected " ++ toString expected ++ " arguments, got " ++ toString actual
  | .missingArgument index => "Missing required argument " ++ toString index

/-- Why an expression cannot be bound. -/
inductive ExpressionError where
  /-- Its type may not stand where another is asked for. -/
  | typeMismatch (expected actual : ValueType) : ExpressionError
  /-- It is wrong as such. -/
  | invalid (reason : InvalidExpression) : ExpressionError
  /-- It refers to a node that does not lie above. -/
  | notAnAncestor (nodeId : String) : ExpressionError
  /-- It refers to an output that is shown below another slot only. -/
  | outputNotExposed (nodeId outputName : String) : ExpressionError
  /-- It refers to a name that is not defined. -/
  | schema (error : SchemaError) : ExpressionError
  deriving Repr, Inhabited

/-- The wording of an error. -/
def ExpressionError.message : ExpressionError → String
  | .typeMismatch expected actual =>
    "Type mismatch: expected '" ++ expected.display ++ "', got '" ++ actual.display ++ "'"
  | .invalid reason => "Invalid expression: " ++ reason.message
  | .notAnAncestor nodeId => "Node '" ++ nodeId ++ "' is not an ancestor of this node"
  | .outputNotExposed nodeId outputName =>
    "Output '" ++ nodeId ++ "::" ++ outputName ++ "' is not exposed to this node"
  | .schema error => error.message

end SlotTree
