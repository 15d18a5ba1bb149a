/-!
# Schema errors

What can be wrong with a schema, or with a name that is looked up in one.

## Main definitions

* `SchemaError`, `SchemaError.message` — the causes, and their wording.
-/

namespace SlotTree

/-- What is wrong with a schema, or with a look-up in one. -/
inductive SchemaError where
  /-- No node type has the name. -/
  | unknownNodeType (nodeType : String) : SchemaError
  /-- The node type has no such input. -/
  | unknownInput (nodeType inputName : String) : SchemaError
  /-- The node type has no such output. -/
  | unknownOutput (nodeType outputName : String) : SchemaError
  /-- The node type has no such slot. -/
  | unknownSlot (nodeType slotName : String) : SchemaError
  /-- Two inputs of the node type have one name. -/
  | duplicateInput (nodeType inputName : String) : SchemaError
  /-- The name is no identifier. -/
  | invalidName (name : String) : SchemaError
  /-- Something is already defined under the name. -/
  | duplicateDefinition (name : String) : SchemaError
  /-- No kind of JSON literal has the name. -/
  | unknownJsonLiteral (name : String) : SchemaError
  /-- No extension method has the name. -/
  | unknownExtensionMethod (name : String) : SchemaError
  deriving DecidableEq, Repr, Inhabited

/-- The wording of an error. -/
def SchemaError.message : SchemaError → String
  | .unknownNodeType nodeType => "Unknown node type '" ++ nodeType ++ "'"
  | .unknownInput nodeType inputName =>
    "Input '" ++ inputName ++ "' doesn't exist on type '" ++ nodeType ++ "'"
  | .unknownOutput nodeType outputName =>
    "Output '" ++ outputName ++ "' doesn't exist on type '" ++ nodeType ++ "'"
  | .unknownSlot nodeType slotName =>
    "Slot '" ++ slotName ++ "' doesn't exist on type '" ++ nodeType ++ "'"
  | .duplicateInput nodeType inputName =>
    "Duplicate input id '" ++ inputName ++ "' on type '" ++ nodeType ++ "'"
  | .invalidName name => "Invalid identifier '" ++ name ++ "'"
  | .duplicateDefinition name => "Duplicate definition '" ++ name ++ "'"
  | .unknownJsonLiteral name => "Unknown JSON literal schema '" ++ name ++ "'"
  | .unknownExtensionMethod name => "Unknown extension method '" ++ name ++ "'"

end SlotTree
