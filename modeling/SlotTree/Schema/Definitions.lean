import SlotTree.Schema.Node

/-!
# Definitions

All that a node or an expression may refer to by name: node types, kinds of JSON literals, and
extension methods.  Each of the three has its own names, and no name is defined twice.

## Main definitions

* `JsonLiteral`, `ExtensionMethod` — what is defined beside node schemas.
* `Definitions` — the definitions, with `addNode`, `addLiteral`, `addMethod` and the look-ups.
* `Definitions.schemas` — the node schemas by name.
-/

namespace SlotTree

/-- A named type of JSON values that can be bound as they stand. -/
structure JsonLiteral where
  /-- The name. -/
  name : String
  /-- The type of the values. -/
  type : ValueType
  deriving Repr, Inhabited

/-- A method that can be called on values of a type. -/
structure ExtensionMethod where
  /-- The name. -/
  name : String
  /-- The type of the values it is called on. -/
  selfType : ValueType
  /-- The types of its arguments. -/
  params : List ValueType
  /-- The type of its result. -/
  returns : ValueType
  deriving Repr, Inhabited

/-- What names refer to, in the order in which it was defined. -/
structure Definitions where
  /-- The node schemas. -/
  nodes : List NodeSchema := []
  /-- The kinds of JSON literals. -/
  literals : List JsonLiteral := []
  /-- The extension methods. -/
  methods : List ExtensionMethod := []
  deriving Repr, Inhabited

namespace Definitions

/-! ### Look-ups -/

/-- The node schema of a type. -/
def node (defs : Definitions) (nodeType : String) : Except SchemaError NodeSchema :=
  match defs.nodes.find? fun s => s.name = nodeType with
  | some s => .ok s
  | none => .error (.unknownNodeType nodeType)

/-- The JSON literals of a name. -/
def literal (defs : Definitions) (name : String) : Except SchemaError JsonLiteral :=
  match defs.literals.find? fun l => l.name = name with
  | some l => .ok l
  | none => .error (.unknownJsonLiteral name)

/-- The extension method of a name. -/
def method (defs : Definitions) (name : String) : Except SchemaError ExtensionMethod :=
  match defs.methods.find? fun m => m.name = name with
  | some m => .ok m
  | none => .error (.unknownExtensionMethod name)

/-- The node schemas, ascending by name. -/
def schemas (defs : Definitions) : List NodeSchema :=
  defs.nodes.mergeSort fun a b => decide (a.name ≤ b.name)

/-! ### Additions -/

/-- Define a node type. -/
def addNode (defs : Definitions) (s : NodeSchema) : Except SchemaError Definitions :=
  match defs.node s.name with
  | .ok _ => .error (.duplicateDefinition s.name)
  | .error _ => .ok { defs with nodes := defs.nodes ++ [s] }

/-- Define a kind of JSON literals. -/
def addLiteral (defs : Definitions) (l : JsonLiteral) : Except SchemaError Definitions :=
  match defs.literal l.name with
  | .ok _ => .error (.duplicateDefinition l.name)
  | .error _ => .ok { defs with literals := defs.literals ++ [l] }

/-- Define an extension method. -/
def addMethod (defs : Definitions) (m : ExtensionMethod) : Except SchemaError Definitions :=
  match defs.method m.name with
  | .ok _ => .error (.duplicateDefinition m.name)
  | .error _ => .ok { defs with methods := defs.methods ++ [m] }

/-- The definitions that lists of schemas, literals and methods make; the first name that is defined
twice is refused. -/
def ofLists (nodes : List NodeSchema) (literals : List JsonLiteral)
    (methods : List ExtensionMethod) : Except SchemaError Definitions := do
  let defs ← nodes.foldlM addNode {}
  let defs ← literals.foldlM addLiteral defs
  methods.foldlM addMethod defs

end Definitions

end SlotTree
