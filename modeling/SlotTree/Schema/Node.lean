import SlotTree.Map.Ordered
import SlotTree.Schema.Error
import SlotTree.ValueType.Basic

/-!
# Node schemas

A node schema declares what a node of one type looks like: its inputs, the outputs that it shows to
the nodes below it, and its slots.

A slot with a table of inputs, even an empty one, is a *collection slot*: it holds any number of
children, and each of its inputs is bound once per child.  Any other slot is a *single slot*, which
holds at most one child.  An output with a slot is shown only to the nodes below that slot.

A `Declaration` is a schema as it is written down; `Declaration.fault?` says what is wrong with it,
and a `NodeSchema` is a declaration in which nothing is wrong.

## Main definitions

* `InputDecl`, `OutputDecl`, `SlotDecl`, `Declaration` — declarations, and how they are built up.
* `Declaration.fault?`, `NodeSchema`, `NodeSchema.ofDeclaration` — the check, and what passes it.
* `NodeSchema.idStem` — what generated ids of nodes of the type begin with.
* `NodeSchema.input`, `output`, `slot`, `collectionSlotOf`, `collectionInputs` — look-ups.
-/

namespace SlotTree

/-! ### Declarations -/

/-- The declaration of an input. -/
structure InputDecl where
  /-- The type of the values bound to the input. -/
  type : ValueType
  /-- A description. -/
  doc : Option String := none
  deriving Repr, Inhabited

/-- The declaration of an output. -/
structure OutputDecl where
  /-- The type of the output's value. -/
  type : ValueType
  /-- The slot whose descendants alone see the output. -/
  slot : Option String := none
  /-- A description. -/
  doc : Option String := none
  deriving Repr, Inhabited

/-- The declaration of a slot. -/
structure SlotDecl where
  /-- The inputs bound once per child, if the slot is a collection. -/
  inputs : Option (OrderedMap InputDecl) := none
  deriving Repr, Inhabited

/-- A slot for at most one child. -/
def SlotDecl.single : SlotDecl := {}

/-- Whether a slot holds any number of children. -/
def SlotDecl.isCollection (s : SlotDecl) : Bool := s.inputs.isSome

/-- The inputs bound once per child; a single slot has none. -/
def SlotDecl.inputEntries (s : SlotDecl) : List (String × InputDecl) :=
  (s.inputs.map OrderedMap.entries).getD []

/-- A node schema as it is written down. -/
structure Declaration where
  /-- The name of the node type. -/
  name : String
  /-- The inputs of a node as a whole. -/
  inputs : OrderedMap InputDecl := .empty
  /-- The outputs. -/
  outputs : OrderedMap OutputDecl := .empty
  /-- The slots. -/
  slots : OrderedMap SlotDecl := .empty
  deriving Repr, Inhabited

namespace Declaration

/-- The declaration with an input. -/
def withInput (d : Declaration) (name : String) (type : ValueType) : Declaration :=
  { d with inputs := d.inputs.insert name { type } }

/-- The declaration with an output that all nodes below see. -/
def withOutput (d : Declaration) (name : String) (type : ValueType) : Declaration :=
  { d with outputs := d.outputs.insert name { type } }

/-- The declaration with an output that the nodes below one slot see. -/
def withSlotOutput (d : Declaration) (name : String) (type : ValueType) (slot : String) :
    Declaration :=
  { d with outputs := d.outputs.insert name { type, slot := some slot } }

/-- The declaration with a single slot. -/
def withSlot (d : Declaration) (name : String) : Declaration :=
  { d with slots := d.slots.insert name .single }

/-- The declaration with a collection slot, whose inputs have the given names and types. -/
def withCollectionSlot (d : Declaration) (name : String) (inputs : List (String × ValueType)) :
    Declaration :=
  let table := OrderedMap.ofList (inputs.map fun i => (i.1, { type := i.2 }))
  { d with slots := d.slots.insert name { inputs := some table } }

/-- The names of all inputs: those of the node, then those of each slot. -/
def inputNames (d : Declaration) : List String :=
  d.inputs.keys ++ d.slots.values.flatMap fun s => s.inputEntries.map Prod.fst

/-! ### What is wrong with a declaration -/

/-- A letter of the ASCII range, or the underscore. -/
def isNameStart (c : Char) : Bool := c.isAlpha || c = '_'

/-- A letter or digit of the ASCII range, or the underscore. -/
def isNamePart (c : Char) : Bool := c.isAlphanum || c = '_'

/-- A letter or an underscore, then letters, digits and underscores. -/
def isIdentifier (name : String) : Bool :=
  match name.toList with
  | [] => false
  | c :: rest => isNameStart c && rest.all isNamePart

/-- The first fault among input names, in order: one that is no identifier, or stands before. -/
def inputFault? (nodeType : String) (before : List String) : List String → Option SchemaError
  | [] => none
  | name :: rest =>
    if !isIdentifier name then some (.invalidName name)
    else if name ∈ before then some (.duplicateInput nodeType name)
    else inputFault? nodeType (name :: before) rest

/-- The first slot name that is no identifier. -/
def slotFault? (d : Declaration) : Option SchemaError :=
  (d.slots.keys.find? fun name => !isIdentifier name).map .invalidName

/-- The first output of a slot that is not declared. -/
def outputFault? (d : Declaration) : Option SchemaError :=
  (d.outputs.values.findSome? fun o => o.slot.filter fun s => !d.slots.contains s).map
    (.unknownSlot d.name)

/-- The first fault of a declaration. -/
def fault? (d : Declaration) : Option SchemaError :=
  if d.name = "" then some (.invalidName d.name)
  else (inputFault? d.name [] d.inputNames).or (d.slotFault?.or d.outputFault?)

end Declaration

/-! ### Schemas -/

/-- A declaration without fault. -/
structure NodeSchema extends Declaration where
  /-- Nothing is wrong with the declaration. -/
  faultless : toDeclaration.fault? = none
  deriving Repr

namespace NodeSchema

/-- The schema of a declaration, or the first fault of the declaration. -/
def ofDeclaration (d : Declaration) : Except SchemaError NodeSchema :=
  match h : d.fault? with
  | none => .ok ⟨d, h⟩
  | some e => .error e

/-- What passes the check is the declaration as it is written down. -/
theorem ofDeclaration_eq_ok_iff {d : Declaration} {s : NodeSchema} :
    ofDeclaration d = .ok s ↔ s.toDeclaration = d := by
  constructor
  · intro h
    rw [ofDeclaration] at h
    split at h
    · cases h
      rfl
    · cases h
  · rintro rfl
    rw [ofDeclaration]
    split
    · rfl
    · next heq =>
      rw [s.faultless] at heq
      cases heq

/-- What follows the last pair of colons; everything, if there is none. -/
def lastSegment (segment : List Char) : List Char → List Char
  | [] => segment
  | c :: cs =>
    lastSegment
      (match c, cs with
        | ':', ':' :: rest => rest
        | _, _ => segment)
      cs

/-- The part of the type's name that generated ids of its nodes begin with. -/
def idStem (s : NodeSchema) : String := String.ofList (lastSegment s.name.toList s.name.toList)

/-- The inputs bound once per child of a slot. -/
def collectionInputs (s : NodeSchema) (slotName : String) : List (String × InputDecl) :=
  ((s.slots.get? slotName).map SlotDecl.inputEntries).getD []

/-- The declaration of an input, of the node or of a slot. -/
def input (s : NodeSchema) (inputName : String) : Except SchemaError InputDecl :=
  match (s.inputs.get? inputName).or
      (s.slots.values.findSome? fun slot => List.lookup inputName slot.inputEntries) with
  | some decl => .ok decl
  | none => .error (.unknownInput s.name inputName)

/-- The declaration of an output. -/
def output (s : NodeSchema) (outputName : String) : Except SchemaError OutputDecl :=
  match s.outputs.get? outputName with
  | some decl => .ok decl
  | none => .error (.unknownOutput s.name outputName)

/-- The declaration of a slot. -/
def slot (s : NodeSchema) (slotName : String) : Except SchemaError SlotDecl :=
  match s.slots.get? slotName with
  | some decl => .ok decl
  | none => .error (.unknownSlot s.name slotName)

/-- Whether a slot is a collection. -/
def isCollectionSlot (s : NodeSchema) (slotName : String) : Except SchemaError Bool :=
  (s.slot slotName).map SlotDecl.isCollection

/-- The collection slot to which an input belongs; none, if it belongs to the node as a whole. -/
def collectionSlotOf (s : NodeSchema) (inputName : String) : Except SchemaError (Option String) :=
  if s.inputs.contains inputName then .ok none
  else
    match s.slots.entries.find? fun e => (List.lookup inputName e.2.inputEntries).isSome with
    | some e => .ok (some e.1)
    | none => .error (.unknownInput s.name inputName)

end NodeSchema

end SlotTree
