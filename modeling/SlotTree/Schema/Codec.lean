import SlotTree.Schema.Definitions
import SlotTree.ValueType.Codec

/-!
# Schemas in JSON

Node schemas and definitions as JSON records.  A schema is checked as soon as its record has been
read, so a fault of a schema is reported before anything that is wrong behind it in the text.

## Main definitions

* `InputDecl.encode`, `OutputDecl.encode`, `SlotDecl.encode`, `NodeSchema.encode` and the decoders.
* `Definitions.load` — the definitions that a text describes.
-/

namespace SlotTree

namespace Decoder

/-- The fields of a record, by name and in order. -/
structure Parts where
  /-- What the fields `type` and `selfType` hold. -/
  type : Option ValueType := none
  /-- What the field `doc` holds. -/
  doc : Option (Option String) := none
  /-- What the field `slot` holds. -/
  slot : Option (Option String) := none
  /-- What the field `name` holds. -/
  name : Option String := none
  /-- What the field `params` holds. -/
  params : Option (List ValueType) := none
  /-- What the field `returns` holds. -/
  returns : Option ValueType := none

variable {ε : Type}

/-- The field of a type. -/
def typeField (name : String) : Field ε Parts :=
  field name (·.type) (fun t p => { p with type := some t }) ValueType.decoder

/-- The field of a description. -/
def docField : Field ε Parts :=
  field "doc" (·.doc) (fun d p => { p with doc := some d }) (optional string)

/-- The field of the slot an output is shown to. -/
def slotField : Field ε Parts :=
  field "slot" (·.slot) (fun s p => { p with slot := some s }) (optional string)

/-- The field of a name. -/
def nameField : Field ε Parts :=
  field "name" (·.name) (fun n p => { p with name := some n }) string

/-- The field of the types of parameters. -/
def paramsField : Field ε Parts :=
  field "params" (·.params) (fun ts p => { p with params := some ts }) (list ValueType.decoder)

/-- The field of the type of a result. -/
def returnsField : Field ε Parts :=
  field "returns" (·.returns) (fun t p => { p with returns := some t }) ValueType.decoder

end Decoder

/-! ### Inputs, outputs and slots -/

namespace InputDecl

/-- The value of the declaration of an input. -/
def encode (d : InputDecl) : Json :=
  .object (("type", d.type.encode) :: Json.present "doc" Json.string d.doc)

/-- Decode the declaration of an input. -/
def decoder {ε : Type} : Decoder ε InputDecl :=
  .record [Decoder.typeField "type", Decoder.docField] {} fun p =>
    p.type.map fun type => { type, doc := p.doc.join }

end InputDecl

namespace OutputDecl

/-- The value of the declaration of an output. -/
def encode (d : OutputDecl) : Json :=
  .object (("type", d.type.encode) ::
    (Json.present "slot" Json.string d.slot ++ Json.present "doc" Json.string d.doc))

/-- Decode the declaration of an output. -/
def decoder {ε : Type} : Decoder ε OutputDecl :=
  .record [Decoder.typeField "type", Decoder.slotField, Decoder.docField] {} fun p =>
    p.type.map fun type => { type, slot := p.slot.join, doc := p.doc.join }

end OutputDecl

/-- The value of a map: an object with its entries in order. -/
def OrderedMap.encode {α : Type} (encodeValue : α → Json) (m : OrderedMap α) : Json :=
  .object (m.entries.map fun e => (e.1, encodeValue e.2))

namespace SlotDecl

/-- The value of the declaration of a slot. -/
def encode (d : SlotDecl) : Json :=
  .object (Json.present "inputs" (OrderedMap.encode InputDecl.encode) d.inputs)

/-- Decode the declaration of a slot. -/
def decoder {ε : Type} : Decoder ε SlotDecl :=
  .record
    [Decoder.field "inputs" id (fun i _ => some i) (.optional (.map InputDecl.decoder))]
    none
    fun inputs => some { inputs := inputs.join }

end SlotDecl

/-! ### Schemas -/

namespace Declaration

/-- The value of a schema. -/
def encode (d : Declaration) : Json :=
  .object [("name", .string d.name), ("inputs", d.inputs.encode InputDecl.encode),
    ("outputs", d.outputs.encode OutputDecl.encode), ("slots", d.slots.encode SlotDecl.encode)]

/-- What is known of a declaration while it is decoded. -/
structure Draft where
  /-- What the field `name` holds. -/
  name : Option String := none
  /-- What the field `inputs` holds. -/
  inputs : Option (OrderedMap InputDecl) := none
  /-- What the field `outputs` holds. -/
  outputs : Option (OrderedMap OutputDecl) := none
  /-- What the field `slots` holds. -/
  slots : Option (OrderedMap SlotDecl) := none

/-- Decode a declaration. -/
def decoder {ε : Type} : Decoder ε Declaration :=
  .record
    [Decoder.field "name" Draft.name (fun n d => { d with name := some n }) .string,
      Decoder.field "inputs" Draft.inputs (fun i d => { d with inputs := some i })
        (.map InputDecl.decoder),
      Decoder.field "outputs" Draft.outputs (fun o d => { d with outputs := some o })
        (.map OutputDecl.decoder),
      Decoder.field "slots" Draft.slots (fun s d => { d with slots := some s })
        (.map SlotDecl.decoder)]
    {}
    fun d => d.name.map fun name =>
      { name, inputs := d.inputs.getD .empty, outputs := d.outputs.getD .empty,
        slots := d.slots.getD .empty }

end Declaration

namespace NodeSchema

/-- The value of a schema. -/
def encode (s : NodeSchema) : Json := s.toDeclaration.encode

/-- Decode a schema: a declaration, which is then checked. -/
def decoder : Decoder SchemaError NodeSchema := Declaration.decoder.andThen ofDeclaration

end NodeSchema

/-! ### Definitions -/

namespace JsonLiteral

/-- The value of a kind of JSON literals. -/
def encode (l : JsonLiteral) : Json :=
  .object [("name", .string l.name), ("type", l.type.encode)]

/-- Decode a kind of JSON literals. -/
def decoder {ε : Type} : Decoder ε JsonLiteral :=
  .record [Decoder.nameField, Decoder.typeField "type"] {} fun p =>
    match p.name, p.type with
    | some name, some type => some { name, type }
    | _, _ => none

end JsonLiteral

namespace ExtensionMethod

/-- The value of an extension method. -/
def encode (m : ExtensionMethod) : Json :=
  .object [("name", .string m.name), ("selfType", m.selfType.encode),
    ("params", .array (m.params.map ValueType.encode)), ("returns", m.returns.encode)]

/-- Decode an extension method. -/
def decoder {ε : Type} : Decoder ε ExtensionMethod :=
  .record [Decoder.nameField, Decoder.typeField "selfType", Decoder.paramsField,
      Decoder.returnsField] {} fun p =>
    match p.name, p.type, p.returns with
    | some name, some selfType, some returns =>
      some { name, selfType, params := p.params.getD [], returns }
    | _, _, _ => none

end ExtensionMethod

namespace Definitions

/-- What is known of definitions while they are decoded. -/
structure Draft where
  /-- What the field `nodes` holds. -/
  nodes : Option (List NodeSchema) := none
  /-- What the field `jsonLiterals` holds. -/
  literals : Option (List JsonLiteral) := none
  /-- What the field `extensionMethods` holds. -/
  methods : Option (List ExtensionMethod) := none

/-- Decode the lists of definitions, each of which may be left out. -/
def listsDecoder : Decoder SchemaError Draft :=
  .record
    [Decoder.field "nodes" Draft.nodes (fun ns d => { d with nodes := some ns })
        (.list NodeSchema.decoder),
      Decoder.field "jsonLiterals" Draft.literals (fun ls d => { d with literals := some ls })
        (.list JsonLiteral.decoder),
      Decoder.field "extensionMethods" Draft.methods (fun ms d => { d with methods := some ms })
        (.list ExtensionMethod.decoder)]
    {} some

/-- Why a text gives no definitions. -/
inductive LoadError where
  /-- The text cannot be decoded. -/
  | unreadable (fault : Fault SchemaError) : LoadError
  /-- The definitions contradict one another. -/
  | inconsistent (error : SchemaError) : LoadError
  deriving DecidableEq, Repr, Inhabited

/-- The definitions that a reading describes, of which is known whether anything follows it. -/
def ofReading (r : Reading) (ends : Bool) : Except LoadError Definitions := do
  let lists ← (listsDecoder.runReading r ends).mapError .unreadable
  (ofLists (lists.nodes.getD []) (lists.literals.getD []) (lists.methods.getD [])).mapError
    .inconsistent

/-- The definitions that a text describes. -/
def load (text : String) : Except LoadError Definitions :=
  ofReading (Reading.ofText text).1 (Reading.ofText text).2

end Definitions

end SlotTree
