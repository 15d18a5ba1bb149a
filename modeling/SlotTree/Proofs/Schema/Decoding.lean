import SlotTree.Schema.Codec
import SlotTree.Proofs.ValueType.Decoding

/-!
# Schemas read back

The text of a schema is decoded as the schema that was written: what the check finds nothing against
passes it again.  Tables keep their order, and a table without entries is still told from a table
that is left out.

## Main definitions

* `Declaration.DistinctNames` — no type of a declaration names a property twice.

## Main results

* `Declaration.reads_encode` — a declaration is made again of its value.
* `NodeSchema.run_schema_text` — a schema and a type are decoded from their texts.
-/

namespace SlotTree

open Json

namespace Decoder

variable {ε α β σ : Type}

/-- A field that is left out when it has no value. -/
theorem Takes.present {fields : List (Field ε σ)} {name : String} {get : σ → Option α}
    {set : α → σ → σ} {d : Decoder ε α} {encode : β → Json} {value : β → α} {o : Option β}
    {s s' : σ} {rest : List (String × Json)}
    (hfind : fields.find? (fun g => g.name = name) = some (field name get set d))
    (hget : get s = none) (hd : ∀ b ∈ o, d.Reads (encode b) (value b))
    (h : Takes fields (o.elim s fun b => set (value b) s) rest s') :
    Takes fields s (Json.present name encode o ++ rest) s' := by
  cases o with
  | none => exact h
  | some b => exact .cons (f := field name get set d) hfind ((hd b rfl).field hget) h

/-- A field at the end that is left out when it has no value. -/
theorem Takes.last {fields : List (Field ε σ)} {name : String} {get : σ → Option α}
    {set : α → σ → σ} {d : Decoder ε α} {encode : β → Json} {value : β → α} {o : Option β} {s : σ}
    (hfind : fields.find? (fun g => g.name = name) = some (field name get set d))
    (hget : get s = none) (hd : ∀ b ∈ o, d.Reads (encode b) (value b)) :
    Takes fields s (Json.present name encode o) (o.elim s fun b => set (value b) s) := by
  simpa using Takes.present hfind hget hd .nil

/-- A text that may be null is made again of its value. -/
theorem reads_optional_string (s : String) :
    (string.optional : Decoder ε (Option String)).Reads (.string s) (some s) :=
  (reads_string s).optional nofun

end Decoder

open Decoder

variable {ε : Type}

/-! ### Inputs, outputs and slots -/

/-- The declaration of an input is made again of its value. -/
theorem InputDecl.reads_encode {d : InputDecl} (hd : d.type.DistinctNames) :
    (decoder : Decoder ε InputDecl).Reads d.encode d := by
  obtain ⟨type, doc⟩ := d
  refine reads_record (.cons (f := typeField "type") rfl ((ValueType.reads_encode hd).field rfl)
    (.last rfl rfl fun s _ => reads_optional_string s)) ?_
  cases doc <;> rfl

/-- The declaration of an output is made again of its value. -/
theorem OutputDecl.reads_encode {d : OutputDecl} (hd : d.type.DistinctNames) :
    (decoder : Decoder ε OutputDecl).Reads d.encode d := by
  obtain ⟨type, slot, doc⟩ := d
  refine reads_record (.cons (f := typeField "type") rfl ((ValueType.reads_encode hd).field rfl)
    (.present rfl rfl (fun s _ => reads_optional_string s)
      (.last rfl ?_ fun s _ => reads_optional_string s))) ?_
  · cases slot <;> rfl
  · cases slot <;> cases doc <;> rfl

/-- The declaration of a slot is made again of its value; a table without entries stays a table
without entries. -/
theorem SlotDecl.reads_encode {d : SlotDecl}
    (hd : ∀ e ∈ d.inputEntries, e.2.type.DistinctNames) :
    (decoder : Decoder ε SlotDecl).Reads d.encode d := by
  obtain ⟨inputs⟩ := d
  have htable : ∀ m ∈ inputs, ((map InputDecl.decoder).optional :
      Decoder ε (Option (OrderedMap InputDecl))).Reads (m.encode InputDecl.encode) (some m) := by
    rintro m ⟨⟩
    exact (reads_map fun e he => InputDecl.reads_encode (hd e he)).optional nofun
  refine reads_record (.last rfl rfl htable) ?_
  cases inputs <;> rfl

/-! ### Schemas -/

/-- No object type of a declaration, at any depth, names a property twice. -/
structure Declaration.DistinctNames (d : Declaration) : Prop where
  /-- The types of the inputs of a node as a whole. -/
  inputs : ∀ e ∈ d.inputs.entries, e.2.type.DistinctNames
  /-- The types of the outputs. -/
  outputs : ∀ e ∈ d.outputs.entries, e.2.type.DistinctNames
  /-- The types of the inputs bound once per child. -/
  slots : ∀ e ∈ d.slots.entries, ∀ i ∈ e.2.inputEntries, i.2.type.DistinctNames

/-- A declaration is made again of its value. -/
theorem Declaration.reads_encode {d : Declaration} (hd : d.DistinctNames) :
    (decoder : Decoder ε Declaration).Reads d.encode d := by
  have hinputs : (map InputDecl.decoder : Decoder ε (OrderedMap InputDecl)).Reads
      (d.inputs.encode InputDecl.encode) d.inputs :=
    reads_map fun e he => InputDecl.reads_encode (hd.inputs e he)
  have houtputs : (map OutputDecl.decoder : Decoder ε (OrderedMap OutputDecl)).Reads
      (d.outputs.encode OutputDecl.encode) d.outputs :=
    reads_map fun e he => OutputDecl.reads_encode (hd.outputs e he)
  have hslots : (map SlotDecl.decoder : Decoder ε (OrderedMap SlotDecl)).Reads
      (d.slots.encode SlotDecl.encode) d.slots :=
    reads_map fun e he => SlotDecl.reads_encode (hd.slots e he)
  exact reads_record (.cons (f := field "name" ..) rfl ((reads_string d.name).field rfl)
    (.cons (f := field "inputs" ..) rfl (hinputs.field rfl)
      (.cons (f := field "outputs" ..) rfl (houtputs.field rfl)
        (.cons (f := field "slots" ..) rfl (hslots.field rfl) .nil)))) rfl

/-- A schema is made again of its value, and passes the check. -/
theorem NodeSchema.reads_encode {s : NodeSchema} (hd : s.toDeclaration.DistinctNames) :
    decoder.Reads s.encode s :=
  (Declaration.reads_encode hd).andThen (ofDeclaration_eq_ok_iff.mpr rfl)

/-! ### No numbers -/

theorem Json.fieldNumbers_eq_nil :
    ∀ {fields : List (String × Json)}, (∀ f ∈ fields, f.2.numbers = []) → fieldNumbers fields = []
  | [], _ => rfl
  | (_, v) :: rest, h => by
    rw [List.forall_mem_cons] at h
    rw [fieldNumbers, h.1, fieldNumbers_eq_nil h.2, List.nil_append]

theorem OrderedMap.numbers_encode {α : Type} {encode : α → Json} (m : OrderedMap α)
    (h : ∀ a, (encode a).numbers = []) : (m.encode encode).numbers = [] := by
  rw [OrderedMap.encode, numbers]
  refine fieldNumbers_eq_nil fun f hf => ?_
  obtain ⟨e, -, rfl⟩ := List.mem_map.mp hf
  exact h e.2

theorem InputDecl.numbers_encode (d : InputDecl) : d.encode.numbers = [] := by
  obtain ⟨type, doc⟩ := d
  cases doc <;> simp [encode, present, numbers, fieldNumbers, ValueType.numbers_encode]

theorem OutputDecl.numbers_encode (d : OutputDecl) : d.encode.numbers = [] := by
  obtain ⟨type, slot, doc⟩ := d
  cases slot <;> cases doc <;>
    simp [encode, present, numbers, fieldNumbers, ValueType.numbers_encode]

theorem SlotDecl.numbers_encode (d : SlotDecl) : d.encode.numbers = [] := by
  obtain ⟨inputs⟩ := d
  cases inputs with
  | none => rfl
  | some m => simp [encode, present, numbers, fieldNumbers, m.numbers_encode InputDecl.numbers_encode]

/-- The value of a schema holds no number. -/
theorem NodeSchema.numbers_encode (s : NodeSchema) : s.encode.numbers = [] := by
  simp [encode, Declaration.encode, numbers, fieldNumbers,
    s.inputs.numbers_encode InputDecl.numbers_encode,
    s.outputs.numbers_encode OutputDecl.numbers_encode,
    s.slots.numbers_encode SlotDecl.numbers_encode]

/-! ### Texts -/

/-- The texts of schemas and of types are decoded as the schemas and the types that were written, be
they indented or not. -/
theorem NodeSchema.run_schema_text :
    (∀ s : NodeSchema, s.toDeclaration.DistinctNames → s.encode.levels ≤ Reading.maxLevels →
      ∀ text ∈ [s.encode.compact, s.encode.pretty], decoder.run text = .ok s) ∧
    (∀ t : ValueType, t.DistinctNames → t.encode.levels ≤ Reading.maxLevels →
      ∀ text ∈ [t.encode.compact, t.encode.pretty],
        (ValueType.decoder : Decoder ε ValueType).run text = .ok t) := by
  constructor
  · intro s hd hlevels text htext
    exact (reads_encode hd).run (by simp [s.numbers_encode]) hlevels htext
  · intro t hd hlevels text htext
    exact (ValueType.reads_encode hd).run (by simp [t.numbers_encode]) hlevels htext

/-! ### A schema with every kind of part -/

/-- A type whose properties are not in the order of their names. -/
def boxType : ValueType :=
  .object [("width", .number), ("height", .union [.number, .null]),
    ("paint", .function [.array .string, .tuple []] .void)]

/-- A schema with every kind of part: an input with a description, an output that one slot alone
sees, a single slot, and collection slots with inputs and without. -/
def boxSchema : NodeSchema where
  toDeclaration := {
    name := "Box"
    inputs := OrderedMap.ofList [("size", { type := boxType, doc := some "in \"cm\"" }),
      ("label", { type := .string })]
    outputs := OrderedMap.ofList [("lid", { type := .entity "Lid", slot := some "top" })]
    slots := OrderedMap.ofList [("top", .single), ("notes", { inputs := some .empty }),
      ("items", { inputs := some (OrderedMap.ofList [("place", { type := .any })]) })] }
  faultless := by decide

theorem NodeSchema.run_schema_text_boxSchema :
    boxSchema.toDeclaration.DistinctNames ∧ boxSchema.encode.levels ≤ Reading.maxLevels ∧
      decoder.run boxSchema.encode.compact = .ok boxSchema ∧
      boxType.DistinctNames ∧ boxType.encode.levels ≤ Reading.maxLevels ∧
      (ValueType.decoder : Decoder SchemaError ValueType).run boxType.encode.pretty =
        .ok boxType := by
  have htype : boxType.DistinctNames := by
    simp [boxType, ValueType.DistinctNames, ValueType.DistinctNamesFields,
      ValueType.DistinctNamesAll]
  have hschema : boxSchema.toDeclaration.DistinctNames := by
    constructor <;>
      simp [boxSchema, OrderedMap.entries_ofList, OrderedMap.empty, SlotDecl.inputEntries,
        SlotDecl.single, ValueType.DistinctNames, htype]
  obtain ⟨hs, ht⟩ := @run_schema_text SchemaError
  exact ⟨hschema, by decide, hs boxSchema hschema (by decide) _ (by simp),
    htype, by decide, ht boxType htype (by decide) _ (by simp)⟩

end SlotTree
