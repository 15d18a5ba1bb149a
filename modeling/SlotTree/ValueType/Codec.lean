import SlotTree.Json.Decoder
import SlotTree.Json.Tagged
import SlotTree.ValueType.Basic

/-!
# Types in JSON

A type is a tagged value; its tag stands under `kind`.

## Main definitions

* `ValueType.encode` — the value of a type.
* `ValueType.ofJson?` — the type that a value describes.
* `ValueType.decoder` — the decoder of types.
-/

namespace SlotTree

/-- The kinds of types, in the order of their tags. -/
inductive TypeKind where
  /-- `ValueType.any`. -/
  | any : TypeKind
  /-- `ValueType.string`. -/
  | string : TypeKind
  /-- `ValueType.number`. -/
  | number : TypeKind
  /-- `ValueType.boolean`. -/
  | boolean : TypeKind
  /-- `ValueType.null`. -/
  | null : TypeKind
  /-- `ValueType.undefined`. -/
  | undefined : TypeKind
  /-- `ValueType.void`. -/
  | void : TypeKind
  /-- `ValueType.array`. -/
  | array : TypeKind
  /-- `ValueType.tuple`. -/
  | tuple : TypeKind
  /-- `ValueType.object`. -/
  | object : TypeKind
  /-- `ValueType.union`. -/
  | union : TypeKind
  /-- `ValueType.function`. -/
  | function : TypeKind
  /-- `ValueType.entity`. -/
  | entity : TypeKind
  deriving DecidableEq, Repr, Inhabited

namespace TypeKind

/-- All kinds, in order. -/
def all : List TypeKind :=
  [.any, .string, .number, .boolean, .null, .undefined, .void, .array, .tuple, .object, .union,
    .function, .entity]

/-- The tag of a kind. -/
def tag : TypeKind → String
  | .any => "any"
  | .string => "string"
  | .number => "number"
  | .boolean => "boolean"
  | .null => "null"
  | .undefined => "undefined"
  | .void => "void"
  | .array => "array"
  | .tuple => "tuple"
  | .object => "object"
  | .union => "union"
  | .function => "function"
  | .entity => "entity"

/-- A value of some kind: its tag, then its fields. -/
def tagged (kind : TypeKind) (fields : List (String × Json)) : Json :=
  .object (("kind", .string kind.tag) :: fields)

end TypeKind

namespace ValueType

mutual

/-- The value of a type. -/
def encode : ValueType → Json
  | .any => TypeKind.any.tagged []
  | .string => TypeKind.string.tagged []
  | .number => TypeKind.number.tagged []
  | .boolean => TypeKind.boolean.tagged []
  | .null => TypeKind.null.tagged []
  | .undefined => TypeKind.undefined.tagged []
  | .void => TypeKind.void.tagged []
  | .array t => TypeKind.array.tagged [("element", encode t)]
  | .tuple ts => TypeKind.tuple.tagged [("elements", .array (encodeList ts))]
  | .object ps => TypeKind.object.tagged [("properties", .object (encodeProperties ps))]
  | .union ts => TypeKind.union.tagged [("variants", .array (encodeList ts))]
  | .function ts t =>
    TypeKind.function.tagged [("params", .array (encodeList ts)), ("returns", encode t)]
  | .entity name => TypeKind.entity.tagged [("name", .string name)]

/-- The values of some types. -/
def encodeList : List ValueType → List Json
  | [] => []
  | t :: rest => encode t :: encodeList rest

/-- The fields of some properties. -/
def encodeProperties : List (String × ValueType) → List (String × Json)
  | [] => []
  | (name, t) :: rest => (name, encode t) :: encodeProperties rest

end

/-- The type that a value describes, types inside one another at most so many levels deep. -/
def ofJson? (inside : Bool) : Nat → Json → Option ValueType
  | 0, _ => none
  | levels + 1, v => do
    let part := ofJson? true levels
    let (kind, body) ← v.tagged? "kind" TypeKind.all TypeKind.tag inside
    match kind with
    | .any => (body.fields? []).map fun _ => .any
    | .string => (body.fields? []).map fun _ => .string
    | .number => (body.fields? []).map fun _ => .number
    | .boolean => (body.fields? []).map fun _ => .boolean
    | .null => (body.fields? []).map fun _ => .null
    | .undefined => (body.fields? []).map fun _ => .undefined
    | .void => (body.fields? []).map fun _ => .void
    | .array =>
      match ← body.fields? ["element"] with
      | [some t] => return .array (← part t)
      | _ => none
    | .tuple =>
      match ← body.fields? ["elements"] with
      | [some (.array ts)] => return .tuple (← ts.mapM part)
      | _ => none
    | .object =>
      match ← body.fields? ["properties"] with
      | [some (.object ps)] =>
        let ps ← ps.mapM fun p => (part p.2).map fun t => (p.1, t)
        return .object (OrderedMap.ofList ps).entries
      | _ => none
    | .union =>
      match ← body.fields? ["variants"] with
      | [some (.array ts)] => return .union (← ts.mapM part)
      | _ => none
    | .function =>
      match ← body.fields? ["params", "returns"] with
      | [some (.array ts), some t] => return .function (← ts.mapM part) (← part t)
      | _ => none
    | .entity =>
      match ← body.fields? ["name"] with
      | [some (.string name)] => return .entity name
      | _ => none

/-- Decode a type. -/
def decoder {ε : Type} : Decoder ε ValueType := .ofJson? (ofJson? false (Reading.maxLevels + 1))

end ValueType

end SlotTree
