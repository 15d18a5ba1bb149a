import SlotTree.Expression.Basic
import SlotTree.Json.Decoder
import SlotTree.Json.Tagged

/-!
# Expressions in JSON

Expressions and selectors are tagged values; their tags stand under `type`.

## Main definitions

* `Expression.encode` — the value of an expression.
* `Expression.ofJson?` — the expression that a value describes.
* `Expression.decoder` — the decoder of expressions.
-/

namespace SlotTree

/-- The kinds of expressions, in the order of their tags. -/
inductive ExpressionKind where
  /-- `Expression.string`. -/
  | string : ExpressionKind
  /-- `Expression.number`. -/
  | number : ExpressionKind
  /-- `Expression.boolean`. -/
  | boolean : ExpressionKind
  /-- `Expression.json`. -/
  | json : ExpressionKind
  /-- `Expression.output`. -/
  | output : ExpressionKind
  deriving DecidableEq, Repr, Inhabited

namespace ExpressionKind

/-- All kinds, in order. -/
def all : List ExpressionKind := [.string, .number, .boolean, .json, .output]

/-- The tag of a kind. -/
def tag : ExpressionKind → String
  | .string => "string-literal"
  | .number => "number-literal"
  | .boolean => "boolean-literal"
  | .json => "json-literal"
  | .output => "node-output"

/-- A value of some kind: its tag, then its fields. -/
def tagged (kind : ExpressionKind) (fields : List (String × Json)) : Json :=
  .object (("type", .string kind.tag) :: fields)

end ExpressionKind

/-- The kinds of selectors, in the order of their tags. -/
inductive SelectorKind where
  /-- `Selector.property`. -/
  | property : SelectorKind
  /-- `Selector.method`. -/
  | method : SelectorKind
  /-- `Selector.call`. -/
  | call : SelectorKind
  deriving DecidableEq, Repr, Inhabited

namespace SelectorKind

/-- All kinds, in order. -/
def all : List SelectorKind := [.property, .method, .call]

/-- The tag of a kind. -/
def tag : SelectorKind → String
  | .property => "property"
  | .method => "method"
  | .call => "call"

/-- A value of some kind: its tag, then its fields. -/
def tagged (kind : SelectorKind) (fields : List (String × Json)) : Json :=
  .object (("type", .string kind.tag) :: fields)

end SelectorKind

namespace Expression

/-! ### Encoding -/

mutual

/-- The value of an expression.  The list of selectors is left out when it is empty. -/
def encode : Expression → Json
  | .string value => ExpressionKind.string.tagged [("value", .string value)]
  | .number value => ExpressionKind.number.tagged [("value", .float value)]
  | .boolean value => ExpressionKind.boolean.tagged [("value", .bool value)]
  | .json schemaName value =>
    ExpressionKind.json.tagged [("schemaName", .string schemaName), ("value", value.json)]
  | .output nodeId outputName [] =>
    ExpressionKind.output.tagged [("nodeId", .string nodeId), ("outputName", .string outputName)]
  | .output nodeId outputName (s :: rest) =>
    ExpressionKind.output.tagged [("nodeId", .string nodeId), ("outputName", .string outputName),
      ("selectors", .array (encodeSelectors (s :: rest)))]

/-- The values of some selectors. -/
def encodeSelectors : List (Selector Expression) → List Json
  | [] => []
  | .property name :: rest =>
    SelectorKind.property.tagged [("propertyName", .string name)] :: encodeSelectors rest
  | .method name args :: rest =>
    SelectorKind.method.tagged [("methodName", .string name), ("args", .array (encodeArgs args))] ::
      encodeSelectors rest
  | .call args :: rest =>
    SelectorKind.call.tagged [("args", .array (encodeArgs args))] :: encodeSelectors rest

/-- The values of some arguments; one that is left out is null. -/
def encodeArgs : List (Option Expression) → List Json
  | [] => []
  | none :: rest => .null :: encodeArgs rest
  | some e :: rest => encode e :: encodeArgs rest

end

/-! ### Decoding -/

/-- The arguments that a field describes; there are none if the field is absent. -/
def argsOf? (part : Json → Option Expression) : Option Json → Option (List (Option Expression))
  | none => some []
  | some (.array items) => items.mapM fun item => Json.absentOr part (some item)
  | some _ => none

/-- The selector that a value describes, where `part` decodes the arguments. -/
def selectorOf? (part : Json → Option Expression) (v : Json) : Option (Selector Expression) := do
  let (kind, body) ← v.tagged? "type" SelectorKind.all SelectorKind.tag true
  match kind with
  | .property =>
    match ← body.fields? ["propertyName"] with
    | [some (.string name)] => return .property name
    | _ => none
  | .method =>
    match ← body.fields? ["methodName", "args"] with
    | [some (.string name), args] => return .method name (← argsOf? part args)
    | _ => none
  | .call =>
    match ← body.fields? ["args"] with
    | [args] => return .call (← argsOf? part args)
    | _ => none

/-- The selectors that a field describes; there are none if the field is absent. -/
def selectorsOf? (part : Json → Option Expression) :
    Option Json → Option (List (Selector Expression))
  | none => some []
  | some (.array items) => items.mapM (selectorOf? part)
  | some _ => none

/-- The expression that a value describes, expressions inside one another at most so many levels
deep. -/
def ofJson? (inside : Bool) : Nat → Json → Option Expression
  | 0, _ => none
  | levels + 1, v => do
    let part := ofJson? true levels
    let (kind, body) ← v.tagged? "type" ExpressionKind.all ExpressionKind.tag inside
    match kind with
    | .string =>
      match ← body.fields? ["value"] with
      | [some (.string value)] => return .string value
      | _ => none
    | .number =>
      match ← body.fields? ["value"] with
      | [some (.number n)] => return .number n.toBinary64
      | _ => none
    | .boolean =>
      match ← body.fields? ["value"] with
      | [some (.bool value)] => return .boolean value
      | _ => none
    | .json =>
      match ← body.fields? ["schemaName", "value"] with
      | [some (.string schemaName), some value] => return .json schemaName value.freeForm
      | _ => none
    | .output =>
      match ← body.fields? ["nodeId", "outputName", "selectors"] with
      | [some (.string nodeId), some (.string outputName), selectors] =>
        return .output nodeId outputName (← selectorsOf? part selectors)
      | _ => none

/-- Decode an expression. -/
def decoder {ε : Type} : Decoder ε Expression := .ofJson? (ofJson? false (Reading.maxLevels + 1))

end Expression

end SlotTree
