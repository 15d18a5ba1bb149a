import SlotTree.Expression.Visitor
import SlotTree.Expression.Error
import SlotTree.Schema.Definitions
import SlotTree.ValueType.Assignable

/-!
# Typed expressions

An expression is checked in a context, which knows the outputs that can be seen, the kinds of JSON
literals and the extension methods.  What passes the check is a typed expression: the same
expression together with the types that were found for its literals and outputs.

## Main definitions

* `TypedExpression`, `TypedExpression.type`, `TypedExpression.erase` — typed expressions, their
  type, and the expression they came from.
* `Context` — what names in an expression refer to.
* `Expression.resolve` — find the type of an expression.
* `Expression.check` — find it, and compare it with the type that is asked for.
-/

namespace SlotTree

/-- An expression with the types that were found for it. -/
inductive TypedExpression where
  /-- A text. -/
  | string (value : String) : TypedExpression
  /-- A number. -/
  | number (value : Binary64) : TypedExpression
  /-- A truth value. -/
  | boolean (value : Bool) : TypedExpression
  /-- Free-form data, with the type of its kind. -/
  | json (schemaName : String) (value : FreeForm) (type : ValueType) : TypedExpression
  /-- An output of a node above, the steps from there, and the type they lead to. -/
  | output (nodeId outputName : String) (selectors : List (Selector TypedExpression))
      (type : ValueType) : TypedExpression
  deriving Repr, Inhabited

namespace TypedExpression

/-- The type of a typed expression. -/
def type : TypedExpression → ValueType
  | .string _ => .string
  | .number _ => .number
  | .boolean _ => .boolean
  | .json _ _ type => type
  | .output _ _ _ type => type

mutual

/-- The expression without its types. -/
def erase : TypedExpression → Expression
  | .string value => .string value
  | .number value => .number value
  | .boolean value => .boolean value
  | .json schemaName value _ => .json schemaName value
  | .output nodeId outputName selectors _ => .output nodeId outputName (eraseSelectors selectors)

/-- Selectors without the types of their arguments. -/
def eraseSelectors : List (Selector TypedExpression) → List (Selector Expression)
  | [] => []
  | .property name :: rest => .property name :: eraseSelectors rest
  | .method name args :: rest => .method name (eraseArgs args) :: eraseSelectors rest
  | .call args :: rest => .call (eraseArgs args) :: eraseSelectors rest

/-- Arguments without their types. -/
def eraseArgs : List (Option TypedExpression) → List (Option Expression)
  | [] => []
  | none :: rest => none :: eraseArgs rest
  | some e :: rest => some (erase e) :: eraseArgs rest

end

/-- The expression with its references to one node pointed at another; none, if it has no such
reference. -/
def retarget? (old new : String) (e : TypedExpression) : Option Expression :=
  e.erase.retarget? old new

mutual

/-- Whether two typed expressions are the same, numbers compared by value. -/
def equals : TypedExpression → TypedExpression → Bool
  | .string s, .string t => s = t
  | .number x, .number y => x.equals y
  | .boolean a, .boolean b => a = b
  | .json m x s, .json n y t => m = n && x.json.equals y.json && s.equals t
  | .output n o ss s, .output n' o' ts t =>
    n = n' && o = o' && equalSelectors ss ts && s.equals t
  | _, _ => false

/-- Whether two lists of selectors are the same. -/
def equalSelectors : List (Selector TypedExpression) → List (Selector TypedExpression) → Bool
  | [], [] => true
  | .property m :: ss, .property n :: ts => m = n && equalSelectors ss ts
  | .method m as :: ss, .method n bs :: ts => m = n && equalArgs as bs && equalSelectors ss ts
  | .call as :: ss, .call bs :: ts => equalArgs as bs && equalSelectors ss ts
  | _, _ => false

/-- Whether two lists of arguments are the same. -/
def equalArgs : List (Option TypedExpression) → List (Option TypedExpression) → Bool
  | [], [] => true
  | none :: as, none :: bs => equalArgs as bs
  | some a :: as, some b :: bs => equals a b && equalArgs as bs
  | _, _ => false

end

end TypedExpression

/-- What the names in an expression refer to. -/
structure Context where
  /-- The kind of JSON literals with a name. -/
  literal : String → Except ExpressionError JsonLiteral
  /-- The extension method with a name. -/
  method : String → Except ExpressionError ExtensionMethod
  /-- The type of an output of a node. -/
  outputType : String → String → Except ExpressionError ValueType

/-- The context of definitions, where outputs are looked up by a function. -/
def Definitions.context (defs : Definitions)
    (outputType : String → String → Except ExpressionError ValueType) : Context where
  literal name := (defs.literal name).mapError .schema
  method name := (defs.method name).mapError .schema
  outputType := outputType

namespace TypedExpression

/-- Accept a typed expression where a type is asked for. -/
def conform (expected : ValueType) (e : TypedExpression) : Except ExpressionError TypedExpression :=
  if e.type.assignable expected then .ok e else .error (.typeMismatch expected e.type)

end TypedExpression

namespace Expression

mutual

/-- Find the types of an expression. -/
def resolve (ctx : Context) : Expression → Except ExpressionError TypedExpression
  | .string value => .ok (.string value)
  | .number value =>
    if value.isFinite then .ok (.number value) else .error (.invalid (.notFinite value))
  | .boolean value => .ok (.boolean value)
  | .json schemaName value => do
    let literal ← ctx.literal schemaName
    if literal.type.accepts value.json then .ok (.json schemaName value literal.type)
    else .error (.invalid (.literalMismatch schemaName))
  | .output nodeId outputName selectors => do
    let type ← ctx.outputType nodeId outputName
    let (selectors, type) ← resolveSelectors ctx type selectors
    return .output nodeId outputName selectors type

/-- Find the types along selectors that start from a value of some type, and the type they lead
to. -/
def resolveSelectors (ctx : Context) (type : ValueType) : List (Selector Expression) →
    Except ExpressionError (List (Selector TypedExpression) × ValueType)
  | [] => .ok ([], type)
  | .property name :: rest =>
    match type.property? name with
    | none => .error (.invalid (.noProperty name type))
    | some next => do
      let (rest, last) ← resolveSelectors ctx next rest
      return (.property name :: rest, last)
  | .method name args :: rest => do
    let method ← ctx.method name
    if type.assignable method.selfType then
      if args.length = method.params.length then
        let args ← resolveArgs ctx 0 method.params args
        let (rest, last) ← resolveSelectors ctx method.returns rest
        return (.method name args :: rest, last)
      else .error (.invalid (.argumentCount method.params.length args.length))
    else .error (.invalid (.notCallableOn name type))
  | .call args :: rest =>
    match type with
    | .function params returns =>
      if args.length = params.length then do
        let args ← resolveArgs ctx 0 params args
        let (rest, last) ← resolveSelectors ctx returns rest
        return (.call args :: rest, last)
      else .error (.invalid (.argumentCount params.length args.length))
    | type => .error (.invalid (.notCallable type))

/-- Find the types of arguments and compare each with the type of its parameter.  An argument may be
left out where the type of the parameter is optional. -/
def resolveArgs (ctx : Context) (index : Nat) (params : List ValueType) :
    List (Option Expression) → Except ExpressionError (List (Option TypedExpression))
  | [] => .ok []
  | arg :: rest =>
    match params with
    | [] => .ok []
    | param :: params => do
      let arg ← match arg with
        | some e => do
          let e ← resolve ctx e
          (e.conform param).map some
        | none =>
          if param.isOptional then .ok none else .error (.invalid (.missingArgument index))
      let rest ← resolveArgs ctx (index + 1) params rest
      return arg :: rest

end

/-- Find the types of an expression and compare its type with the one that is asked for. -/
def check (ctx : Context) (expected : ValueType) (e : Expression) :
    Except ExpressionError TypedExpression := do
  let e ← e.resolve ctx
  e.conform expected

end Expression

end SlotTree
