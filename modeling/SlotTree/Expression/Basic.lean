import SlotTree.Json.Basic

/-!
# Expressions

What can be bound to an input: a literal, or an output of a node above, followed by selectors that
read a property, call an extension method, or call a function.

The *head* of an expression is the node and output it starts from; the arguments of calls have heads
of their own.

## Main definitions

* `Expression`, `Selector` — expressions as they are written.
* `Expression.heads` — all heads, at any depth.
* `Expression.relabel` — a function applied to the node of every head.
-/

namespace SlotTree

/-- One step from a value to another; `ε` is the type of the arguments. -/
inductive Selector (ε : Type) where
  /-- Read a property. -/
  | property (name : String) : Selector ε
  /-- Call an extension method.  An argument may be left out. -/
  | method (name : String) (args : List (Option ε)) : Selector ε
  /-- Call the value itself.  An argument may be left out. -/
  | call (args : List (Option ε)) : Selector ε
  deriving Repr, Inhabited

/-- An expression as it is written. -/
inductive Expression where
  /-- A text. -/
  | string (value : String) : Expression
  /-- A number. -/
  | number (value : Binary64) : Expression
  /-- A truth value. -/
  | boolean (value : Bool) : Expression
  /-- Free-form data of a kind that is known by its name. -/
  | json (schemaName : String) (value : FreeForm) : Expression
  /-- An output of a node above, and the steps from there. -/
  | output (nodeId outputName : String) (selectors : List (Selector Expression)) : Expression
  deriving Repr, Inhabited

namespace Expression

/-! ### Heads -/

mutual

/-- The heads of an expression, at any depth: node and output. -/
def heads : Expression → List (String × String)
  | .output nodeId outputName selectors => (nodeId, outputName) :: selectorHeads selectors
  | .string _ | .number _ | .boolean _ | .json _ _ => []

/-- The heads in the arguments of some selectors. -/
def selectorHeads : List (Selector Expression) → List (String × String)
  | [] => []
  | .property _ :: rest => selectorHeads rest
  | .method _ args :: rest => argHeads args ++ selectorHeads rest
  | .call args :: rest => argHeads args ++ selectorHeads rest

/-- The heads in some arguments. -/
def argHeads : List (Option Expression) → List (String × String)
  | [] => []
  | none :: rest => argHeads rest
  | some e :: rest => heads e ++ argHeads rest

end

/-! ### Relabelling -/

mutual

/-- The expression with a function applied to the node of every head, at any depth. -/
def relabel (f : String → String) : Expression → Expression
  | .output nodeId outputName selectors =>
    .output (f nodeId) outputName (relabelSelectors f selectors)
  | .string value => .string value
  | .number value => .number value
  | .boolean value => .boolean value
  | .json schemaName value => .json schemaName value

/-- `relabel` in the arguments of some selectors. -/
def relabelSelectors (f : String → String) :
    List (Selector Expression) → List (Selector Expression)
  | [] => []
  | .property name :: rest => .property name :: relabelSelectors f rest
  | .method name args :: rest => .method name (relabelArgs f args) :: relabelSelectors f rest
  | .call args :: rest => .call (relabelArgs f args) :: relabelSelectors f rest

/-- `relabel` in some arguments. -/
def relabelArgs (f : String → String) : List (Option Expression) → List (Option Expression)
  | [] => []
  | none :: rest => none :: relabelArgs f rest
  | some e :: rest => some (relabel f e) :: relabelArgs f rest

end

/-! ### Equality of data -/

mutual

/-- Whether two expressions are the same, numbers compared by value. -/
def equals : Expression → Expression → Bool
  | .string s, .string t => s = t
  | .number x, .number y => x.equals y
  | .boolean a, .boolean b => a = b
  | .json m x, .json n y => m = n && x.json.equals y.json
  | .output n o ss, .output n' o' ts => n = n' && o = o' && equalSelectors ss ts
  | _, _ => false

/-- Whether two lists of selectors are the same. -/
def equalSelectors : List (Selector Expression) → List (Selector Expression) → Bool
  | [], [] => true
  | .property m :: ss, .property n :: ts => m = n && equalSelectors ss ts
  | .method m as :: ss, .method n bs :: ts => m = n && equalArgs as bs && equalSelectors ss ts
  | .call as :: ss, .call bs :: ts => equalArgs as bs && equalSelectors ss ts
  | _, _ => false

/-- Whether two lists of arguments are the same. -/
def equalArgs : List (Option Expression) → List (Option Expression) → Bool
  | [], [] => true
  | none :: as, none :: bs => equalArgs as bs
  | some a :: as, some b :: bs => equals a b && equalArgs as bs
  | _, _ => false

end

end Expression

end SlotTree
