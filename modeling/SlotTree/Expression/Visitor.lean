import SlotTree.Expression.Basic

/-!
# Walking over expressions

A visitor sees every part of an expression in order and may change the heads.  It carries a state
along, and decides for every selector whether the walk goes into its arguments.

Retargeting is a walk: every head of one node gets another node, and the state tells whether there
was one.

## Main definitions

* `Visitor`, `Expression.walk` — visitors, and the walk.
* `Expression.retarget?` — point the references to one node at another.
-/

namespace SlotTree

/-- What is done at the parts of an expression, with a state that is carried along. -/
structure Visitor (σ : Type) where
  /-- On coming to an expression, before it is walked. -/
  expression : Expression → σ → σ := fun _ s => s
  /-- At a head: the node and output to put in its place. -/
  head : String → String → σ → (String × String) × σ := fun nodeId outputName s =>
    ((nodeId, outputName), s)
  /-- On coming to a selector: whether to walk its arguments. -/
  selector : Selector Expression → σ → Bool × σ := fun _ s => (true, s)

namespace Expression

variable {σ : Type}

mutual

/-- Walk an expression: its head, then its selectors. -/
def walk (v : Visitor σ) (e : Expression) (s : σ) : Expression × σ :=
  match e with
  | .output nodeId outputName selectors =>
    let s := v.expression (.output nodeId outputName selectors) s
    let (head, s) := v.head nodeId outputName s
    let (selectors, s) := walkSelectors v selectors s
    (.output head.1 head.2 selectors, s)
  | .string value => (.string value, v.expression (.string value) s)
  | .number value => (.number value, v.expression (.number value) s)
  | .boolean value => (.boolean value, v.expression (.boolean value) s)
  | .json schemaName value => (.json schemaName value, v.expression (.json schemaName value) s)

/-- Walk selectors, one after the other. -/
def walkSelectors (v : Visitor σ) (selectors : List (Selector Expression)) (s : σ) :
    List (Selector Expression) × σ :=
  match selectors with
  | [] => ([], s)
  | .property name :: rest =>
    let (_, s) := v.selector (.property name) s
    let (rest, s) := walkSelectors v rest s
    (.property name :: rest, s)
  | .method name args :: rest =>
    let (enters, s) := v.selector (.method name args) s
    let (args, s) := if enters then walkArgs v args s else (args, s)
    let (rest, s) := walkSelectors v rest s
    (.method name args :: rest, s)
  | .call args :: rest =>
    let (enters, s) := v.selector (.call args) s
    let (args, s) := if enters then walkArgs v args s else (args, s)
    let (rest, s) := walkSelectors v rest s
    (.call args :: rest, s)

/-- Walk the arguments that are given, one after the other. -/
def walkArgs (v : Visitor σ) (args : List (Option Expression)) (s : σ) :
    List (Option Expression) × σ :=
  match args with
  | [] => ([], s)
  | none :: rest =>
    let (rest, s) := walkArgs v rest s
    (none :: rest, s)
  | some e :: rest =>
    let (e, s) := walk v e s
    let (rest, s) := walkArgs v rest s
    (some e :: rest, s)

end

/-- The visitor that changes nothing. -/
def idle : Visitor Unit := {}

/-- The visitor that puts one node in place of another, and notes whether it did. -/
def retargeting (old new : String) : Visitor Bool where
  head nodeId outputName changed :=
    if nodeId = old then ((new, outputName), true) else ((nodeId, outputName), changed)

/-- The expression with its references to one node pointed at another; none, if it has no such
reference. -/
def retarget? (old new : String) (e : Expression) : Option Expression :=
  match e.walk (retargeting old new) false with
  | (e, true) => some e
  | (_, false) => none

end Expression

end SlotTree
