import SlotTree.Json.Basic
import SlotTree.Map.Ordered

/-!
# Value types

The structural types of inputs, outputs and arguments.

## Main definitions

* `ValueType` — the types.
* `ValueType.isOptional` — whether a value may be left out.
* `ValueType.accepts` — whether a JSON value belongs to a type.
* `ValueType.property?` — the type of a property of a value.
* `ValueType.equals` — equality of types, whatever the order of properties.
* `ValueType.DistinctNames` — no object type names a property twice.
-/

namespace SlotTree

/-- A structural type. -/
inductive ValueType where
  /-- Every value. -/
  | any : ValueType
  /-- The texts. -/
  | string : ValueType
  /-- The numbers. -/
  | number : ValueType
  /-- The truth values. -/
  | boolean : ValueType
  /-- The null value alone. -/
  | null : ValueType
  /-- A missing value. -/
  | undefined : ValueType
  /-- The result of a function that gives none. -/
  | void : ValueType
  /-- Lists whose items have one type. -/
  | array (element : ValueType) : ValueType
  /-- Lists of fixed length, each item with a type of its own. -/
  | tuple (elements : List ValueType) : ValueType
  /-- Objects with at least the given properties. -/
  | object (properties : List (String × ValueType)) : ValueType
  /-- Values of any of several types. -/
  | union (variants : List ValueType) : ValueType
  /-- Functions of given parameters and result. -/
  | function (params : List ValueType) (returns : ValueType) : ValueType
  /-- A type known by its name only. -/
  | entity (name : String) : ValueType
  deriving Repr, Inhabited

namespace ValueType

/-! ### Optional types -/

mutual

/-- Whether a missing value belongs to a type. -/
def isOptional : ValueType → Bool
  | .any => true
  | .undefined => true
  | .union variants => anyOptional variants
  | _ => false

/-- Whether a missing value belongs to one of several types. -/
def anyOptional : List ValueType → Bool
  | [] => false
  | t :: rest => isOptional t || anyOptional rest

end

/-! ### Membership -/

mutual

/-- Whether a JSON value belongs to a type. -/
def accepts : ValueType → Json → Bool
  | .any, _ => true
  | .string, .string _ => true
  | .number, .number _ => true
  | .boolean, .bool _ => true
  | .null, .null => true
  | .array element, .array items => items.all fun item => accepts element item
  | .tuple elements, .array items => acceptsEach elements items
  | .object properties, .object fields => acceptsFields properties fields
  | .union variants, v => acceptsAny variants v
  | _, _ => false

/-- Whether a list has as many items as there are types, each of its type. -/
def acceptsEach : List ValueType → List Json → Bool
  | [], [] => true
  | t :: ts, v :: vs => accepts t v && acceptsEach ts vs
  | _, _ => false

/-- Whether the fields of an object have the types of given properties; a field whose type is
optional may be missing. -/
def acceptsFields : List (String × ValueType) → List (String × Json) → Bool
  | [], _ => true
  | (name, t) :: rest, fields =>
    (match List.lookup name fields with
      | some v => accepts t v
      | none => isOptional t) && acceptsFields rest fields

/-- Whether a value belongs to one of several types. -/
def acceptsAny : List ValueType → Json → Bool
  | [], _ => false
  | t :: rest, v => accepts t v || acceptsAny rest v

end

/-! ### Properties -/

/-- The type of the property of a value with a name, if values of the type have it. -/
def property? (name : String) : ValueType → Option ValueType
  | .object properties => List.lookup name properties
  | .array _ | .tuple _ | .string => if name = "length" then some .number else none
  | _ => none

/-! ### Equality -/

mutual

/-- Whether two types are the same; the order of properties does not count. -/
def equals : ValueType → ValueType → Bool
  | .any, .any => true
  | .string, .string => true
  | .number, .number => true
  | .boolean, .boolean => true
  | .null, .null => true
  | .undefined, .undefined => true
  | .void, .void => true
  | .array s, .array t => equals s t
  | .tuple ss, .tuple ts => equalLists ss ts
  | .object ps, .object qs => ps.length = qs.length && equalProperties ps qs
  | .union ss, .union ts => equalLists ss ts
  | .function ss s, .function ts t => equalLists ss ts && equals s t
  | .entity m, .entity n => m = n
  | _, _ => false

/-- Whether two lists of types are the same. -/
def equalLists : List ValueType → List ValueType → Bool
  | [], [] => true
  | s :: ss, t :: ts => equals s t && equalLists ss ts
  | _, _ => false

/-- Whether every one of some properties is the same among others. -/
def equalProperties : List (String × ValueType) → List (String × ValueType) → Bool
  | [], _ => true
  | (name, s) :: rest, qs =>
    (match List.lookup name qs with
      | some t => equals s t
      | none => false) && equalProperties rest qs

end

/-! ### Distinct names -/

mutual

/-- No object type, at any depth, names a property twice. -/
def DistinctNames : ValueType → Prop
  | .array t => DistinctNames t
  | .tuple ts => DistinctNamesAll ts
  | .object ps => (ps.map Prod.fst).Nodup ∧ DistinctNamesFields ps
  | .union ts => DistinctNamesAll ts
  | .function ts t => DistinctNamesAll ts ∧ DistinctNames t
  | _ => True

/-- `DistinctNames` for every type of a list. -/
def DistinctNamesAll : List ValueType → Prop
  | [] => True
  | t :: rest => DistinctNames t ∧ DistinctNamesAll rest

/-- `DistinctNames` for the type of every property. -/
def DistinctNamesFields : List (String × ValueType) → Prop
  | [] => True
  | (_, t) :: rest => DistinctNames t ∧ DistinctNamesFields rest

end

end ValueType

end SlotTree
