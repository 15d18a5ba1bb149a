import SlotTree.ValueType.Basic

/-!
# Assignability

Whether a value of one type may stand where another type is asked for.

The rules are tried in order: everything goes where any value is asked for; a union goes where all
its variants go; something goes where a union is asked for if it goes to one variant; then the two
types are compared by their structure.  The parameters of functions are compared the other way
round.

## Main definitions

* `ValueType.assignable` — the relation.

## Main results

* `ValueType.assignable_undefined` — a missing value goes exactly where the type is optional.
-/

namespace SlotTree.ValueType

theorem sizeOf_lt_of_lookup {name : String} {t : ValueType} {ps : List (String × ValueType)}
    (h : List.lookup name ps = some t) : sizeOf t < sizeOf ps := by
  have hmem := List.sizeOf_lt_of_mem (mem_of_lookup h)
  have hpair : sizeOf (name, t) = 1 + sizeOf name + sizeOf t := rfl
  omega

mutual

/-- Whether a value of the first type may stand where the second is asked for. -/
def assignable (source target : ValueType) : Bool :=
  match source, target with
  | _, .any => true
  | .union variants, target => allAssignable variants target
  | source, .union variants => anyAssignable source variants
  | .string, .string => true
  | .number, .number => true
  | .boolean, .boolean => true
  | .null, .null => true
  | .undefined, .undefined => true
  | .void, .void => true
  | .array s, .array t => assignable s t
  | .tuple ss, .tuple ts => eachAssignable ss ts
  | .tuple ss, .array t => allAssignable ss t
  | .object ps, .object qs => propertiesAssignable ps qs
  | .function ss s, .function ts t => eachAssignable ts ss && assignable s t
  | .entity m, .entity n => m = n
  | _, _ => false
termination_by sizeOf source + sizeOf target

/-- Whether every one of several types may stand where one is asked for. -/
def allAssignable (sources : List ValueType) (target : ValueType) : Bool :=
  match sources with
  | [] => true
  | s :: rest => assignable s target && allAssignable rest target
termination_by sizeOf sources + sizeOf target

/-- Whether a type may stand where one of several is asked for. -/
def anyAssignable (source : ValueType) (targets : List ValueType) : Bool :=
  match targets with
  | [] => false
  | t :: rest => assignable source t || anyAssignable source rest
termination_by sizeOf source + sizeOf targets

/-- Whether two lists of types have one length and every type may stand for its partner. -/
def eachAssignable (sources targets : List ValueType) : Bool :=
  match sources, targets with
  | [], [] => true
  | s :: ss, t :: ts => assignable s t && eachAssignable ss ts
  | _, _ => false
termination_by sizeOf sources + sizeOf targets

/-- Whether an object with some properties has others: each under its name, or left out where its
type is optional. -/
def propertiesAssignable (sources targets : List (String × ValueType)) : Bool :=
  match targets with
  | [] => true
  | (name, t) :: rest =>
    (match _h : List.lookup name sources with
      | some s => assignable s t
      | none => t.isOptional) && propertiesAssignable sources rest
termination_by sizeOf sources + sizeOf targets
decreasing_by
  · have := sizeOf_lt_of_lookup ‹_ = some s›
    simp only [List.cons.sizeOf_spec, Prod.mk.sizeOf_spec]
    omega
  · simp only [List.cons.sizeOf_spec, Prod.mk.sizeOf_spec]
    omega

end

mutual

theorem assignable_undefined : ∀ t : ValueType, assignable .undefined t = t.isOptional
  | .any => by simp [assignable, isOptional]
  | .undefined => by simp [assignable, isOptional]
  | .union ts => by simp [assignable, isOptional, anyAssignable_undefined ts]
  | .string => by simp [assignable, isOptional]
  | .number => by simp [assignable, isOptional]
  | .boolean => by simp [assignable, isOptional]
  | .null => by simp [assignable, isOptional]
  | .void => by simp [assignable, isOptional]
  | .array _ => by simp [assignable, isOptional]
  | .tuple _ => by simp [assignable, isOptional]
  | .object _ => by simp [assignable, isOptional]
  | .function _ _ => by simp [assignable, isOptional]
  | .entity _ => by simp [assignable, isOptional]

theorem anyAssignable_undefined :
    ∀ ts : List ValueType, anyAssignable .undefined ts = anyOptional ts
  | [] => by simp [anyAssignable, anyOptional]
  | t :: rest => by
    simp [anyAssignable, anyOptional, assignable_undefined t, anyAssignable_undefined rest]

end

end SlotTree.ValueType
