import SlotTree.Json.Reading
import SlotTree.Map.Ordered

/-!
# Decoders

A decoder makes a value of some type from a reading, or says what is wrong with it.  There are two
kinds of fault: the text does not have the shape that is asked for (`malformed`), or the value it
describes is refused for a reason of its own (`rejected`).  A decoder walks its reading from left to
right and stops at the first fault.

A record is written as an object, its fields in any order, or as the list of its fields in their
order.  Unknown fields of an object are passed over, so they may hold anything that ends.

## Main definitions

* `Fault`, `Decoder` — what can go wrong, and decoders.
* `Decoder.record` — the decoder of a record, from its `Field`s.
* `Decoder.run` — decode a text.
-/

namespace SlotTree

/-- What is wrong with a text. -/
inductive Fault (ε : Type) where
  /-- The text does not have the shape that is asked for. -/
  | malformed : Fault ε
  /-- The value that the text describes is refused. -/
  | rejected (reason : ε) : Fault ε
  deriving DecidableEq, Repr, Inhabited

/-- A decoder takes the number of lists and objects that may still stand inside one another, and a
reading. -/
def Decoder (ε α : Type) : Type := Nat → Reading → Except (Fault ε) α

variable {ε α β σ : Type}

namespace Decoder

/-- The decoder that makes a value from the whole value of a reading. -/
def ofJson? (f : Json → Option α) : Decoder ε α := fun levels r =>
  match r.json? levels with
  | none => .error .malformed
  | some v =>
    match f v with
    | none => .error .malformed
    | some a => .ok a

/-- Decode a text. -/
def string : Decoder ε String
  | _, .string (some s) => .ok s
  | _, _ => .error .malformed

/-- Decode a truth value. -/
def bool : Decoder ε Bool
  | _, .bool b => .ok b
  | _, _ => .error .malformed

/-- Decode an unsigned integer of 64 bits. -/
def uint64 : Decoder ε UInt64
  | _, .number (some n) =>
    match n.natural? with
    | some n => .ok (UInt64.ofNat n)
    | none => .error .malformed
  | _, _ => .error .malformed

/-- Decode a value that may be null. -/
def optional (d : Decoder ε α) : Decoder ε (Option α)
  | _, .null => .ok none
  | levels, r => (d levels r).map some

/-- Pass over a value, which only has to end. -/
def skip : Decoder ε Unit := fun _ r => if r.isComplete then .ok () else .error .malformed

/-- Decode a value and keep it only if a check finds nothing against it. -/
def andThen (d : Decoder ε α) (f : α → Except ε β) : Decoder ε β := fun levels r =>
  match d levels r with
  | .error fault => .error fault
  | .ok a =>
    match f a with
    | .ok b => .ok b
    | .error reason => .error (.rejected reason)

/-! ### Lists and maps -/

/-- Decode items one after the other. -/
def items (d : Decoder ε α) (levels : Nat) : List Reading → Except (Fault ε) (List α)
  | [] => .ok []
  | r :: rest => do
    let a ← d levels r
    let as ← items d levels rest
    return a :: as

/-- Decode a list. -/
def list (d : Decoder ε α) : Decoder ε (List α)
  | levels + 1, .array rs complete => do
    let as ← items d levels rs
    if complete then return as else throw .malformed
  | _, _ => .error .malformed

/-- Decode fields one after the other into a map. -/
def entries (d : Decoder ε α) (levels : Nat) (m : OrderedMap α) :
    List (Option String × Reading) → Except (Fault ε) (OrderedMap α)
  | [] => .ok m
  | (none, _) :: _ => .error .malformed
  | (some k, r) :: rest => do
    let a ← d levels r
    entries d levels (m.insert k a) rest

/-- Decode an object as a map: of a repeated name the last value counts, and the first place. -/
def map (d : Decoder ε α) : Decoder ε (OrderedMap α)
  | levels + 1, .object fields complete => do
    let m ← entries d levels .empty fields
    if complete then return m else throw .malformed
  | _, _ => .error .malformed

/-! ### Records -/

/-- A field of a record: its name, and how its value is put into what is known of the record. -/
structure Field (ε σ : Type) where
  /-- The name of the field. -/
  name : String
  /-- Put the value of the field in. -/
  take : Nat → Reading → σ → Except (Fault ε) σ

/-- A field that may be given once. -/
def field (name : String) (get : σ → Option α) (set : α → σ → σ) (d : Decoder ε α) : Field ε σ where
  name := name
  take levels r s :=
    match get s with
    | some _ => .error .malformed
    | none => (d levels r).map fun a => set a s

/-- Take the fields of an object, in the order of the text. -/
def takeNamed (fields : List (Field ε σ)) (levels : Nat) (s : σ) :
    List (Option String × Reading) → Except (Fault ε) σ
  | [] => .ok s
  | (none, _) :: _ => .error .malformed
  | (some k, r) :: rest =>
    match fields.find? fun f => f.name = k with
    | some f => do takeNamed fields levels (← f.take levels r s) rest
    | none => do
      skip levels r
      takeNamed fields levels s rest

/-- Take the fields of a record that is written as a list. -/
def takeListed (levels : Nat) (s : σ) : List (Field ε σ) → List Reading → Except (Fault ε) σ
  | _, [] => .ok s
  | [], _ :: _ => .error .malformed
  | f :: fields, r :: rest => do takeListed levels (← f.take levels r s) fields rest

/-- Decode a record from its fields; `finish` makes the record, or nothing if a field is missing. -/
def record (fields : List (Field ε σ)) (start : σ) (finish : σ → Option α) : Decoder ε α :=
  fun levels r =>
    match levels, r with
    | levels + 1, .object rs complete => do
      let s ← takeNamed fields levels start rs
      if complete then (finish s).elim (throw .malformed) pure else throw .malformed
    | levels + 1, .array rs complete => do
      let s ← takeListed levels start fields rs
      if complete then (finish s).elim (throw .malformed) pure else throw .malformed
    | _, _ => .error .malformed

/-! ### Texts -/

/-- Decode a reading of which is known whether anything follows it. -/
def runReading (d : Decoder ε α) (r : Reading) (ends : Bool) : Except (Fault ε) α := do
  let a ← d Reading.maxLevels r
  if ends then return a else throw .malformed

/-- Decode a text, which holds one value and nothing else. -/
def run (d : Decoder ε α) (s : String) : Except (Fault ε) α :=
  d.runReading (Reading.ofText s).1 (Reading.ofText s).2

end Decoder

end SlotTree
