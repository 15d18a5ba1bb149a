import SlotTree.Decimal.Shortest

/-!
# Numbers of a JSON text

A number of a text is an integer of at most 64 bits, signed or unsigned, or else a finite binary64
number.  `Numeral` is what stands in the text; `Numeral.value?` is the number it means.

The digits of a numeral are collected into one 64-bit significand.  A digit of the whole part that
no longer fits counts as a power of ten; from the first digit of the fraction that does not fit, the
rest of the fraction is dropped.  The significand is then rounded to binary64 and multiplied, or
divided, by the power of ten, which is rounded too.  A numeral of ordinary length is read to the
nearest number; a long one may come out a unit in the last place beside it.

## Main definitions

* `Number` — the numbers of a text.
* `Numeral.scan` — the numeral at the start of a text.
* `Numeral.value?` — its number; nothing when it lies out of range.
* `Number.write` — the text of a number.
-/

namespace SlotTree

/-! ### Numbers -/

/-- A number of a JSON text. -/
inductive Number where
  /-- An integer that fits 64 bits, signed or unsigned. -/
  | integer (n : Int) (fits : -0x8000000000000000 ≤ n ∧ n < 0x10000000000000000) : Number
  /-- Any other number, a negative zero among them. -/
  | float (x : Binary64) (finite : x.isFinite = true) : Number
  deriving DecidableEq, Repr

namespace Number

instance : Inhabited Number := ⟨.integer 0 (by decide)⟩

/-- The binary64 number nearest to a number. -/
def toBinary64 : Number → Binary64
  | .integer n _ => (Binary64.ofNat n.natAbs).withSign (n < 0)
  | .float x _ => x

/-- The number as a natural number, if it is an integer and not negative. -/
def natural? : Number → Option Nat
  | .integer n _ => if 0 ≤ n then some n.toNat else none
  | .float _ _ => none

/-- Whether two numbers are equal: integers to integers, others by value. -/
def equals : Number → Number → Bool
  | .integer m _, .integer n _ => m = n
  | .float x _, .float y _ => x.equals y
  | _, _ => false

/-- An integer as a number: exact if it fits. -/
def ofInt? (n : Int) : Option Number :=
  if fits : -0x8000000000000000 ≤ n ∧ n < 0x10000000000000000 then some (.integer n fits) else none

/-- A binary64 number as a number, if it is finite. -/
def ofBinary64? (x : Binary64) : Option Number :=
  if finite : x.isFinite = true then some (.float x finite) else none

/-- Numbers from `0.00001` to below `1e16` are written positionally. -/
def layout : Layout := ⟨-5, 15⟩

/-- The text of a number. -/
def write : Number → List Char
  | .integer n _ => integerText n
  | .float x _ => x.write layout

end Number

/-! ### Numerals -/

/-- The parts of a numeral. -/
structure Numeral where
  /-- Whether a minus sign stands in front. -/
  negative : Bool
  /-- The digits before the point. -/
  whole : List Nat
  /-- The digits after the point, if there is one. -/
  fraction : Option (List Nat)
  /-- The exponent, if there is one: whether it is negative, and its digits. -/
  exponent : Option (Bool × List Nat)
  deriving DecidableEq, Repr, Inhabited

/-- The value of a decimal digit. -/
def digitValue? (c : Char) : Option Nat :=
  if '0' ≤ c ∧ c ≤ '9' then some (c.toNat - '0'.toNat) else none

/-- The digits at the start of a text, and what follows them. -/
def takeDigits : List Char → List Nat × List Char
  | [] => ([], [])
  | c :: cs =>
    match digitValue? c with
    | some d => (d :: (takeDigits cs).1, (takeDigits cs).2)
    | none => ([], c :: cs)

namespace Numeral

/-- The fraction at the start of a text: a point with at least one digit behind it, or nothing. -/
def scanFraction : List Char → Option (Option (List Nat) × List Char)
  | '.' :: cs =>
    match takeDigits cs with
    | ([], _) => none
    | (ds, rest) => some (some ds, rest)
  | cs => some (none, cs)

/-- The digits of an exponent, of which there is at least one. -/
def scanExponentDigits (negative : Bool) (cs : List Char) :
    Option (Option (Bool × List Nat) × List Char) :=
  match takeDigits cs with
  | ([], _) => none
  | (ds, rest) => some (some (negative, ds), rest)

/-- The exponent at the start of a text, or nothing. -/
def scanExponent : List Char → Option (Option (Bool × List Nat) × List Char)
  | 'e' :: '+' :: cs | 'E' :: '+' :: cs => scanExponentDigits false cs
  | 'e' :: '-' :: cs | 'E' :: '-' :: cs => scanExponentDigits true cs
  | 'e' :: cs | 'E' :: cs => scanExponentDigits false cs
  | cs => some (none, cs)

/-- The whole part at the start of a text: digits, the first of several not zero. -/
def scanWhole (cs : List Char) : Option (List Nat × List Char) :=
  match takeDigits cs with
  | ([], _) => none
  | (0 :: _ :: _, _) => none
  | (ds, rest) => some (ds, rest)

/-- The numeral at the start of a text, and what follows it. -/
def scan (cs : List Char) : Option (Numeral × List Char) := do
  let (negative, cs) := match cs with
    | '-' :: cs => (true, cs)
    | cs => (false, cs)
  let (whole, cs) ← scanWhole cs
  let (fraction, cs) ← scanFraction cs
  let (exponent, cs) ← scanExponent cs
  return (⟨negative, whole, fraction, exponent⟩, cs)

/-! ### The value of a numeral -/

/-- Digits appended to a significand as long as it fits 64 bits, and the digits left over. -/
def absorb (significand : Nat) : List Nat → Nat × List Nat
  | [] => (significand, [])
  | d :: ds =>
    if significand * 10 + d < UInt64.size then absorb (significand * 10 + d) ds
    else (significand, d :: ds)

/-- The natural number that digits spell. -/
def digitsValue (ds : List Nat) : Nat := ds.foldl (fun n d => n * 10 + d) 0

/-- The highest power of ten that is taken in one step. -/
def greatestStep : Nat := 308

/-- A magnitude divided by a power of ten, in steps of at most `greatestStep`. -/
def scaleDown (x : Binary64) (k : Nat) : Binary64 :=
  if k ≤ greatestStep then x.div (Binary64.ofNat (tenTo k))
  else if x.isZero then x
  else scaleDown (x.div (Binary64.ofNat (tenTo greatestStep))) (k - greatestStep)
termination_by k
decreasing_by simp only [greatestStep] at *; omega

/-- A significand times a power of ten, if that is not too large. -/
def scaled? (significand : Nat) (power : Int) : Option Binary64 :=
  let x := Binary64.ofNat significand
  if power < 0 then some (scaleDown x power.natAbs)
  else if power ≤ greatestStep then
    let y := x.mul (Binary64.ofNat (tenTo power.toNat))
    if y.isFinite then some y else none
  else if x.isZero then some x
  else none

/-- The number that a numeral means.  A numeral without fraction and exponent is an integer when it
fits, but a negative zero is not; a number too large for binary64 is refused. -/
def value? (t : Numeral) : Option Number :=
  let (significand, left) := absorb 0 t.whole
  match left, t.fraction, t.exponent with
  | [], none, none =>
    if t.negative then
      if significand = 0 then Number.ofBinary64? (Binary64.zero.withSign true)
      else
        match Number.ofInt? (-significand) with
        | some n => some n
        | none => Number.ofBinary64? ((Binary64.ofNat significand).withSign true)
    else Number.ofInt? significand
  | _, _, _ =>
    let digits := t.fraction.getD []
    let (significand, dropped) := absorb significand digits
    let power : Int := left.length - ((digits.length : Int) - dropped.length)
    let power := match t.exponent with
      | none => power
      | some (true, ds) => power - digitsValue ds
      | some (false, ds) => power + digitsValue ds
    match scaled? significand power with
    | some x => Number.ofBinary64? (x.withSign t.negative)
    | none => none

end Numeral

end SlotTree
