/-!
# Binary64 numbers

The 64-bit binary floating-point numbers, held by their bits, with exact arithmetic on natural
numbers behind them: every finite number is a sign and a fraction of natural numbers, and every
operation is the exact fraction rounded once, to the nearest number, a tie going to the even one.

## Main definitions

* `twoTo`, `tenTo` — the powers of two and of ten that the formats of numbers use.
* `Binary64` — a number by its 64 bits, so that equality of numbers is equality of bits.
* `Binary64.equals` — comparison by value: both zeros are equal, and no NaN equals anything.
* `Binary64.ofRatio` — the number nearest to a fraction.
* `Binary64.mul`, `Binary64.div` — rounded product and quotient of magnitudes.
-/

namespace SlotTree

/-- A power of two. -/
def twoTo (k : Nat) : Nat := Nat.pow 2 k

/-- A power of ten. -/
def tenTo (k : Nat) : Nat := Nat.pow 10 k

/-- A 64-bit binary floating-point number: one bit of sign, eleven of exponent, fifty-two of
fraction. -/
structure Binary64 where
  /-- The sixty-four bits, the sign first. -/
  bits : UInt64
  deriving DecidableEq, Repr, Inhabited

namespace Binary64

/-! ### Parts of a number -/

/-- What the sign bit counts. -/
def signBit : Nat := 0x8000000000000000

/-- The number of fractions that go with one exponent. -/
def fractions : Nat := 0x10000000000000

/-- The bits of the positive infinity; the magnitudes of all finite numbers lie below. -/
def infinityBits : Nat := 0x7ff0000000000000

/-- Whether the sign bit is set. -/
def isNegative (x : Binary64) : Bool := signBit ≤ x.bits.toNat

/-- The bits without the sign. -/
def magnitude (x : Binary64) : Nat := x.bits.toNat % signBit

/-- Neither an infinity nor a NaN. -/
def isFinite (x : Binary64) : Bool := x.magnitude < infinityBits

/-- Not a number. -/
def isNaN (x : Binary64) : Bool := infinityBits < x.magnitude

/-- A zero of either sign. -/
def isZero (x : Binary64) : Bool := x.magnitude = 0

/-- A finite magnitude is `mantissa * 2 ^ (quantum - 1074)`; this is the mantissa. -/
def mantissa (x : Binary64) : Nat :=
  if x.magnitude < fractions then x.magnitude else fractions + x.magnitude % fractions

/-- The power of two, counted from the smallest one, of which the mantissa is a multiple. -/
def quantum (x : Binary64) : Nat := x.magnitude / fractions - 1

/-- A number with the given sign and magnitude bits. -/
def ofMagnitude (negative : Bool) (magnitude : Nat) : Binary64 :=
  ⟨UInt64.ofNat (if negative then signBit + magnitude else magnitude)⟩

/-- The same magnitude with the given sign. -/
def withSign (negative : Bool) (x : Binary64) : Binary64 := ofMagnitude negative x.magnitude

/-- The positive zero. -/
def zero : Binary64 := ⟨0⟩

/-- The positive infinity. -/
def infinity : Binary64 := ofMagnitude false infinityBits

/-- The negative infinity. -/
def negInfinity : Binary64 := ofMagnitude true infinityBits

/-- A NaN. -/
def nan : Binary64 := ofMagnitude false 0x7ff8000000000000

/-! ### Comparison by value -/

/-- Whether two numbers have the same value: the zeros of both signs are equal, and a NaN equals
nothing. -/
def equals (x y : Binary64) : Bool :=
  !x.isNaN && !y.isNaN && (x = y || (x.isZero && y.isZero))

/-! ### Rounding -/

/-- A quotient rounded to the nearest natural number, a tie going to the even one. -/
def roundQuotient (num den : Nat) : Nat :=
  let q := num / den
  let r := num % den
  if 2 * r < den then q
  else if den < 2 * r then q + 1
  else if q % 2 = 0 then q else q + 1

/-- The exponent of the highest power of two that does not exceed `num / den`, both positive. -/
def floorLog2 (num den : Nat) : Int :=
  let e : Int := (Nat.log2 num : Int) - Nat.log2 den
  let fits := if 0 ≤ e then den * twoTo e.toNat ≤ num else den ≤ num * twoTo (-e).toNat
  if fits then e else e - 1

/-- The magnitude nearest to `num / den`; one that lies too high is the infinity. -/
def ofRatio (num den : Nat) : Binary64 :=
  if num = 0 then zero
  else
    let quantum := (floorLog2 num den + 1022).toNat
    let mantissa :=
      if 1074 ≤ quantum then roundQuotient num (den * twoTo (quantum - 1074))
      else roundQuotient (num * twoTo (1074 - quantum)) den
    ofMagnitude false (min (quantum * fractions + mantissa) infinityBits)

/-- The numerator of a finite magnitude. -/
def num (x : Binary64) : Nat :=
  if 1074 ≤ x.quantum then x.mantissa * twoTo (x.quantum - 1074) else x.mantissa

/-- The denominator of a finite magnitude. -/
def den (x : Binary64) : Nat :=
  if 1074 ≤ x.quantum then 1 else twoTo (1074 - x.quantum)

/-- The number nearest to a natural number. -/
def ofNat (n : Nat) : Binary64 := ofRatio n 1

/-- The rounded product of two finite magnitudes. -/
def mul (x y : Binary64) : Binary64 := ofRatio (x.num * y.num) (x.den * y.den)

/-- The rounded quotient of two finite magnitudes, the second not zero. -/
def div (x y : Binary64) : Binary64 := ofRatio (x.num * y.den) (x.den * y.num)

end Binary64

end SlotTree
