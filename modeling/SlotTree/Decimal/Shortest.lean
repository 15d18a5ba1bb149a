import SlotTree.Decimal.Binary64

/-!
# Shortest decimals

The decimal with the fewest digits that rounds to a given binary64 number, and its written form.

The reals that round to a number form an interval around it; its ends belong to it exactly when the
mantissa is even.  `Binary64.shortest` looks for a decimal in that interval with one digit, then
with two, and so on; on each grid only the two neighbours of the number have to be tried, and the
nearer one is taken when both lie inside.  Seventeen digits always suffice.

A `Layout` says how a decimal is written: positionally while its exponent lies between two bounds,
and otherwise with an exponent.

## Main definitions

* `Decimal` — a coefficient and a power of ten.
* `Binary64.shortest` — the shortest decimal of a positive finite number.
* `Layout.write` — the text of a decimal.
-/

namespace SlotTree

/-- The number `coefficient * 10 ^ power`. -/
structure Decimal where
  /-- The digits, as one natural number. -/
  coefficient : Nat
  /-- The power of ten they are multiplied by. -/
  power : Int
  deriving DecidableEq, Repr, Inhabited

/-! ### The interval of a number -/

/-- The reals that round to a positive finite number: fractions over one denominator. -/
structure Rounding where
  /-- The number itself. -/
  value : Nat
  /-- The lower end. -/
  low : Nat
  /-- The upper end. -/
  high : Nat
  /-- The denominator of the three. -/
  den : Nat
  /-- Whether the ends round to the number too. -/
  closed : Bool
  deriving DecidableEq, Repr, Inhabited

/-- The same interval, every number multiplied by a power of ten. -/
def Rounding.scale (r : Rounding) (power : Int) : Rounding :=
  if 0 ≤ power then
    let k := tenTo power.toNat
    { r with value := r.value * k, low := r.low * k, high := r.high * k }
  else { r with den := r.den * tenTo (-power).toNat }

/-- Whether a natural number lies in the interval. -/
def Rounding.contains (r : Rounding) (n : Nat) : Bool :=
  if r.closed then r.low ≤ n * r.den && n * r.den ≤ r.high
  else r.low < n * r.den && n * r.den < r.high

/-- The natural number in the interval that is nearest to its value, of the two around the value. -/
def Rounding.nearest? (r : Rounding) : Option Nat :=
  let below := r.value / r.den
  let above := below + 1
  match r.contains below, r.contains above with
  | true, true =>
    let toBelow := r.value - below * r.den
    let toAbove := above * r.den - r.value
    if toBelow < toAbove ∨ (toBelow = toAbove ∧ below % 2 = 0) then some below else some above
  | true, false => some below
  | false, true => some above
  | false, false => none

namespace Binary64

/-- The interval of a positive finite number, in quarters of the number's quantum.  Below a power of
two the numbers lie twice as dense, so the lower half of the interval is half as long there. -/
def rounding (x : Binary64) : Rounding :=
  let m := x.mantissa
  let low := if m = fractions ∧ 0 < x.quantum then 4 * m - 1 else 4 * m - 2
  let k := twoTo (x.quantum - 1076)
  { value := 4 * m * k, low := low * k, high := (4 * m + 2) * k,
    den := twoTo (1076 - x.quantum), closed := m % 2 = 0 }

/-- The least `k` from a start on for which `num * 10 ^ k` reaches `den`, tried a number of
times. -/
def tenfoldsTo (num den : Nat) : Nat → Nat → Nat
  | 0, k => k
  | n + 1, k => if den ≤ num * tenTo k then k else tenfoldsTo num den n (k + 1)

/-- The exponent of the highest power of ten that does not exceed a positive finite number. -/
def decimalExponent (x : Binary64) : Int :=
  if x.den ≤ x.num then (Nat.toDigits 10 (x.num / x.den)).length - 1
  else -(tenfoldsTo x.num x.den 330 1 : Nat)

/-- The first decimal in the interval of a number among the grids of `n` digits, `n + 1` digits and
so on, up to seventeen. -/
def shortestFrom (r : Rounding) (exponent : Int) : Nat → Nat → Decimal
  | 0, n =>
    let grid := r.scale (n - 1 - exponent)
    ⟨grid.value / grid.den, exponent + 1 - n⟩
  | tries + 1, n =>
    match (r.scale (n - 1 - exponent)).nearest? with
    | some c => ⟨c, exponent + 1 - n⟩
    | none => shortestFrom r exponent tries (n + 1)

/-- The shortest decimal that rounds to a positive finite number, the nearest one of that length. -/
def shortest (x : Binary64) : Decimal := shortestFrom x.rounding x.decimalExponent 17 1

end Binary64

/-! ### Text -/

/-- The digits of a natural number, in base ten. -/
def naturalText (n : Nat) : List Char := Nat.toDigits 10 n

/-- The text of an integer, with a minus sign when it is negative. -/
def integerText (n : Int) : List Char :=
  if n < 0 then '-' :: naturalText n.natAbs else naturalText n.natAbs

/-- How decimals are written.  The exponent of a decimal is that of its first digit. -/
structure Layout where
  /-- The lowest exponent that is written positionally. -/
  least : Int
  /-- The highest exponent that is written positionally. -/
  most : Int
  deriving DecidableEq, Repr, Inhabited

/-- Digits with a point after the first `whole` of them, zeros filling the gaps, at least one digit
on each side of the point. -/
def positional (digits : List Char) (whole : Int) : List Char :=
  if whole ≤ 0 then '0' :: '.' :: (List.replicate (-whole).toNat '0' ++ digits)
  else
    let n := whole.toNat
    if digits.length ≤ n then digits ++ List.replicate (n - digits.length) '0' ++ ['.', '0']
    else digits.take n ++ '.' :: digits.drop n

/-- Digits with a point after the first, and an exponent with its sign.  A single digit has no
point. -/
def scientific (digits : List Char) (exponent : Int) : List Char :=
  let shown := match digits with
    | d :: r :: rest => d :: '.' :: r :: rest
    | ds => ds
  shown ++ 'e' :: (if exponent < 0 then '-' else '+') :: naturalText exponent.natAbs

/-- Digits without their last zeros. -/
def withoutLastZeros (digits : List Char) : List Char :=
  (digits.reverse.dropWhile (· = '0')).reverse

/-- The text of a positive decimal. -/
def Layout.write (layout : Layout) (d : Decimal) : List Char :=
  let digits := naturalText d.coefficient
  let exponent := d.power + digits.length - 1
  let digits := withoutLastZeros digits
  if layout.least ≤ exponent ∧ exponent ≤ layout.most then positional digits (exponent + 1)
  else scientific digits exponent

/-- The text of a finite number: its sign, and its shortest decimal or a zero. -/
def Binary64.write (layout : Layout) (x : Binary64) : List Char :=
  (if x.isNegative then ['-'] else []) ++
    (if x.isZero then ['0', '.', '0'] else layout.write x.shortest)

end SlotTree
