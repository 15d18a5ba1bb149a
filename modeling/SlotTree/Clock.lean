/-!
# Clock

Points in time, to the nanosecond, and a clock that moves only when it is told to.  Time has a
beginning and an end: from the first day of the year -262143 to the last of the year 262142.

Points in time are written as whole numbers of microseconds from the epoch.

## Main definitions

* `Instant` — points in time.
* `Instant.elapsedMillis` — whole milliseconds between two of them.
* `Instant.advance?`, `Instant.advanceMillis?`, `Instant.advanceMicros?` — the movements of a clock.
-/

namespace SlotTree

/-- A point in time. -/
structure Instant where
  /-- The nanoseconds from the epoch. -/
  nanos : Int
  deriving DecidableEq, Repr, Inhabited

namespace Instant

/-! ### Microseconds -/

/-- The point so many microseconds from the epoch. -/
def ofMicros (micros : Int) : Instant := ⟨micros * 1000⟩

/-- The whole microseconds from the epoch, what is left over cut off towards the past. -/
def micros (t : Instant) : Int := t.nanos / 1000

/-- A whole number stands for the point so many microseconds from the epoch. -/
instance : Coe Int Instant := ⟨ofMicros⟩

instance (n : Nat) : OfNat Instant n := ⟨ofMicros n⟩

/-- A point stands for its whole microseconds. -/
instance : Coe Instant Int := ⟨micros⟩

@[simp]
theorem micros_ofMicros (n : Int) : (ofMicros n).micros = n :=
  Int.mul_ediv_cancel n (by decide)

/-! ### Earlier and later -/

instance : LE Instant := ⟨fun s t => s.nanos ≤ t.nanos⟩

instance (s t : Instant) : Decidable (s ≤ t) := inferInstanceAs (Decidable (s.nanos ≤ t.nanos))

theorem ofMicros_le_ofMicros {m n : Int} (h : m ≤ n) : ofMicros m ≤ ofMicros n :=
  Int.mul_le_mul_of_nonneg_right h (by decide)

/-- The whole milliseconds from one point to another, what is left over cut off. -/
def elapsedMillis (start now : Instant) : Int := (now.nanos - start.nanos).tdiv 1000000

theorem elapsedMillis_nonneg {start now : Instant} (h : start ≤ now) :
    0 ≤ elapsedMillis start now :=
  Int.tdiv_nonneg (Int.sub_nonneg_of_le h) (by decide)

/-! ### Movements -/

/-- The first second of time. -/
def firstSecond : Int := -8334601228800

/-- The last second of time. -/
def lastSecond : Int := 8210266876799

/-- The number of nanoseconds in a second. -/
def nanosPerSecond : Int := 1000000000

/-- Whether a point is within time. -/
def inRange (t : Instant) : Bool :=
  firstSecond * nanosPerSecond ≤ t.nanos && t.nanos < (lastSecond + 1) * nanosPerSecond

/-- Move a clock by nanoseconds, within time. -/
def advance? (now : Instant) (nanos : Int) : Option Instant :=
  let later : Instant := ⟨now.nanos + nanos⟩
  if later.inRange then some later else none

/-- The point so many microseconds later, within time. -/
def later? (t : Instant) (micros : Int) : Option Instant := t.advance? (micros * 1000)

/-- Move a clock by microseconds. -/
def advanceMicros? (now : Instant) (micros : Int) : Option Instant := now.later? micros

/-- The longest span that is counted in milliseconds, in either direction. -/
def maxMillis : Int := 0x7fffffffffffffff

/-- Move a clock by milliseconds. -/
def advanceMillis? (now : Instant) (millis : Int) : Option Instant :=
  if -maxMillis ≤ millis ∧ millis ≤ maxMillis then now.advance? (millis * 1000000) else none

end Instant

end SlotTree
