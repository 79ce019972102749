/-
  Number/Shortest.lean --- the fewest decimal digits that read back.

  The reals that round to a given floating-point number form an interval around
  it, ends included when its significand is even.  The shortest text is the
  first decimal grid, counted by digits, with a point in that interval; of two
  such points the nearer one is taken.
-/
import Recourse.Number.Binary
import Recourse.Number.Rounding

set_option autoImplicit false

namespace Recourse.Decimal

/-- The interval of reals that round to `significand · 2 ^ exponent`, over the
denominator four times that of the number, and whether its ends belong to it. -/
structure Basin where
  /-- Lower end. -/
  low : Nat
  /-- The number itself. -/
  centre : Nat
  /-- Upper end. -/
  high : Nat
  /-- Common denominator. -/
  den : Nat
  /-- Whether the ends round to the number too. -/
  closed : Bool

/-- The basin of a positive number.  Below a power of two the grid is twice as
fine, so that the lower end is nearer. -/
def basin (significand : Nat) (exponent : Int) : Basin :=
  let narrow := significand = Nat.pow 2 52 ∧ exponent ≠ -1074
  let below := if narrow then 1 else 2
  let num := fun k => (Binary.quotient k exponent).1
  { low := num (4 * significand - below)
    centre := num (4 * significand)
    high := num (4 * significand + 2)
    den := 4 * (Binary.quotient 1 exponent).2
    closed := significand % 2 = 0 }

/-- Whether `k · 10 ^ unit` lies in the basin. -/
def Basin.holds (b : Basin) (k : Nat) (unit : Int) : Bool :=
  let value := if 0 ≤ unit then k * Nat.pow 10 unit.toNat * b.den else k * b.den
  let factor := if 0 ≤ unit then 1 else Nat.pow 10 (-unit).toNat
  if b.closed then decide (b.low * factor ≤ value) && decide (value ≤ b.high * factor)
  else decide (b.low * factor < value) && decide (value < b.high * factor)

/-- The point of the grid `10 ^ unit` in the basin that is nearest to the number. -/
def Basin.hit? (b : Basin) (unit : Int) : Option Nat :=
  let near := scaled b.centre b.den unit
  if b.holds near unit then some near
  else if b.holds (near + 1) unit then some (near + 1)
  else if 0 < near ∧ b.holds (near - 1) unit then some (near - 1)
  else none

/-- The first grid with a hit, from `count` digits on. -/
def Basin.search (b : Basin) (top : Int) : Nat → Nat → Nat × Int
  | 0, count => (scaled b.centre b.den (top - count), top - count)
  | fuel + 1, count =>
      match b.hit? (top - count) with
      | some k => (k, top - count)
      | none => b.search top fuel (count + 1)

/-- The fewest digits that read back as a positive floating-point number: the
digits as a natural number, and the power of ten they count. -/
def shortest (significand : Nat) (exponent : Int) : Nat × Int :=
  let b := basin significand exponent
  b.search (magnitude b.centre b.den) 17 0

end Recourse.Decimal
