/-
  Number/Rounding.lean --- quotients of natural numbers on a decimal grid.

  `roundHalfEven n d` is the natural number nearest to `n / d`, the even one of
  the two when both are equally near.  `digitsAt` reads a quotient to a given
  number of significant digits.
-/

set_option autoImplicit false

namespace Recourse.Decimal

/-- The nearest natural number to `num / den`; a tie goes to the even neighbour. -/
def roundHalfEven (num den : Nat) : Nat :=
  let floor := num / den
  let rest := 2 * (num % den)
  if rest < den then floor
  else if den < rest then floor + 1
  else if floor % 2 = 0 then floor else floor + 1

theorem roundHalfEven_mul (k den : Nat) (h : 0 < den) : roundHalfEven (k * den) den = k := by
  simp [roundHalfEven, Nat.mul_div_cancel k h, h]

/-- The decimal digits of a natural number, most significant first. -/
def digits (n : Nat) : List Char := Nat.toDigits 10 n

/-- How many decimal digits a positive natural number has. -/
def digitCount (n : Nat) : Nat := (digits n).length

/-- The least `k ≤ bound` with `den ≤ num · 10 ^ k`, counting from `k`. -/
def leadingZeros (num den : Nat) : Nat → Nat → Nat
  | 0, k => k
  | fuel + 1, k => if den ≤ num * Nat.pow 10 k then k else leadingZeros num den fuel (k + 1)

/-- The power of ten just below a positive quotient: `10 ^ e ≤ num / den < 10 ^ (e + 1)`. -/
def magnitude (num den : Nat) : Int :=
  if den ≤ num then (digitCount (num / den) : Int) - 1
  else -(leadingZeros num den 400 1 : Int)

/-- The quotient counted in units of `10 ^ unit`, rounded. -/
def scaled (num den : Nat) (unit : Int) : Nat :=
  if 0 ≤ unit then roundHalfEven num (den * Nat.pow 10 unit.toNat)
  else roundHalfEven (num * Nat.pow 10 (-unit).toNat) den

/-- The first `count` significant digits of a positive quotient, as a number of
`count` digits, with the power of ten of the leading one.  Rounding up to the
next power of ten moves the point. -/
def digitsAt (count : Nat) (num den : Nat) : Nat × Int :=
  let e := magnitude num den
  let n := scaled num den (e - ((count : Int) - 1))
  if n = Nat.pow 10 count then (Nat.pow 10 (count - 1), e + 1) else (n, e)

end Recourse.Decimal
