/-
  Number/Scalar.lean --- the numbers a program is computed with.

  Everything numeric in this library is written once, over any type that offers
  the operations below.  `Float` is the instance that runs.  A theorem about
  exact arithmetic takes an exact instance instead, with the same rules for
  infinities and for the undefined value.
-/
import Recourse.Number.Binary

set_option autoImplicit false

namespace Recourse

/-! ## Arithmetic and comparison -/

/-- Numbers with infinities and an undefined value.  Every comparison with the
undefined value is false, also with itself. -/
class Scalar (K : Type) extends Add K, Sub K, Mul K, Div K, Neg K, Zero K, One K where
  /-- The number an integer stands for. -/
  ofInt : Int → K
  /-- `decimal m p` is `m / 10 ^ p`. -/
  decimal : Nat → Nat → K
  /-- Positive infinity. -/
  infinity : K
  /-- The result of an operation that has none, such as `0 / 0`. -/
  undefined : K
  /-- Strictly less. -/
  less : K → K → Bool
  /-- Less or equal. -/
  atMost : K → K → Bool
  /-- Equal as numbers. -/
  same : K → K → Bool
  /-- The whole part of a finite number. -/
  truncate : K → Option Int

namespace Scalar

variable {K : Type} [Scalar K]

/-- Negative infinity. -/
def negInfinity : K := -(infinity : K)

/-- The undefined value is the one that differs from itself. -/
def isUndefined (x : K) : Bool := !same x x

/-- The distance from zero. -/
def abs (x : K) : K := if less x 0 then -x else x

/-- One of the two infinities. -/
def isInfinite (x : K) : Bool := same (abs x) infinity

/-- Neither infinite nor undefined. -/
def isFinite (x : K) : Bool := !isUndefined x && !isInfinite x

/-- Zero, of either sign. -/
def isZero (x : K) : Bool := same x 0

/-- The larger of two numbers, the first of them unless the second is larger. -/
def larger (x y : K) : K := if less x y then y else x

/-- The smaller of two numbers, the first of them unless the second is smaller. -/
def smaller (x y : K) : K := if less y x then y else x

/-- The larger of two numbers, undefined as soon as one of them is. -/
def maximum (x y : K) : K := if isUndefined x then x else if isUndefined y then y else larger x y

/-- The smaller of two numbers, undefined as soon as one of them is. -/
def minimum (x y : K) : K := if isUndefined x then x else if isUndefined y then y else smaller x y

/-- The number a natural number stands for. -/
def ofNat (n : Nat) : K := ofInt n

/-! ## Sums over lists -/

/-- The sum from the left, starting at zero. -/
def sum (xs : List K) : K := xs.foldl (· + ·) 0

/-- The sum of the products of corresponding entries. -/
def dot (xs ys : List K) : K := sum (List.zipWith (· * ·) xs ys)

/-- Every entry of `xs` multiplied by `factor`. -/
def scale (factor : K) (xs : List K) : List K := xs.map (factor * ·)

/-- The vector of `n` zeros. -/
def zeros (n : Nat) : List K := List.replicate n 0

/-- The mean of a list, undefined for the empty one. -/
def mean (xs : List K) : K := sum xs / ofNat xs.length

/-- The square of a number. -/
def square (x : K) : K := x * x

/-- The two numbers agree up to `1e-8 + 1e-5 · |y|`; equal infinities agree. -/
def isClose (x y : K) : Bool :=
  if isFinite x && isFinite y then atMost (abs (x - y)) (decimal 1 8 + decimal 1 5 * abs y)
  else same x y

end Scalar

/-! ## Functions beyond arithmetic -/

/-- Numbers with the analytic functions that samples and intervals need. -/
class Analytic (K : Type) extends Scalar K where
  /-- The square root. -/
  sqrt : K → K
  /-- The exponential function. -/
  exp : K → K
  /-- The argument at which the standard normal distribution reaches a level. -/
  normalQuantile : K → K
  /-- The argument at which Student's distribution with the given degrees of
  freedom reaches a level. -/
  studentQuantile : Nat → K → K

/-! ## Binary floating point -/

instance : Scalar Float where
  zero := 0.0
  one := 1.0
  ofInt := Float.ofInt
  decimal m p := Float.ofScientific m true p
  infinity := 1.0 / 0.0
  undefined := 0.0 / 0.0
  less x y := x < y
  atMost x y := x ≤ y
  same x y := x == y
  truncate x :=
    match Binary.ofFloat x with
    | .finite negative m q =>
        let size := (Binary.quotient m q).1 / (Binary.quotient m q).2
        some (if negative then -(size : Int) else size)
    | _ => none

end Recourse
