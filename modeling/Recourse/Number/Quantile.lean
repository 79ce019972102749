/-
  Number/Quantile.lean --- quantiles of the normal and of Student's distribution.

  The normal quantile comes from rational approximations to full accuracy.  For
  Student's distribution, substituting the angle whose tangent is the argument
  over the root of the degrees of freedom turns the central probability into a
  finite trigonometric sum, and the quantile into a root of an increasing
  function on a quarter turn, which bisection finds.
-/
import Recourse.Number.Scalar

set_option autoImplicit false

namespace Recourse.Quantile

/-- A polynomial, constant term first. -/
def polynomial (coefficients : List Float) (x : Float) : Float :=
  coefficients.foldr (fun c acc => acc * x + c) 0.0

/-! ## Normal distribution -/

/-- The middle of the distribution, in the distance `q` of the level from one
half. -/
def normalMiddle (q : Float) : Float :=
  let r := 0.180625 - q * q
  q * polynomial
      [3.3871328727963666080, 1.3314166789178437745e2, 1.9715909503065514427e3,
        1.3731693765509461125e4, 4.5921953931549871457e4, 6.7265770927008700853e4,
        3.3430575583588128105e4, 2.5090809287301226727e3] r /
    polynomial
      [1.0, 4.2313330701600911252e1, 6.8718700749205790830e2, 5.3941960214247511077e3,
        2.1213794301586595867e4, 3.9307895800092710610e4, 2.8729085735721942674e4,
        5.2264952788528545610e3] r

/-- A tail, in the root of minus the logarithm of its probability. -/
def normalTail (root : Float) : Float :=
  if root ≤ 5.0 then
    let r := root - 1.6
    polynomial
        [1.42343711074968357734, 4.63033784615654529590, 5.76949722146069140550,
          3.64784832476320460504, 1.27045825245236838258, 2.41780725177450611770e-1,
          2.27238449892691845833e-2, 7.74545014278341407640e-4] r /
      polynomial
        [1.0, 2.05319162663775882187, 1.67638483018380384940, 6.89767334985100004550e-1,
          1.48103976427480074590e-1, 1.51986665636164571966e-2, 5.47593808499534494600e-4,
          1.05075007164441684324e-9] r
  else
    let r := root - 5.0
    polynomial
        [6.65790464350110377720, 5.46378491116411436990, 1.78482653991729133580,
          2.96560571828504891230e-1, 2.65321895265761230930e-2, 1.24266094738807843860e-3,
          2.71155556874348757815e-5, 2.01033439929228813265e-7] r /
      polynomial
        [1.0, 5.99832206555887937690e-1, 1.36929880922735805310e-1,
          1.48753612908506148525e-2, 7.86869131145613259100e-4, 1.84631831751005468180e-5,
          1.42151175831644588870e-7, 2.04426310338993978564e-15] r

/-- The argument at which the standard normal distribution reaches a level. -/
def normal (level : Float) : Float :=
  let q := level - 0.5
  if level ≤ 0.0 || 1.0 ≤ level then
    if level == 0.0 then -(1.0 / 0.0) else if level == 1.0 then 1.0 / 0.0 else 0.0 / 0.0
  else if q.abs ≤ 0.425 then normalMiddle q
  else
    let tail := normalTail (-(if q < 0.0 then level else 1.0 - level).log).sqrt
    if q < 0.0 then -tail else tail

/-! ## Student's distribution -/

/-- Terms `t₀ + t₀ · r₁ + t₀ · r₁ · r₂ + …` with the ratios
`k / (k + 1) · square` for `k = first, first + 2, …`. -/
def cosineSum (square : Float) : Nat → Float → Float → Float
  | 0, _, _ => 0.0
  | n + 1, k, term => term + cosineSum square n (k + 2.0) (term * (k / (k + 1.0)) * square)

/-- The probability of the values between minus and plus the argument that
belongs to an angle. -/
def studentCentral (freedom : Nat) (angle : Float) : Float :=
  let c := angle.cos
  let s := angle.sin
  if freedom % 2 = 0 then s * cosineSum (c * c) (freedom / 2) 1.0 1.0
  else
    let sum := cosineSum (c * c) ((freedom - 1) / 2) 2.0 c
    2.0 / 3.14159265358979323846 * (angle + s * sum)

/-- Halve an interval of angles until it holds the one of a central
probability. -/
def bisectAngle (freedom : Nat) (central : Float) : Nat → Float → Float → Float
  | 0, low, high => (low + high) / 2.0
  | n + 1, low, high =>
      let middle := (low + high) / 2.0
      if studentCentral freedom middle < central then bisectAngle freedom central n middle high
      else bisectAngle freedom central n low middle

/-- The argument at which Student's distribution reaches a level. -/
def student (freedom : Nat) (level : Float) : Float :=
  if level ≤ 0.0 || 1.0 ≤ level then
    if level == 0.0 then -(1.0 / 0.0) else if level == 1.0 then 1.0 / 0.0 else 0.0 / 0.0
  else
    let central := (2.0 * level - 1.0).abs
    let angle := bisectAngle freedom central 100 0.0 1.57079632679489661923
    let size := freedom.toFloat.sqrt * angle.tan
    if level < 0.5 then -size else size

end Recourse.Quantile

namespace Recourse

instance : Analytic Float where
  sqrt := Float.sqrt
  exp := Float.exp
  normalQuantile := Quantile.normal
  studentQuantile := Quantile.student

end Recourse
