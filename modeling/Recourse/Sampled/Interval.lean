/-
  Sampled/Interval.lean --- confidence intervals of a mean.
-/
import Recourse.Number.Quantile
import Recourse.Fault.Message

set_option autoImplicit false

namespace Recourse

/-- The distribution that the width of an interval is taken from. -/
inductive CriticalValue where
  /-- Student's, with one degree of freedom less than there are values. -/
  | student
  /-- The normal one. -/
  | normal
  deriving DecidableEq, Repr, Inhabited

/-- A two-sided confidence interval. -/
structure Interval (K : Type) where
  /-- Lower end. -/
  lower : K
  /-- Upper end. -/
  upper : K
  /-- Confidence. -/
  confidence : K
  deriving Inhabited

namespace Interval

variable {K : Type}

section Scalar

variable [Scalar K]

/-- The distance between the ends. -/
def length (i : Interval K) : K := i.upper - i.lower

/-- The middle. -/
def midpoint (i : Interval K) : K := Scalar.decimal 5 1 * (i.lower + i.upper)

/-- Whether a number lies in the interval, the ends included. -/
def contains (i : Interval K) (x : K) : Bool := Scalar.atMost i.lower x && Scalar.atMost x i.upper

/-- A confidence, refused unless it lies strictly between zero and one. -/
def readConfidence (s : Setting K) : Except (Fault K) K :=
  match s.number? with
  | none => .error (.misuse .kind)
  | some x =>
      if Scalar.less 0 x && Scalar.less x 1 then .ok x else .error (.invalid (.confidence s))

/-- The sum of the squared distances from the mean, over one less than there are
values. -/
def sampleVariance (values : List K) : K :=
  let mean := Scalar.mean values
  Scalar.sum (values.map fun x => Scalar.square (x - mean)) / Scalar.ofInt (values.length - 1)

end Scalar

/-- How many standard errors the ends are from the mean. -/
def critical [Analytic K] (c : CriticalValue) (count : Nat) (confidence : K) : K :=
  let level : K := 1 - (1 - confidence) / Scalar.ofNat 2
  match c with
  | .student => Analytic.studentQuantile (count - 1) level
  | .normal => Analytic.normalQuantile level

/-- The interval around the mean of some values; a single value is known
exactly. -/
def ofValues [Analytic K] (values : List K) (confidence : K) (c : CriticalValue) : Interval K :=
  let mean := Scalar.mean values
  if values.length < 2 then ⟨mean, mean, confidence⟩
  else
    let margin := critical c values.length confidence *
      Analytic.sqrt (sampleVariance values) / Analytic.sqrt (Scalar.ofNat values.length)
    ⟨mean - margin, mean + margin, confidence⟩

end Interval

/-- An interval written out. -/
def Interval.shown (i : Interval Float) : String :=
  "ConfidenceInterval([" ++ Decimal.general 6 i.lower ++ ", " ++ Decimal.general 6 i.upper ++
    "], " ++ Decimal.percent i.confidence ++ ")"

end Recourse
