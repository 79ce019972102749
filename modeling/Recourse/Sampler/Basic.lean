/-
  Sampler/Basic.lean --- drawing scenarios.

  A sampler draws payloads from a stream in the environment.  A sample of size
  `n` holds `n` scenarios of probability `1 / n`, drawn one after the other.
-/
import Recourse.Sampler.Distribution

set_option autoImplicit false

namespace Recourse

/-- A source of payloads. -/
structure Sampler (σ K : Type) where
  /-- Draw one payload. -/
  draw : Act σ K (Value K)
  /-- Start the random stream anew. -/
  reseed : Option Int → Act σ K Unit

namespace Sampler

variable {σ K : Type} [Scalar K]

/-- Draw one scenario of probability one. -/
def one (s : Sampler σ K) : Act σ K (Scenario K) := do
  Act.ofExcept (Scenario.make (.real 1) (← s.draw) none)

/-- Draw scenarios of the given probability. -/
def drawMany (s : Sampler σ K) (p : K) : Nat → Act σ K (List (Scenario K))
  | 0 => return []
  | n + 1 => do
      let scenario ← Act.ofExcept (Scenario.make (.real p) (← s.draw) none)
      return scenario :: (← drawMany s p n)

/-- The size of a sample, which has to be a positive integer. -/
def sampleSize (n : Setting K) : Except (Fault K) Nat :=
  match n.number? with
  | none => .error (.misuse .kind)
  | some x =>
      if Scalar.less x 1 then .error (.invalid (.notPositive "sample size" n))
      else match n.integer? with
        | some k => .ok k.toNat
        | none => .error (.misuse .kind)

/-- Draw a sample. -/
def sample (s : Sampler σ K) (n : Setting K) : Act σ K (List (Scenario K)) := do
  let size ← Act.ofExcept (sampleSize n)
  s.drawMany (1 / Scalar.ofNat size) size

/-- The sampler of a distribution over a stream of numbers. -/
def ofDistribution {σ K : Type} [Analytic K] (d : Distribution K) (next : Act σ K K)
    (reseed : Option Int → Act σ K Unit) : Sampler σ K :=
  { draw := d.draw next, reseed }

end Sampler

end Recourse
