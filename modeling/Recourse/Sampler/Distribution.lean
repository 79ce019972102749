/-
  Sampler/Distribution.lean --- distributions of the uncertain data.

  A distribution turns numbers of a random stream into payloads: one number per
  drawn value, or one per entry of a drawn array.
-/
import Recourse.Sampler.Grid
import Recourse.Scenario

set_option autoImplicit false

namespace Recourse

/-- A distribution of payloads. -/
inductive Distribution (K : Type) where
  /-- Finitely many values with their probabilities. -/
  | discrete (values : List (Value K)) (probabilities : List K)
  /-- Normally distributed entries with a joint covariance, cut off below. -/
  | normal (mean : List K) (covariance : List (List K)) (lower : Option (Grid K))
      (single : Bool)
  /-- Entries between a lower and an upper end. -/
  | uniform (low high : Grid K)
  /-- Entries whose logarithms are normally distributed. -/
  | logNormal (mu sigma : Grid K)

namespace Distribution

variable {K : Type}

/-! ## Construction -/

/-- Finitely many values; without weights they are equally likely. -/
def ofValues [Scalar K] (values : List (Value K)) (weights : Option (Grid K)) :
    Except (Fault K) (Distribution K) := do
  let n := values.length
  if n = 0 then throw (.invalid .noValues)
  let w := weights.getD (Grid.vector (List.replicate n (1 / Scalar.ofNat n)))
  let total := Scalar.sum w.entries
  if w.shape ≠ [n] || w.entries.any (Scalar.less · 0) || Scalar.atMost total 0 then
    throw (.probability .weights)
  return .discrete values (w.entries.map (· / total))

/-- The matrix with the given diagonal. -/
def diagonal [Scalar K] (xs : List K) : List (List K) :=
  xs.zipIdx.map fun p => (List.range xs.length).map fun j => if j = p.2 then p.1 else 0

/-- A normal distribution from deviations or from a covariance, which wins. -/
def ofMoments [Scalar K] (mean : Grid K) (deviation covariance lower : Option (Grid K)) :
    Except (Fault K) (Distribution K) := do
  let means := mean.entries
  let n := if mean.isScalar then 1 else mean.shape.headD 0
  let size := if mean.isScalar then [1] else mean.shape
  let covariance ← match covariance, deviation with
    | some c, _ =>
        if c.shape ≠ [n, n] then throw (.invalid (.covarianceShape n))
        pure ((List.range n).map fun i => (c.entries.drop (i * n)).take n)
    | none, some d =>
        if Grid.joinShapes d.shape size ≠ some size then throw (.misuse .value)
        let spread := Grid.stretch size (Grid.padded size.length d.shape) d.entries
        if size.length ≠ 1 then throw (.invalid (.covarianceShape n))
        pure (diagonal (spread.map Scalar.square))
    | none, none => pure (diagonal (List.replicate n 1))
  return .normal means covariance lower mean.isScalar

/-- A uniform distribution, refused when a lower end lies above the upper one. -/
def ofEnds [Scalar K] (low high : Grid K) : Except (Fault K) (Distribution K) := do
  let above ← Grid.combine (fun lo hi => Scalar.less hi lo) low high
  if above.entries.any id then throw (.invalid .lowAboveHigh)
  return .uniform low high

/-! ## Covariance factors -/

section Factor

variable [Analytic K]

/-- Whether everything off the diagonal is zero. -/
def isDiagonal (c : List (List K)) : Bool :=
  c.zipIdx.all fun r => r.1.zipIdx.all fun x => x.2 == r.2 || Scalar.isZero x.1

/-- The entry of a factor row behind the ones already known. -/
def factorEntry (row : List K) (known : List (List K)) (partRow : List K) (j : Nat) : K :=
  let other := known.getD j []
  (row.getD j 0 - Scalar.dot partRow other) / other.getD j 0

/-- One row of the lower triangular factor below the known rows. -/
def factorRow (row : List K) (known : List (List K)) : Option (List K) :=
  let left := (List.range known.length).foldl
    (fun acc j => acc ++ [factorEntry row known acc j]) []
  let rest := row.getD known.length 0 - Scalar.dot left left
  if Scalar.less 0 rest then some (left ++ [Analytic.sqrt rest]) else none

/-- The lower triangular factor of a positive definite matrix. -/
def choleskyFactor (c : List (List K)) : Except (Fault K) (List (List K)) :=
  c.foldlM
    (fun known row => match factorRow row known with
      | some r => .ok (known ++ [r])
      | none => .error (.misuse .value))
    []

/-- The factor that turns independent normal numbers into dependent ones. -/
def factor (c : List (List K)) : Except (Fault K) (List (List K)) :=
  if isDiagonal c then .ok (c.map (·.map Analytic.sqrt)) else choleskyFactor c

end Factor

/-! ## Drawing -/

variable {σ : Type}

/-- One number of the stream per entry of a grid of the given size. -/
def take (next : Act σ K K) : Nat → Act σ K (List K)
  | 0 => pure []
  | n + 1 => do
      let u ← next
      return u :: (← take next n)

/-- A single number or an array. -/
def payload (single : Bool) (shape : List Nat) (xs : List K) : Value K :=
  match single, xs with
  | true, x :: _ => .real x
  | _, _ => .array shape xs

/-- The position of the value that a number of the stream selects. -/
def select [Scalar K] (probabilities : List K) (u : K) : Nat :=
  let cumulative := probabilities.foldl
    (fun (acc : List K × K) p => (acc.1 ++ [acc.2 + p], acc.2 + p)) ([], 0)
  (cumulative.1.filter fun c => Scalar.atMost (c / cumulative.2) u).length

/-- Draw one payload. -/
def draw [Analytic K] (next : Act σ K K) : Distribution K → Act σ K (Value K)
  | .discrete values probabilities => do
      let i := select probabilities (← next)
      match values[i]? with
      | some v => return v
      | none => Act.fail (.misuse .position)
  | .normal mean covariance lower single => do
      let root ← Act.ofExcept (factor covariance)
      let z ← take next mean.length
      let drawn := List.zipWith (fun m row => m + Scalar.dot row z) mean root
      match lower with
      | none => return payload single [mean.length] drawn
      | some lo =>
          let cut ← Act.ofExcept (Grid.combine Scalar.maximum (Grid.vector drawn) lo)
          return payload single cut.shape cut.entries
  | .uniform low high => do
      let ends ← Act.ofExcept (Grid.combine (fun lo hi => (lo, hi)) low high)
      let u ← take next ends.entries.length
      return payload (low.isScalar && high.isScalar) ends.shape
        (List.zipWith (fun e u => e.1 + (e.2 - e.1) * u) ends.entries u)
  | .logNormal mu sigma => do
      let both ← Act.ofExcept (Grid.combine (fun m s => (m, s)) mu sigma)
      let z ← take next both.entries.length
      return payload (mu.isScalar && sigma.isScalar) both.shape
        (List.zipWith (fun p z => Analytic.exp (p.1 + p.2 * z)) both.entries z)

/-! ## What is known about a distribution -/

/-- The mean, entry by entry; discrete distributions do not offer one. -/
def mean [Analytic K] : Distribution K → Except (Fault K) (List K)
  | .discrete _ _ => .error (.misuse .attribute)
  | .normal mean _ _ _ => .ok mean
  | .uniform low high =>
      (Grid.combine (fun lo hi => (lo + hi) / Scalar.ofNat 2) low high).map (·.entries)
  | .logNormal mu sigma =>
      (Grid.combine (fun m s => Analytic.exp (m + Scalar.square s / Scalar.ofNat 2)) mu
        sigma).map (·.entries)

/-- The values as scenarios with their exact probabilities. -/
def support [Scalar K] : Distribution K → Except (Fault K) (List (Scenario K))
  | .discrete values probabilities =>
      (values.zip probabilities).mapM fun p => Scenario.make (.real p.2) p.1 none
  | _ => .error (.misuse .attribute)

/-- The probabilities of a discrete distribution. -/
def probabilities : Distribution K → Except (Fault K) (List K)
  | .discrete _ p => .ok p
  | _ => .error (.misuse .attribute)

/-- The covariance of a normal distribution, row by row. -/
def covariance : Distribution K → Except (Fault K) (List K)
  | .normal _ c _ _ => .ok c.flatten
  | _ => .error (.misuse .attribute)

end Distribution

end Recourse
