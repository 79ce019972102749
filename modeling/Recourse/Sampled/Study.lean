/-
  Sampled/Study.lean --- bounds on the true optimum from sampled programs.

  The values of several sampled programs bound the true optimum from the good
  side, and the best of their decisions, evaluated on a fresh sample, bounds it
  from the other.  The draws of a sampler are used up in order: one block for
  each replication, then one for the evaluation.
-/
import Recourse.Evaluation.Basic
import Recourse.Sampled.Interval

set_option autoImplicit false

namespace Recourse

/-- Programs that are sampled from one template. -/
structure Study (σ K : Type) where
  /-- The recipes. -/
  template : Template σ K
  /-- Where scenarios are drawn. -/
  sampler : Sampler σ K
  /-- How every program is set up. -/
  setup : Program.Setup σ K
  /-- Whether programs are left to be built later. -/
  defer : Bool

namespace Study

variable {σ K : Type} [Scalar K]

/-- A program on a fresh sample. -/
def sampled (s : Study σ K) (n : Setting K) : Act σ K (Program σ K) := do
  let size ← Setting.convert (K := K) n.toInteger
  if size < 1 then Act.fail (.invalid (.notPositive "sample size" n))
  let scenarios ← s.sampler.sample (.ofInt size)
  s.template.instantiate s.setup scenarios s.defer

variable [Host σ K]

/-- What a replication gives. -/
structure Replicate (K : Type) where
  /-- Value of the sampled program. -/
  value : K
  /-- Its decision. -/
  decision : List K
  /-- The factor that turns the program into minimization. -/
  sign : K
  deriving Inhabited

/-- Solve one sampled program. -/
def replicate (s : Study σ K) (n : Setting K) (solver : Option (Solver σ K)) (number : Nat) :
    Act σ K (Replicate K) := do
  let p ← s.sampled n
  let edit : Edit σ K (Replicate K) := do
    let status ← Program.optimize solver
    if status ≠ .optimal then throw (.solveFailure status none (.replication number))
    let p ← Change.state
    let solution ← p.committed
    return { value := solution.objective, decision := solution.decision, sign := ← p.sign }
  return (← edit.apply p).1

/-- Solve several sampled programs, one after the other. -/
def replications (s : Study σ K) (n count : Setting K) (solver : Option (Solver σ K)) :
    Act σ K (List (Replicate K)) := do
  let size ← Setting.convert (K := K) count.toInteger
  if size < 1 then Act.fail (.invalid (.notPositive "replications" count))
  Act.forEach (s.replicate n solver) (List.range size.toNat)

end Study

variable {σ K : Type} [Analytic K] [Host σ K]

namespace Study

/-- The confidence interval of the mean value of the sampled programs. -/
def lowerBound (s : Study σ K) (n count confidence : Setting K) (solver : Option (Solver σ K)) :
    Act σ K (Interval K) := do
  let level ← Interval.readConfidence confidence
  let rs ← s.replications n count solver
  return Interval.ofValues (rs.map (·.value)) level .student

/-- The confidence interval of what a decision is worth, from a fresh sample. -/
def estimate (s : Study σ K) (decision : List K) (n confidence : Setting K)
    (solver : Option (Solver σ K)) : Act σ K (Interval K) := do
  let level ← Interval.readConfidence confidence
  let p ← s.sampled n
  let (values, _) ← (Program.outcomes decision solver).apply p
  return Interval.ofValues values level .normal

end Study

/-- The outcome of replicated sampling. -/
structure Estimate (K : Type) where
  /-- The best decision of a replication. -/
  decision : List K
  /-- The value of that replication. -/
  objective : K
  /-- Lower bound on the true optimum. -/
  lowerBound : K
  /-- Upper bound on the true optimum. -/
  upperBound : K
  /-- Distance between the bounds. -/
  gap : K
  /-- Lower end of the interval that combines both. -/
  intervalLower : K
  /-- Upper end of that interval. -/
  intervalUpper : K
  /-- Its confidence. -/
  confidence : K
  /-- Scenarios per replication. -/
  samples : Int
  /-- Number of replications. -/
  replications : Int
  deriving Inhabited

/-- How a study is carried out. -/
structure Plan (σ K : Type) where
  /-- Scenarios per replication. -/
  samples : Int
  /-- Number of replications. -/
  replications : Int
  /-- Scenarios for evaluating the best decision. -/
  evaluation : Int
  /-- Confidence of the interval. -/
  confidence : K
  /-- What solves the programs. -/
  solver : Option (Solver σ K)
  /-- Where the random stream starts, if that is said. -/
  seed : Option Int

namespace Plan

/-- A plan.  Without a size of its own the evaluation takes twice as many
scenarios as a replication. -/
def make (samples replications : Setting K) (evaluation : Option (Setting K))
    (confidence : Setting K) (solver : Option (Solver σ K)) (seed : Option Int) :
    Except (Fault K) (Plan σ K) := do
  let samples ← Setting.convert samples.toInteger
  let replications ← Setting.convert replications.toInteger
  let evaluation ← match evaluation with
    | some e => Setting.convert e.toInteger
    | none => pure (2 * samples)
  return { samples, replications, evaluation
           confidence := ← Interval.readConfidence confidence
           solver, seed }

/-- The factor that turns the programs into minimization: that of the last replication. -/
def factor (rs : List (Study.Replicate K)) : K := (rs.getLast?.map (·.sign)).getD 1

/-- Whether the value of a replication goes before that of an earlier one: it is better, or
it is undefined and the other is not. -/
def goesBefore (factor : K) (later earlier : Study.Replicate K) : Bool :=
  let (x, y) := (factor * later.value, factor * earlier.value)
  if Scalar.isUndefined x then !Scalar.isUndefined y else Scalar.less x y

/-- The first of several replications with the best value, where an undefined value counts
as the best. -/
def best (factor : K) : List (Study.Replicate K) → Option (Study.Replicate K)
  | [] => none
  | r :: rest =>
      match best factor rest with
      | none => some r
      | some b => if goesBefore factor b r then some b else some r

/-- The outcome from the replications and the evaluation of the best one. -/
def conclude (p : Plan σ K) (factor : K) (best : Study.Replicate K)
    (bound estimate : Interval K) : Estimate K :=
  let (good, other) := if Scalar.less 0 factor then (bound, estimate) else (estimate, bound)
  let (lower, upper) := (good.midpoint, other.midpoint)
  { decision := best.decision
    objective := best.value
    lowerBound := lower
    upperBound := upper
    gap := upper - lower
    intervalLower := Scalar.smaller good.lower other.upper
    intervalUpper := Scalar.larger good.lower other.upper
    confidence := p.confidence
    samples := p.samples
    replications := p.replications }

/-- Carry out a study: the replications, then the evaluation of the best
decision. -/
def run (p : Plan σ K) (s : Study σ K) : Act σ K (Estimate K) := do
  if let some seed := p.seed then s.sampler.reseed (some seed)
  let rs ← s.replications (.ofInt p.samples) (.ofInt p.replications) p.solver
  let factor := factor rs
  match best factor rs with
  | none => Act.fail (.misuse .value)
  | some b =>
      let bound := Interval.ofValues (rs.map (·.value)) p.confidence .student
      let estimate ← s.estimate b.decision (.ofInt p.evaluation)
        (.number (.real p.confidence)) p.solver
      return p.conclude factor b bound estimate

end Plan

namespace Estimate

/-- An outcome written out. -/
def shown (e : Estimate Float) : String :=
  "SAAResult(objective=" ++ Decimal.general 6 e.objective ++
    ", gap_estimate=" ++ Decimal.general 4 e.gap ++
    ", ci=[" ++ Decimal.general 6 e.intervalLower ++ ", " ++ Decimal.general 6 e.intervalUpper ++
    "], " ++ toString e.replications ++ "x" ++ toString e.samples ++ " samples)"

/-- A text filled up with blanks to a width. -/
def padded (width : Nat) (s : String) : String :=
  s ++ String.ofList (List.replicate (width - s.length) ' ')

/-- The lines of a summary, each a label and what it says. -/
def summaryRows (e : Estimate Float) (seconds : Float) : List (String × String) :=
  let range := fun (lower upper : Float) =>
    "[" ++ Decimal.general 6 lower ++ ", " ++ Decimal.general 6 upper ++ "]"
  [ ("SAA objective", Decimal.general 6 e.objective),
    ("Bounds", range e.lowerBound e.upperBound),
    ("Gap estimate", Decimal.general 4 e.gap),
    ("Confidence interval (" ++ Decimal.percent e.confidence ++ ")",
      range e.intervalLower e.intervalUpper),
    ("Replications", toString e.replications ++ " x " ++ toString e.samples ++ " scenarios"),
    ("Time", Decimal.fixed 3 seconds ++ " s") ]

/-- A block about an outcome, with the labels as wide as the widest of them. -/
def summary (e : Estimate Float) (seconds : Float) : String :=
  let rows := e.summaryRows seconds
  let width := (rows.map (·.1.length)).foldl max 0
  "\n".intercalate
    ("SAA Solution Summary" :: String.ofList (List.replicate (width + 24) '-') ::
      rows.map fun r => padded width r.1 ++ "  " ++ r.2)

end Estimate

end Recourse
