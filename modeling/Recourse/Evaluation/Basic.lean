/-
  Evaluation/Basic.lean --- what a first-stage decision is worth.

  A decision is worth its first-stage objective plus the expected value of the
  subproblems at it.  Only decisions that satisfy the first stage, up to a
  tolerance, are evaluated.
-/
import Recourse.Solver.Run

set_option autoImplicit false

namespace Recourse

/-- A scenario as it is referred to. -/
inductive ScenarioRef (K : Type) where
  /-- By index. -/
  | index (i : Setting K)
  /-- Itself. -/
  | scenario (s : Scenario K)

/-- The index that is referred to, if it is one. -/
def ScenarioRef.index? {K : Type} [Scalar K] (ref : ScenarioRef K) : Option Int :=
  match ref with
  | .index i => i.integer?
  | .scenario _ => none

/-- What evaluating a decision over all scenarios gives. -/
structure Evaluation (K : Type) where
  /-- First-stage value plus expected recourse. -/
  objective : K
  /-- First-stage value. -/
  firstStage : K
  /-- Expected value of the subproblems. -/
  expectedRecourse : K
  /-- Variance of the values of the subproblems. -/
  variance : K
  /-- Largest value of a subproblem. -/
  worst : K
  /-- Smallest value of a subproblem. -/
  best : K
  /-- Number of scenarios. -/
  scenarioCount : Nat
  deriving Inhabited

namespace Program

variable {σ K : Type} [Scalar K]

/-! ## Which solver -/

/-- The structured solver to use: the one named, else that of the program, else
the standard one. -/
def structuredFor (p : Program σ K) (solver : Option (Solver σ K)) : StructuredSolver σ K :=
  match solver, p.solver with
  | some (.structured s), _ => s
  | _, some (.structured s) => s
  | _, _ => StructuredSolver.standard

/-- The backend to use: the one named, else that of a structured solver. -/
def backendFor (p : Program σ K) (solver : Option (Solver σ K)) : Backend σ K :=
  match solver, p.solver with
  | some (.linear b), _ => b
  | some (.structured s), _ => s.backend
  | none, some (.structured s) => s.backend
  | none, _ => Backend.plain

/-! ## Decisions -/

/-- Refuse a decision that does not have one entry per first-stage variable. -/
def checkDecision (p : Program σ K) (x : List K) : Except (Fault K) Unit := do
  let n ← p.decisionCount
  if x.length ≠ n then throw (.dimension (.decision x.length n))

/-- How far a decision may be outside the first stage. -/
def feasibilityTolerance : K := Scalar.decimal 1 6

/-- Whether a value is too small or too large for its bounds. -/
def outsideBounds (x lower upper : K) : Bool :=
  Scalar.less x (lower - feasibilityTolerance) || Scalar.less (upper + feasibilityTolerance) x

/-- Whether a row is violated. -/
def violates (relation : Relation) (left bound : K) : Bool :=
  match relation with
  | .atMost => Scalar.less (bound + feasibilityTolerance) left
  | .atLeast => Scalar.less left (bound - feasibilityTolerance)
  | .equal => Scalar.less feasibilityTolerance (Scalar.abs (left - bound))
  | .other _ => false

/-- The rows that a decision violates. -/
def violatedRows (f : StandardForm K) (x : List K) : List Nat :=
  ((f.rows.zip (f.relations.zip f.rightHandSide)).zipIdx.filter fun r =>
    violates r.1.2.1 (r.1.1.apply x) r.1.2.2).map (·.2)

/-- The first-stage objective at a decision, refused where the decision violates
the first stage. -/
def firstStageValue (master : Model K) (x : List K) : Except (Fault K) K := do
  let form ← master.standardForm none
  if (x.zip (form.lower.zip form.upper)).any fun b => outsideBounds b.1 b.2.1 b.2.2 then
    throw (.solveFailure .infeasible none .decisionBounds)
  if let row :: _ := violatedRows form x then
    throw (.solveFailure .infeasible none (.decisionRow row))
  master.evaluateObjective x

/-! ## Evaluating -/

variable [Host σ K]

/-- The value of every subproblem at a decision, in global order. -/
def recourseValues (p : Program σ K) (x : List K) (b : Backend σ K) : Act σ K (List K) :=
  p.collect true fun index _ m => do
    let m ← match m with
      | some m => pure m
      | none => Act.fail (.misuse .attribute)
    let r ← b.optimize m (some x)
    if r.status ≠ .optimal then Act.fail (.solveFailure r.status (some index) .solve)
    return r.objective

/-- The first-stage value of a decision and the values of the subproblems at
it. -/
def valuesAt (x : List K) (solver : Option (Solver σ K)) : Edit σ K (K × List K) := do
  let p ← Change.state
  p.checkDecision x
  let first ← firstStageValue (← p.stageOneModel) x
  let recourse ← p.recourseValues x (p.backendFor solver)
  return (first, recourse)

/-- What a decision is worth in every scenario. -/
def outcomes (x : List K) (solver : Option (Solver σ K)) : Edit σ K (List K) := do
  generate
  let (first, recourse) ← valuesAt x solver
  return recourse.map (first + ·)

/-- What a decision is worth. -/
def evaluate (x : List K) (solver : Option (Solver σ K)) : Edit σ K K := do
  generate
  validate none
  let (first, recourse) ← valuesAt x solver
  return first + Scalar.dot (← Change.state).probabilities recourse

/-- What a decision is worth, with statistics of the subproblems. -/
def evaluateFully (x : List K) (solver : Option (Solver σ K)) : Edit σ K (Evaluation K) := do
  generate
  validate none
  let (first, recourse) ← valuesAt x solver
  let probabilities := (← Change.state).probabilities
  let expected := Scalar.dot probabilities recourse
  return { objective := first + expected
           firstStage := first
           expectedRecourse := expected
           variance :=
             Scalar.dot probabilities (recourse.map fun r => Scalar.square (r - expected))
           worst := recourse.foldl Scalar.maximum (recourse.headD Scalar.undefined)
           best := recourse.foldl Scalar.minimum (recourse.headD Scalar.undefined)
           scenarioCount := recourse.length }

/-- The scenario that is referred to. -/
def resolve (p : Program σ K) (ref : ScenarioRef K) : Except (Fault K) (Scenario K) :=
  match ref with
  | .index i => p.scenario i
  | .scenario s => .ok s

/-- The subproblem of a scenario with its placeholders fixed to a decision. -/
def outcomeModel (ref : ScenarioRef K) (x : List K) : Edit σ K (Model K) := do
  generate
  let p ← Change.state
  p.checkDecision x
  match p.secondRecipe with
  | none => throw (.misuse .attribute)
  | some r =>
      let decisions ← p.currentDecisions
      let s ← p.resolve ref
      let m ← r.generate p.secondData decisions s.data
      if m.decisionCount = 0 then return m
      m.fixDecisions (some x)

/-- What a decision is worth if a scenario occurs. -/
def evaluateScenario (ref : ScenarioRef K) (x : List K) (solver : Option (Solver σ K)) :
    Edit σ K K := do
  let m ← outcomeModel ref x
  let p ← Change.state
  p.checkDecision x
  let first ← firstStageValue (← p.stageOneModel) x
  let r ← (p.backendFor solver).optimize m none
  if r.status ≠ .optimal then
    throw (.solveFailure r.status ref.index? .solve)
  return first + r.objective

end Program

/-- The standard deviation of the values of the subproblems. -/
def Evaluation.deviation {K : Type} [Analytic K] (e : Evaluation K) : K :=
  Analytic.sqrt e.variance

/-- An evaluation written out. -/
def Evaluation.shownWith (objective expected deviation : Float) : String :=
  "EvaluationResult(\n  objective=" ++ Decimal.fixed 4 objective ++
    ",\n  expected_recourse=" ++ Decimal.fixed 4 expected ++
    ",\n  std_recourse=" ++ Decimal.fixed 4 deviation ++ "\n)"

end Recourse
