/-
  Program/Basic.lean --- two-stage programs over scenarios.

  A program holds the data and the recipe of each stage, the first-stage model
  built from them, and the scenarios with their subproblems, spread over
  partitions.  Each stage counts its epochs: an epoch ends when the data or the
  recipe of the stage is replaced, and what was built in an earlier one is stale.
-/
import Recourse.Partition.Basic
import Recourse.Partition.Transport
import Recourse.Solver.Basic

set_option autoImplicit false

namespace Recourse

/-- A solution of a whole program. -/
structure Solution (K : Type) where
  /-- One value per first-stage variable. -/
  decision : List K
  /-- Value of the program. -/
  objective : K
  /-- Reduced costs of the first-stage variables. -/
  reducedCosts : List K
  /-- Duals of the first-stage rows. -/
  duals : List K
  /-- How the solve ended. -/
  status : Status
  /-- The solver it came from. -/
  solver : String
  /-- Iterations used. -/
  iterations : Int
  deriving Inhabited

/-- How far the models of a stage are built. -/
inductive StageState where
  /-- There is no recipe. -/
  | undefined
  /-- Something was not built yet. -/
  | deferred
  /-- Everything is built and current. -/
  | generated
  /-- Something was built for data or a recipe of before. -/
  | stale
  deriving DecidableEq, Repr, Inhabited

/-- The word for a stage state. -/
def StageState.text : StageState → String
  | .undefined => "undefined"
  | .deferred => "deferred"
  | .generated => "generated"
  | .stale => "stale"

/-- A two-stage program. -/
structure Program (σ K : Type) where
  /-- Identity. -/
  id : Nat
  /-- Data of the first stage. -/
  firstData : Value K
  /-- Data of the second stage. -/
  secondData : Value K
  /-- Recipe of the first stage. -/
  firstRecipe : Option (FirstRecipe σ K)
  /-- Recipe of the second stage. -/
  secondRecipe : Option (SecondRecipe σ K)
  /-- Epoch of the first stage. -/
  firstEpoch : Int
  /-- Epoch of the second stage. -/
  secondEpoch : Int
  /-- The second-stage epoch in which everything was built last. -/
  generatedEpoch : Option Int
  /-- The first-stage model and the epoch it was built in. -/
  master : Option (Model K × Int)
  /-- The decisions the subproblems refer to. -/
  decisions : Option Decisions
  /-- The scenarios, by worker. -/
  partitions : List (Partition K)
  /-- How work on the partitions is run. -/
  transport : Transport
  /-- What payloads have to be. -/
  schema : Option Schema
  /-- The solver that is used when none is named. -/
  solver : Option (Solver σ K)
  /-- Whether probabilities are rescaled when they do not sum to one. -/
  normalize : Bool
  /-- The committed solution. -/
  solution : Option (Solution K)

namespace Program

variable {σ K : Type}

/-! ## Scenarios and partitions -/

/-- The number of scenarios of each partition. -/
def partitionSizes (p : Program σ K) : List Nat := p.partitions.map (·.size)

/-- The slots in global order. -/
def slots (p : Program σ K) : List (Slot K) := p.partitions.flatMap (·.slots)

/-- The scenarios in global order. -/
def scenarios (p : Program σ K) : List (Scenario K) := p.slots.map (·.scenario)

/-- Number of scenarios. -/
def scenarioCount (p : Program σ K) : Nat := p.slots.length

/-- The probabilities in global order. -/
def probabilities (p : Program σ K) : List K := p.scenarios.map (·.probability)

/-- The number of scenarios in front of each partition. -/
def offsets (sizes : List Nat) (start : Nat) : List Nat :=
  match sizes with
  | [] => []
  | n :: rest => start :: offsets rest (start + n)

/-- The partitions with the number of scenarios in front of each. -/
def placed (p : Program σ K) : List (Partition K × Nat) :=
  p.partitions.zip (offsets p.partitionSizes 0)

/-- The partition and the local index of a global index. -/
def locateIn : List (Partition K) → Nat → Option (Partition K × Nat)
  | [], _ => none
  | q :: rest, i => if i < q.size then some (q, i) else locateIn rest (i - q.size)

/-- The partition and the local index of a scenario, refused unless the index is
an integer in the range. -/
def locate [Scalar K] (p : Program σ K) (i : Setting K) : Except (Fault K) (Partition K × Nat) :=
  let refused := Fault.indexOutOfRange i p.scenarioCount .scenario
  match i.integer? with
  | some n =>
      if n < 0 then .error refused
      else match locateIn p.partitions n.toNat with
        | some found => .ok found
        | none => .error refused
  | none => .error refused

/-- The scenario at a global index. -/
def scenario [Scalar K] (p : Program σ K) (i : Setting K) : Except (Fault K) (Scenario K) := do
  let (q, j) ← p.locate i
  q.scenario j

/-- The subproblem at a global index, refused unless it is current. -/
def subproblem [Scalar K] (p : Program σ K) (i : Setting K) : Except (Fault K) (Model K) := do
  let (q, j) ← p.locate i
  q.subproblem j p.secondEpoch

/-- The subproblem with a number. -/
def subproblemAt [Scalar K] (p : Program σ K) (i : Nat) : Except (Fault K) (Model K) :=
  p.subproblem (.ofInt i)

/-- All subproblems, refused unless every one is current. -/
def subproblems [Scalar K] (p : Program σ K) : Except (Fault K) (List (Model K)) :=
  (List.range p.scenarioCount).mapM p.subproblemAt

/-- Number of current subproblems. -/
def subproblemCount (p : Program σ K) : Nat :=
  (p.slots.filter (·.isCurrent p.secondEpoch)).length

/-! ## The stages -/

/-- The data of a stage. -/
def data (p : Program σ K) : Stage → Value K
  | .first => p.firstData
  | .second => p.secondData

/-- The recipe of a stage. -/
def recipe (p : Program σ K) : Stage → Option (Recipe σ K)
  | .first => p.firstRecipe.map .first
  | .second => p.secondRecipe.map .second

/-- The first-stage model if it is current. -/
def currentMaster? (p : Program σ K) : Option (Model K) :=
  match p.master with
  | some (m, e) => if e = p.firstEpoch then some m else none
  | none => none

/-- How far the first stage is built. -/
def firstState (p : Program σ K) : StageState :=
  if p.firstRecipe.isNone then .undefined
  else match p.master with
    | none => .deferred
    | some (_, e) => if e = p.firstEpoch then .generated else .stale

/-- How far the second stage is built. -/
def secondState (p : Program σ K) : StageState :=
  if p.secondRecipe.isNone then .undefined
  else if p.slots.any (·.isStale p.secondEpoch) then .stale
  else if p.slots.any (!·.isCurrent p.secondEpoch) then .deferred
  else if p.scenarioCount = 0 ∧ p.generatedEpoch ≠ some p.secondEpoch then
    (if p.generatedEpoch.isSome then .stale else .deferred)
  else .generated

/-- How far a stage is built. -/
def stageState (p : Program σ K) : Stage → StageState
  | .first => p.firstState
  | .second => p.secondState

/-- Whether something has still to be built. -/
def isDeferred (p : Program σ K) : Bool :=
  !(p.firstState == .generated && p.secondState == .generated)

/-- The first-stage model, refused unless it is current. -/
def stageOneModel (p : Program σ K) : Except (Fault K) (Model K) :=
  match p.currentMaster? with
  | some m => .ok m
  | none => .error (.stale .firstStage)

/-- The decisions, refused before the first stage was built. -/
def currentDecisions (p : Program σ K) : Except (Fault K) Decisions :=
  match p.decisions with
  | some d => .ok d
  | none => .error (.stale .firstStage)

/-- Number of first-stage decisions. -/
def decisionCount (p : Program σ K) : Except (Fault K) Nat :=
  p.currentDecisions.map (·.names.length)

/-- Number of second-stage variables without the placeholders. -/
def recourseLength [Scalar K] (p : Program σ K) : Except (Fault K) Nat := do
  if p.scenarioCount = 0 then return 0
  let m ← p.subproblemAt 0
  return m.variableCount - m.decisionCount

/-- The sense of the first-stage objective. -/
def goal (p : Program σ K) : Except (Fault K) Goal := p.stageOneModel.map (·.goal)

/-- The factor that turns the program into minimization. -/
def sign [Scalar K] (p : Program σ K) : Except (Fault K) K := p.goal.map (·.sign)

/-! ## Probabilities -/

section Scalar

variable [Scalar K]

/-- How far the total may be from one. -/
def probabilityTolerance : K := Scalar.decimal 1 9

/-- The sum of all probabilities, partition by partition. -/
def totalProbability (p : Program σ K) : K := Scalar.sum (p.partitions.map (·.mass))

/-- Whether a sum counts as one. -/
def isTotal (x : K) : Bool := Scalar.atMost (Scalar.abs (x - 1)) probabilityTolerance

/-- Whether there are scenarios and their probabilities sum to one. -/
def isWellFormed (p : Program σ K) : Bool :=
  decide (0 < p.scenarioCount) && isTotal p.totalProbability

end Scalar

/-! ## The committed solution -/

/-- The committed solution, refused where there is none. -/
def committed (p : Program σ K) : Except (Fault K) (Solution K) :=
  match p.solution with
  | some s => .ok s
  | none => .error (.stale .noSolution)

/-- A program written out. -/
def shown (p : Program σ K) : String :=
  s!"StochasticProgram(scenarios={p.scenarioCount}, workers={p.partitions.length}, " ++
    "first_stage=" ++ p.firstState.text ++ ", second_stage=" ++ p.secondState.text ++ ")"

end Program

/-- A change of a program that may be refused midway.  What was changed before
the refusal stays changed. -/
abbrev Edit (σ K α : Type) : Type := Change (Program σ K) σ K α

end Recourse
