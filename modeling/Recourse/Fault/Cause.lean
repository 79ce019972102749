/-
  Fault/Cause.lean --- why an operation was refused.

  A fault carries the cause and the values its message shows; the wording is in
  `Fault/Message.lean`.  The groups are those that callers tell apart: wrong
  dimensions, invalid input, a payload of another type, a missing recipe,
  payloads without an expectation, an index out of range, improper
  probabilities, a failed solve, results that are not current, and subproblems
  that could not be generated.  A misuse is an operation on plain values that
  has no result.
-/
import Recourse.Stage
import Recourse.Status

set_option autoImplicit false

namespace Recourse

/-- Sizes that do not fit together. -/
inductive DimensionFault where
  /-- The matrix has another number of columns than the objective. -/
  | matrixColumns (columns objective : Nat)
  /-- The right-hand side has another length than the matrix has rows. -/
  | rightHandSide (entries rows : Nat)
  /-- The bounds have another length than the objective. -/
  | bounds (lower upper expected : Nat)
  /-- Another number of senses than rows. -/
  | senses (senses rows : Nat)
  /-- A list of bounds has another length than the columns to add. -/
  | columnBounds (label : String) (length : Nat) (expected : Int)
  /-- A decision of another length than the model has placeholders. -/
  | modelDecision (entries expected : Nat)
  /-- A decision of another length than the first stage. -/
  | decision (entries expected : Nat)
  /-- A point of another length than the model has variables. -/
  | point (values columns : Nat)
  /-- A second-stage model with placeholders for other decisions. -/
  | placeholders (referenced available : Nat)
  /-- Another number of results than scenarios. -/
  | results (results scenarios : Nat)
  /-- A result that does not fit its subproblem. -/
  | resultShape (index : Nat)
  deriving DecidableEq, Repr

/-- Input that cannot be used. -/
inductive InvalidFault (K : Type) where
  /-- A coefficient of the objective is not finite. -/
  | objectiveNotFinite
  /-- The right-hand side is undefined somewhere. -/
  | rightHandSideUndefined
  /-- The matrix is undefined somewhere. -/
  | matrixUndefined
  /-- A bound is undefined. -/
  | boundsUndefined
  /-- Lower bounds above upper ones, by column. -/
  | boundsCrossed (columns : List Nat)
  /-- Senses without a right-hand side. -/
  | rightHandSideMissing
  /-- A sense that is none. -/
  | unknownSense (text : String)
  /-- A variable with crossed bounds. -/
  | variableBounds (lower upper : Numeral K) (name : Option String)
  /-- A second set of placeholders. -/
  | decisionsTwice
  /-- Something else where a row was expected. -/
  | notARow (typeName : String)
  /-- A second-stage model solved without a decision. -/
  | decisionMissing
  /-- A result read from a model that holds none. -/
  | noSolution (model : String)
  /-- An option that has to be positive. -/
  | notPositive (option : String) (got : Setting K)
  /-- An option that must not be negative. -/
  | negative (option : String) (got : Setting K)
  /-- Options that do not exist. -/
  | unknownOptions (owner : String) (keys : List String)
  /-- No partition to choose from. -/
  | noPartitions
  /-- A stage key that names no stage. -/
  | unknownStage (key : Setting K)
  /-- A recipe that cannot be called. -/
  | notCallable (typeName : String)
  /-- A recipe that returned something else than a model. -/
  | notAModel (stage : Stage) (recipe : String) (typeName : String)
  /-- A first-stage model with placeholders. -/
  | firstStagePlaceholders
  /-- A recipe registered for the other stage. -/
  | wrongStage (recipe : String) (stage expected : Stage)
  /-- Something else where a scenario was expected. -/
  | notAScenario (typeName : String)
  /-- A confidence outside the open unit interval. -/
  | confidence (got : Setting K)
  /-- A discrete distribution without values. -/
  | noValues
  /-- A covariance of the wrong shape. -/
  | covarianceShape (size : Nat)
  /-- A lower end above the upper one. -/
  | lowAboveHigh
  /-- A first-stage model without variables. -/
  | noDecisions
  /-- Algorithm state of another program. -/
  | foreignState
  /-- A configuration of the wrong kind. -/
  | wrongConfig (solver expected got : String)
  /-- A subproblem whose objective runs against that of the first stage. -/
  | mixedGoals (index : Nat) (subproblem master : String)
  /-- A complaint in the words of a recipe. -/
  | reported (message : String)
  deriving Inhabited

/-- Improper probabilities. -/
inductive ProbabilityFault (K : Type) where
  /-- Outside the unit interval. -/
  | range (got : Numeral K)
  /-- No scenario to take the expectation of. -/
  | emptyExpectation
  /-- No probability mass to divide by. -/
  | noMass
  /-- A discrete distribution whose weights do not fit its values. -/
  | weights
  /-- A program without scenarios. -/
  | noScenarios
  /-- Probabilities that do not sum to one. -/
  | total (sum : K)
  deriving Inhabited

/-- What ended without an optimum. -/
inductive SolveFault (K : Type) where
  /-- A single solve. -/
  | solve
  /-- A run with nothing to commit. -/
  | nothingToCommit
  /-- The phase-one problem of a subproblem. -/
  | phaseOne
  /-- The master problem. -/
  | master
  /-- A subproblem called infeasible whose least violation is zero. -/
  | contradiction (index : Nat) (violation : K)
  /-- The deterministic equivalent, for numerical reasons. -/
  | equivalent
  /-- The recourse problem. -/
  | recourse
  /-- The expected value problem. -/
  | expectedValue
  /-- A replication of a sampled program. -/
  | replication (number : Nat)
  /-- A decision outside the first-stage bounds. -/
  | decisionBounds
  /-- A decision that violates a first-stage row. -/
  | decisionRow (row : Nat)
  deriving Inhabited

/-- Results that are missing or out of date. -/
inductive StaleFault where
  /-- No committed solution. -/
  | noSolution
  /-- A subproblem of a partition. -/
  | subproblem (index : Int) (owner : Int)
  /-- Some subproblem of a partition. -/
  | partition (owner : Int)
  /-- The first-stage model. -/
  | firstStage
  /-- A program that has to be generated first. -/
  | program
  deriving DecidableEq, Repr

/-- What an index counts. -/
inductive Indexed where
  /-- Scenarios. -/
  | scenario
  /-- Subproblems. -/
  | subproblem
  /-- Partitions. -/
  | worker
  deriving DecidableEq, Repr, Inhabited

/-- Operations on plain values that have no result. -/
inductive Misuse where
  /-- A value of the right kind that does not fit. -/
  | value
  /-- A value of the wrong kind. -/
  | kind
  /-- A position outside a sequence. -/
  | position
  /-- A key that is not there. -/
  | key
  /-- A division by zero. -/
  | division
  /-- An attribute that is not there. -/
  | attribute
  /-- Something looked up in vain. -/
  | lookup
  /-- Any other breakdown. -/
  | breakdown
  deriving DecidableEq, Repr, Inhabited

/-- Why an operation was refused. -/
inductive Fault (K : Type) where
  /-- Sizes that do not fit together. -/
  | dimension (cause : DimensionFault)
  /-- Input that cannot be used. -/
  | invalid (cause : InvalidFault K)
  /-- A payload of another type than the container holds. -/
  | schemaMismatch (expected got : String)
  /-- No recipe for a stage. -/
  | undefinedRecipe (stage : Stage)
  /-- Payloads without a weighted sum. -/
  | notExpectable (typeName : String)
  /-- An index outside its range. -/
  | indexOutOfRange (index : Setting K) (size : Nat) (what : Indexed)
  /-- Improper probabilities. -/
  | probability (cause : ProbabilityFault K)
  /-- A solve that did not end optimal, with the scenario it belongs to. -/
  | solveFailure (status : Status) (index : Option Int) (cause : SolveFault K)
  /-- Results that are missing or out of date. -/
  | stale (cause : StaleFault)
  /-- Scenarios whose subproblems failed, by global index. -/
  | generation (failed : List (Int × Fault K))
  /-- An operation on plain values without a result. -/
  | misuse (what : Misuse)
  deriving Inhabited

namespace Fault

variable {K : Type}

/-- The fault of a setting that cannot be converted. -/
def ofUnfit : Setting.Unfit → Fault K
  | .kind => .misuse .kind
  | .value => .misuse .value

end Fault

/-- A conversion of a setting, its failure as a fault. -/
def Setting.convert {K α : Type} (r : Except Setting.Unfit α) : Except (Fault K) α :=
  r.mapError Fault.ofUnfit

end Recourse
