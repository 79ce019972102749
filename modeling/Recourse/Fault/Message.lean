/-
  Fault/Message.lean --- the wording of faults.
-/
import Recourse.Fault.Cause

set_option autoImplicit false

namespace Recourse

open Text Decimal

/-- The wording of sizes that do not fit. -/
def DimensionFault.message : DimensionFault → String
  | .matrixColumns cols n => s!"A has {cols} columns, c has {n} entries"
  | .rightHandSide k m => s!"b has {k} entries, A has {m} rows"
  | .bounds lo hi n => s!"bounds have {lo}/{hi} entries, expected {n}"
  | .senses k m => s!"{k} senses for {m} rows"
  | .columnBounds label k n => s!"{label} has length {k}, expected {n}"
  | .modelDecision k n => s!"decision has {k} entries, model expects {n}"
  | .decision k n => s!"decision has {k} entries, expected {n}"
  | .point k n => s!"got {k} values, model has {n} variables"
  | .placeholders k n => s!"second-stage model references {k} decisions, first stage has {n}"
  | .results k n => s!"{k} second-stage results for {n} scenarios"
  | .resultShape i => s!"second-stage result {i} does not match its subproblem"

/-- A list of integers in brackets. -/
def shownInts (xs : List Int) : String := bracketed (xs.map toString)

/-- The wording of unusable input. -/
def InvalidFault.message : InvalidFault Float → String
  | .objectiveNotFinite => "objective has NaN or infinite coefficients"
  | .rightHandSideUndefined => "right-hand side has NaN entries"
  | .matrixUndefined => "constraint matrix has NaN entries"
  | .boundsUndefined => "bounds have NaN entries"
  | .boundsCrossed cols =>
      "lower bound exceeds upper bound for columns " ++ bracketed (cols.map toString)
  | .rightHandSideMissing => "b required with constraint_senses"
  | .unknownSense s => "unknown constraint sense " ++ quoted s
  | .variableBounds lo hi name =>
      "lb=" ++ lo.text ++ " exceeds ub=" ++ hi.text ++ " for variable " ++ quotedName name
  | .decisionsTwice => "decisions were already added to this model"
  | .notARow t => "expected a Constraint, got " ++ t
  | .decisionMissing => "second-stage model solved without a first-stage decision"
  | .noSolution name => "model " ++ quoted name ++ " has no solution loaded"
  | .notPositive option got => option ++ " must be positive, got " ++ got.plain
  | .negative option got => option ++ " must be non-negative, got " ++ got.plain
  | .unknownOptions owner keys =>
      "unknown " ++ owner ++ " keys: " ++ bracketed (keys.map quoted)
  | .noPartitions => "no partitions to choose from"
  | .unknownStage key => "unknown stage " ++ key.shown ++ ", expected 1 or 2"
  | .notCallable t => "recipe must be callable, got " ++ t
  | .notAModel stage name t =>
      "stage " ++ toString stage.number ++ " recipe " ++ quoted name ++ " returned " ++ t ++
        ", expected Model"
  | .firstStagePlaceholders => "first-stage models cannot hold decision placeholders"
  | .wrongStage recipe stage expected =>
      recipe ++ " is a stage " ++ toString stage.number ++ " recipe, not stage " ++
        toString expected.number
  | .notAScenario t => "expected a Scenario, got " ++ t
  | .confidence got => "confidence must be in (0, 1), got " ++ got.plain
  | .noValues => "DiscreteSampler needs at least one value"
  | .covarianceShape n => s!"cov must be {n}x{n}"
  | .lowAboveHigh => "low must not exceed high"
  | .noDecisions => "first-stage model has no decision variables"
  | .foreignState => "algorithm state belongs to another program"
  | .wrongConfig solver expected got => solver ++ " needs a " ++ expected ++ ", got " ++ got
  | .mixedGoals i sub master =>
      s!"subproblem {i} has objective sense {sub}, master has {master}"
  | .reported message => message

/-- The wording of improper probabilities. -/
def ProbabilityFault.message : ProbabilityFault Float → String
  | .range got => "Probability must be in [0,1], got " ++ got.text
  | .emptyExpectation => "cannot take the expectation of an empty scenario set"
  | .noMass => "scenario probabilities sum to zero"
  | .weights => "probabilities must be non-negative, one per value"
  | .noScenarios => "program has no scenarios"
  | .total sum => "scenario probabilities sum to " ++ general 12 sum ++ ", expected 1"

/-- The wording of results that are not current. -/
def StaleFault.message : StaleFault → String
  | .noSolution => "No committed solution available"
  | .subproblem i owner => s!"subproblem {i} of partition {owner} is not generated"
  | .partition owner => s!"partition {owner} has ungenerated subproblems"
  | .firstStage => "first-stage model is not generated"
  | .program => "generate() the program before building a solver"

/-- The wording of a failed solve. -/
def SolveFault.message (status : Status) (index : Option Int) : SolveFault Float → String
  | .solve =>
      "Solve failed with status " ++ status.text ++
        (match index with
          | none => ""
          | some i => " (scenario " ++ toString i ++ ")")
  | .nothingToCommit => "nothing to commit, status " ++ status.text
  | .phaseOne => "phase-one problem ended with status " ++ status.text
  | .master => "master problem ended with status " ++ status.text
  | .contradiction i violation =>
      "subproblem " ++ toString i ++ " reported infeasible but its phase-one value is " ++
        general 3 violation
  | .equivalent => "deterministic equivalent failed numerically"
  | .recourse => "recourse problem ended with status " ++ status.text
  | .expectedValue => "expected value problem ended with status " ++ status.text
  | .replication r =>
      "SAA replication " ++ toString r ++ " ended with status " ++ status.text
  | .decisionBounds => "decision violates first-stage bounds"
  | .decisionRow i => s!"decision violates first-stage row {i}"

/-- The word for what an index counts. -/
def Indexed.word : Indexed → String
  | .scenario => "scenario"
  | .subproblem => "subproblem"
  | .worker => "worker"

/-- The message of a fault.  A misuse has none of its own. -/
def Fault.message : Fault Float → String
  | .dimension cause => "Dimension mismatch: " ++ cause.message
  | .invalid cause => "Invalid input: " ++ cause.message
  | .schemaMismatch expected got =>
      "Scenario payload of type " ++ got ++ " does not match the container scenario type " ++
        expected
  | .undefinedRecipe stage => "No recipe registered for stage " ++ toString stage.number
  | .notExpectable t => "Payload type " ++ t ++ " does not support a weighted-sum reduction"
  | .indexOutOfRange i size what =>
      what.word ++ " index " ++ i.plain ++ " out of range for size " ++ toString size
  | .probability cause => cause.message
  | .solveFailure status index cause => cause.message status index
  | .stale cause => cause.message
  | .generation failed =>
      "Stage 2 generation failed for scenarios " ++
        shownInts ((failed.map Prod.fst).mergeSort (fun a b => decide (a ≤ b)))
  | .misuse _ => ""

end Recourse
