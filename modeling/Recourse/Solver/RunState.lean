/-
  Solver/RunState.lean --- what a run of a structured solver knows.
-/
import Recourse.Program.Scenarios

set_option autoImplicit false

namespace Recourse

/-- The part of a run that does not depend on the method.  Everything is in the
sense of the program. -/
structure RunState (K : Type) where
  /-- The program the run was built from. -/
  programId : Nat
  /-- The factor that turns the program into minimization. -/
  sign : K
  /-- How the run ended, or that it did not yet. -/
  status : Status
  /-- Iterations begun. -/
  iterations : Int
  /-- The decision it ended with. -/
  decision : Option (List K)
  /-- Value of that decision. -/
  objective : K
  /-- Result of every subproblem at that decision. -/
  secondStage : List (SolveResult K)
  /-- Reduced costs of the decision. -/
  reducedCosts : Option (List K)
  /-- Duals of the first-stage rows. -/
  duals : Option (List K)
  /-- The same as a result of the first-stage model. -/
  masterResult : Option (SolveResult K)
  /-- Time at which the run was built. -/
  started : K
  /-- Whether the run was asked to stop. -/
  cancelled : Bool
  deriving Inhabited

namespace RunState

variable {K : Type}

/-- A run that has not begun. -/
def fresh [Scalar K] (programId : Nat) (sign started : K) : RunState K :=
  { programId, sign, status := .unsolved, iterations := 0, decision := none
    objective := Scalar.undefined, secondStage := [], reducedCosts := none, duals := none
    masterResult := none, started, cancelled := false }

/-- Whether the run ended. -/
def isDone (s : RunState K) : Bool := s.status != .unsolved

end RunState

namespace Program

variable {σ K : Type} [Scalar K]

/-- Refuse a subproblem whose objective runs against that of the first stage. -/
def checkGoals (p : Program σ K) (master : Model K) : List Nat → Except (Fault K) Unit
  | [] => .ok ()
  | i :: rest => do
      let sub ← p.subproblemAt i
      if sub.goal ≠ master.goal then
        throw (.invalid (.mixedGoals i sub.goal.text master.goal.text))
      checkGoals p master rest

/-- Refuse a program that is not built, whose probabilities do not sum to one, or
whose objectives run against each other; return the first-stage model. -/
def requireSolvable : Edit σ K (Model K) := do
  if (← Change.state).isDeferred then throw (.stale .program)
  validate (some false)
  let p ← Change.state
  let master ← p.stageOneModel
  p.checkGoals master (List.range p.scenarioCount)
  return master

end Program

end Recourse
