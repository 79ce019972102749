/-
  Evaluation/Values.lean --- the values of a stochastic program.

  VRP is the value of the program.  WS is that of a single scenario known in
  advance, and EWS its expectation.  EV is the value of the expected scenario,
  and EEV what the decision for that scenario is worth.  EVPI compares VRP with
  EWS, and VSS compares EEV with VRP, both in minimization form.
-/
import Recourse.Evaluation.Basic

set_option autoImplicit false

namespace Recourse.Program

variable {σ K : Type} [Scalar K]

/-- The setup of a program with the data of another one, for a single scenario. -/
def restrictedSetup (p : Program σ K) : Setup σ K :=
  { (Setup.standard : Setup σ K) with
    firstData := p.firstData
    secondData := p.secondData
    schema := p.schema.map (·.relaxed)
    solver := p.solver }

/-- A program with the same recipes and data that holds one scenario only. -/
def restricted (p : Program σ K) (s : Scenario K) : Act σ K (Program σ K) := do
  match p.firstRecipe, p.secondRecipe with
  | none, _ => Act.fail (.undefinedRecipe .first)
  | _, none => Act.fail (.undefinedRecipe .second)
  | some first, some second => do
      let single ← create p.restrictedSetup
      let edit : Edit σ K Unit := do
        setRecipe (.first first)
        setRecipe (.second second)
        add (.scenario (← s.withProbability (.real 1))) none true
        generate
      return (← edit.apply single).2

/-- The program of the expected scenario. -/
def expectedProgram (p : Program σ K) : Act σ K (Program σ K) := do
  p.restricted (← p.expectedScenario)

variable [Host σ K]

/-- Solve a program and return its solution, refused with a fault where it is not
optimal. -/
def solved (s : StructuredSolver σ K) (refusal : Status → Fault K) : Edit σ K (Solution K) := do
  let status ← optimize (some (.structured s))
  if status ≠ .optimal then throw (refusal status)
  (← Change.state).committed

/-- The value of the recourse problem; its solution is committed. -/
def recourseProblem (solver : Option (Solver σ K)) : Edit σ K K := do
  let s := (← Change.state).structuredFor solver
  return (← solved s fun status => .solveFailure status none .recourse).objective

/-- The value of a program whose only scenario is known in advance. -/
def waitAndSee (p : Program σ K) (ref : ScenarioRef K) (solver : Option (Solver σ K)) :
    Act σ K K := do
  let single ← p.restricted (← p.resolve ref)
  let edit := solved (p.structuredFor solver) fun status =>
    .solveFailure status ref.index? .solve
  return (← edit.apply single).1.objective

/-- The expectation of the wait-and-see values. -/
def expectedWaitAndSee (solver : Option (Solver σ K)) : Edit σ K K := do
  validate none
  let p ← Change.state
  let s : Solver σ K := .structured (p.structuredFor solver)
  let weighted ← p.collect false fun _ scenario _ => do
    return scenario.probability * (← p.waitAndSee (.scenario scenario) (some s))
  return Scalar.sum weighted

/-- The solution of the program of the expected scenario. -/
def expectedSolution (p : Program σ K) (solver : Option (Solver σ K)) :
    Act σ K (Solution K) := do
  let single ← p.expectedProgram
  let edit := solved (p.structuredFor solver) fun status =>
    .solveFailure status none .expectedValue
  return (← edit.apply single).1

/-- The value of the expected scenario. -/
def expectedValue (p : Program σ K) (solver : Option (Solver σ K)) : Act σ K K := do
  return (← p.expectedSolution solver).objective

/-- The decision for the expected scenario. -/
def expectedDecision (p : Program σ K) (solver : Option (Solver σ K)) : Act σ K (List K) := do
  return (← p.expectedSolution solver).decision

/-- What the decision for the expected scenario is worth. -/
def expectedResult (solver : Option (Solver σ K)) : Edit σ K K := do
  let x ← (← Change.state).expectedDecision solver
  evaluate x solver

/-- The expected value of perfect information. -/
def perfectInformation (solver : Option (Solver σ K)) : Edit σ K K := do
  let vrp ← recourseProblem solver
  let ews ← expectedWaitAndSee solver
  return (← (← Change.state).sign) * (vrp - ews)

/-- The value of the stochastic solution. -/
def stochasticSolution (solver : Option (Solver σ K)) : Edit σ K K := do
  let vrp ← recourseProblem solver
  let eev ← expectedResult solver
  return (← (← Change.state).sign) * (eev - vrp)

end Recourse.Program
