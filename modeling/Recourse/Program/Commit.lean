/-
  Program/Commit.lean --- installing solutions.

  Everything about a solution is checked before anything is written, so a
  solution is installed as a whole or not at all.
-/
import Recourse.Solver.RunState

set_option autoImplicit false

namespace Recourse

namespace Program

variable {σ K : Type}

/-- Load results into the subproblems of the slots, in order. -/
def loadSlots : List (Slot K) → List (SolveResult K) → List (Slot K) × List (SolveResult K)
  | s :: slots, r :: results =>
      let (rest, left) := loadSlots slots results
      ({ s with built := s.built.map fun b => (b.1.load r, b.2) } :: rest, left)
  | slots, results => (slots, results)

/-- Load results into the subproblems of partitions, in global order. -/
def loadPartitions : List (Partition K) → List (SolveResult K) → List (Partition K)
  | q :: rest, results =>
      let (slots, left) := loadSlots q.slots results
      { q with slots } :: loadPartitions rest left
  | [], _ => []

/-- Refuse the first result that does not fit its subproblem. -/
def checkResults : Nat → List (Model K) → List (SolveResult K) → Except (Fault K) Unit
  | i, m :: models, r :: results =>
      if r.point.length ≠ m.variableCount then .error (.dimension (.resultShape i))
      else checkResults (i + 1) models results
  | _, _, _ => .ok ()

variable [Scalar K]

/-- Install a solution with the results of the subproblems and of the first
stage. -/
def commit (s : Solution K) (secondStage : List (SolveResult K))
    (master : Option (SolveResult K)) : Edit σ K Unit := do
  let p ← Change.state
  let n ← p.decisionCount
  if s.decision.length ≠ n then throw (.dimension (.decision s.decision.length n))
  if secondStage.length ≠ p.scenarioCount then
    throw (.dimension (.results secondStage.length p.scenarioCount))
  let models ← p.subproblems
  checkResults (K := K) 0 models secondStage
  Change.update fun p =>
    { p with
      partitions := loadPartitions p.partitions secondStage
      master := match master with
        | some r => p.master.map fun m => (m.1.load r, m.2)
        | none => p.master
      solution := some s }

/-- Install what a run found. -/
def commitRun (solver : String) (r : RunState K) : Edit σ K Unit := do
  let p ← Change.state
  if r.programId ≠ p.id then throw (.invalid .foreignState)
  match r.status, r.decision with
  | .optimal, some decision =>
      commit
        { decision
          objective := r.objective
          reducedCosts := r.reducedCosts.getD (Scalar.zeros decision.length)
          duals := r.duals.getD []
          status := r.status
          solver
          iterations := r.iterations }
        r.secondStage r.masterResult
  | _, _ => throw (.solveFailure r.status none .nothingToCommit)

end Program

end Recourse
