/-
  Solver/Extensive.lean --- solving a program as one linear program.
-/
import Recourse.Solver.ExtensiveForm

set_option autoImplicit false

namespace Recourse

/-- A run on the deterministic equivalent. -/
structure ExtensiveState (K : Type) extends RunState K where
  /-- The deterministic equivalent. -/
  form : ExtensiveForm K
  deriving Inhabited

namespace ExtensiveState

variable {σ K : Type} [Scalar K]

/-- Set up a run. -/
def build [Host σ K] : Edit σ K (ExtensiveState K) := do
  let master ← Program.requireSolvable
  let form ← Program.extensiveForm
  let p ← Change.state
  let started ← Host.clock (σ := σ) (K := K)
  return { RunState.fresh p.id master.goal.sign started with form }

/-- The entries of a vector at some positions. -/
def pick (xs : List K) (positions : List Nat) : List K :=
  positions.map fun i => xs.getD i Scalar.undefined

/-- The result of a subproblem as part of a result of the whole.  Duals and
reduced costs are divided by the probability; those of the placeholders belong
to the first stage and are zero here. -/
def unpack (f : ExtensiveForm K) (r : SolveResult K) (sub : Model K) (p : K)
    (columns rows : List Nat) : Except (Fault K) (SolveResult K) := do
  let scale : K := if Scalar.less 0 p then 1 / p else 0
  let point := pick r.point columns
  let objective ← sub.evaluateObjective point
  let costs := r.reducedCosts.getD []
  return { status := .optimal
           objective
           point
           duals := (pick r.duals rows).map (· * scale)
           reducedCosts := some (columns.map fun j =>
             if j < f.firstColumns then 0 else costs.getD j Scalar.undefined * scale)
           iterations := 0
           seconds := 0
           gap := 0 }

/-- The results of the subproblems from number `i` on. -/
def unpackAll (p : Program σ K) (f : ExtensiveForm K) (r : SolveResult K) :
    Nat → List (List Nat × List Nat) → Except (Fault K) (List (SolveResult K))
  | _, [] => .ok []
  | i, (columns, rows) :: rest => do
      let sub ← p.subproblemAt i
      let one ← unpack f r sub (f.probabilities.getD i 0) columns rows
      return one :: (← unpackAll p f r (i + 1) rest)

/-- The backend of a run, with the time limit of the configuration unless it has
one itself. -/
def backendFor (c : Config K) (b : Backend σ K) : Backend σ K :=
  match c.timeLimit with
  | .null => b
  | limit => b.withParam "time_limit" limit

/-- Solve the deterministic equivalent. -/
def run [Host σ K] (c : Config K) (b : Backend σ K) (p : Program σ K) :
    Change (ExtensiveState K) σ K Status := do
  let s ← Change.state
  if s.cancelled then
    Change.update fun s => { s with status := .iterationLimit }
    return .iterationLimit
  let r ← (backendFor c b).optimize s.form.model none
  Change.update fun s => { s with iterations := r.iterations }
  if r.status = .numericalError then throw (.solveFailure r.status none .equivalent)
  if r.status = .optimal then
    let n := s.form.firstColumns
    let decision := r.point.take n
    let duals := r.duals.take s.form.firstRows
    let costs := (r.reducedCosts.getD []).take n
    Change.update fun s =>
      { s with
        decision := some decision
        objective := r.objective
        duals := some duals
        reducedCosts := some costs
        masterResult := some
          { r with status := .optimal, point := decision, duals, reducedCosts := some costs
                   gap := 0 } }
    let second ← unpackAll p s.form r 0 (s.form.columns.zip s.form.rows)
    Change.update fun s => { s with secondStage := second }
  Change.update fun s => { s with status := r.status }
  return r.status

end ExtensiveState

end Recourse
