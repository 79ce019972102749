/-
  Solver/PhaseOne.lean --- how far a subproblem is from feasible.

  The phase-one problem gives every row a slack on each side that it bounds, and
  minimizes the sum of the slacks.  Its value is the least total violation of
  the rows, and its duals give a slope in the decision.
-/
import Recourse.Solver.Round

set_option autoImplicit false

namespace Recourse

namespace PhaseOne

variable {K : Type} [Scalar K]

/-- The signs of the slacks of a row. -/
def slackSigns : Relation → List K
  | .atMost => [-1]
  | .atLeast => [1]
  | _ => [1, -1]

/-- Rows with their slacks, which get the columns from `next` on; with the number
of the column behind them. -/
def addSlacks : Nat → List (SparseRow K × Relation) → List (SparseRow K) × Nat
  | next, [] => ([], next)
  | next, (r, relation) :: rest =>
      let signs : List K := slackSigns relation
      let slacks := signs.zipIdx.map fun s => (next + s.2, s.1)
      let (rows, last) := addSlacks (next + signs.length) rest
      ((r ++ slacks) :: rows, last)

/-- The phase-one problem of a model in matrix form. -/
def problem (f : StandardForm K) : LinearProgram K :=
  let n := f.columns
  let (rows, last) := addSlacks n (f.rows.zip f.relations)
  let slacks := last - n
  { cost := Scalar.zeros n ++ List.replicate slacks 1
    columns := last
    rows
    rightHandSide := some f.rightHandSide
    lower := f.lower ++ Scalar.zeros slacks
    upper := f.upper ++ List.replicate slacks Scalar.infinity
    limits := .senses f.relations }

end PhaseOne

/-- The least total violation of the rows of a model at a decision, and its
slope. -/
def Model.phaseOne {σ K : Type} [Scalar K] [Host σ K] (m : Model K) (decision : List K)
    (dims : Nat) (params : Setting K) : Act σ K (K × List K) := do
  let form ← m.standardForm (some decision)
  let r ← (PhaseOne.problem form).solve params
  if r.status ≠ .optimal then Act.fail (.solveFailure r.status none .phaseOne)
  return (r.objective, ← m.subtractDuals r.duals (Scalar.zeros dims))

end Recourse
