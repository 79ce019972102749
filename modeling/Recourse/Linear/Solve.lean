/-
  Linear/Solve.lean --- solving a linear program on a host.

  The host solves programs in handed form and keeps the time; everything around
  it is here: the checks, the rows, and the way back from marginals to duals and
  reduced costs.
-/
import Recourse.Linear.Program

set_option autoImplicit false

namespace Recourse

/-- What an engine is asked to respect. -/
structure Effort (K : Type) where
  /-- Most iterations. -/
  iterations : Option Int
  /-- Feasibility tolerance. -/
  tolerance : Option K
  /-- Most seconds. -/
  seconds : Option K
  /-- Whether to simplify the program first. -/
  presolve : Option Bool

/-- Where linear programs are solved and time passes. -/
class Host (σ K : Type) where
  /-- Solve a program. -/
  optimize : HandedProgram K → Effort K → Act σ K (Verdict K)
  /-- Seconds on the clock. -/
  clock : Act σ K K

namespace Effort

variable {K : Type} [Scalar K]

/-- The first of two options that was written at all, if it says anything. -/
def option? (params : Setting K) (key other : String) : Option (Setting K) :=
  let found := match params.entry? key with
    | some s => some s
    | none => params.entry? other
  match found with
  | some .null => none
  | s => s

/-- The effort that options ask for. -/
def ofParams (params : Setting K) : Except (Fault K) (Effort K) := do
  let iterations ← match option? params "max_iterations" "max_iters" with
    | none => pure none
    | some s => some <$> Setting.convert s.toInteger
  let tolerance ← match option? params "tolerance" "tol" with
    | none => pure none
    | some s => some <$> Setting.convert s.toNumber
  let seconds ← match option? params "time_limit" "time_limit" with
    | none => pure none
    | some s => some <$> Setting.convert s.toNumber
  return { iterations, tolerance, seconds
           presolve := (params.entry? "presolve").map (·.holds) }

end Effort

namespace LinearProgram

variable {σ K : Type} [Scalar K]

/-- The result of a program without an optimum. -/
def withoutOptimum (p : LinearProgram K) (status : Status) : SolveResult K :=
  { status
    objective := Scalar.undefined
    point := p.cost.map fun _ => Scalar.undefined
    duals := Scalar.zeros p.rows.length
    reducedCosts := some (Scalar.zeros p.cost.length)
    iterations := 0
    seconds := 0
    gap := 0 }

/-- The result of a program from an optimum of what was handed over. -/
def withOptimum (p : LinearProgram K) (s : RowSplit K) (o : OptimalPoint K) : SolveResult K :=
  { status := .optimal
    objective := o.value
    point := o.point
    duals := s.duals p.rows.length o
    reducedCosts := some (List.zipWith (· + ·) o.lowerMarginals o.boundMarginals)
    iterations := o.iterations
    seconds := 0
    gap := 0 }

/-- Solve a linear program. -/
def solve [Host σ K] (p : LinearProgram K) (params : Setting K) : Act σ K (SolveResult K) := do
  p.check
  let (lower, upper) ← p.rowLimits
  let split ← RowSplit.ofLimits p.rows.length lower upper
  let effort ← Effort.ofParams params
  let handed := split.handed p
  if !handed.isUsable then Act.fail (.misuse .value)
  match ← Host.optimize handed effort with
  | .optimal o => return p.withOptimum split o
  | .ended status => return p.withoutOptimum status

end LinearProgram

end Recourse
