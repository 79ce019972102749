/-
  Solver/Backend.lean --- solving models.

  A backend carries the parameters of its linear programs.  What it reports may
  differ from what the host found: `report` stands between the two, so that
  statements about any backend are statements about any `report`.
-/
import Recourse.Linear.Solve
import Recourse.Model.Form

set_option autoImplicit false

namespace Recourse

/-- A solver for models. -/
structure Backend (σ K : Type) where
  /-- Parameters, by name. -/
  params : Setting K
  /-- What becomes of a result before it is handed out. -/
  report : SolveResult K → Act σ K (SolveResult K)

namespace Backend

variable {σ K : Type}

/-- Read parameters as named entries; nothing at all counts as no entries. -/
def readParams [Scalar K] (s : Setting K) : Except (Fault K) (Setting K) :=
  if !s.holds then .ok (.record [])
  else match s with
    | .record fields => .ok (.record fields)
    | .text _ => .error (.misuse .value)
    | .items (.text _ :: _) => .error (.misuse .value)
    | .items (.items _ :: _) => .error (.misuse .value)
    | _ => .error (.misuse .kind)

/-- A backend that reports what it finds. -/
def ofParams [Scalar K] (params : Setting K) : Except (Fault K) (Backend σ K) := do
  return { params := ← readParams params, report := pure }

/-- A backend without parameters. -/
def plain : Backend σ K := { params := .record [], report := pure }

/-- The same backend with one more parameter, unless it is set already. -/
def withParam (b : Backend σ K) (key : String) (value : Setting K) : Backend σ K :=
  match b.params.entry? key, b.params with
  | none, .record fields => { b with params := .record (fields ++ [(key, value)]) }
  | _, _ => b

variable [Scalar K] [Host σ K]

/-- Solve a model, its placeholders fixed to a decision.  Nothing is written to
the model, and the result is in the sense of its objective. -/
def optimize (b : Backend σ K) (m : Model K) (decision : Option (List K)) :
    Act σ K (SolveResult K) := do
  let form ← m.standardForm decision
  let r ← form.toProgram.solve b.params
  b.report (r.inSense form.sign form.constant)

end Backend

/-- A backend written out. -/
def Backend.shown {σ : Type} (b : Backend σ Float) : String :=
  "LinearSolver(params=" ++ b.params.shown ++ ")"

/-- The name of the engine behind every backend. -/
def Backend.engine : String := "HiGHS"

/-- Solve a model with a new backend and load the result. -/
def Model.solve {σ K : Type} [Scalar K] [Host σ K] (m : Model K) (decision : Option (List K))
    (params : Setting K) : Act σ K (SolveResult K × Model K) := do
  let b : Backend σ K ← Backend.ofParams params
  let r ← b.optimize m decision
  return (r, m.load r)

end Recourse
