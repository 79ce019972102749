/-
  Status.lean --- how a solve ended.
-/

set_option autoImplicit false

namespace Recourse

/-- How a linear program or a whole stochastic program ended.  A run that was
cancelled counts as one that met its iteration limit. -/
inductive Status where
  /-- Solved. -/
  | optimal
  /-- No point satisfies the constraints. -/
  | infeasible
  /-- The objective has no bound. -/
  | unbounded
  /-- Too many iterations, or cancelled. -/
  | iterationLimit
  /-- Out of time. -/
  | timeLimit
  /-- The arithmetic broke down. -/
  | numericalError
  /-- Not solved yet. -/
  | unsolved
  deriving DecidableEq, Repr, Inhabited

namespace Status

/-- The word for a status. -/
def text : Status → String
  | .optimal => "optimal"
  | .infeasible => "infeasible"
  | .unbounded => "unbounded"
  | .iterationLimit => "iteration_limit"
  | .timeLimit => "time_limit"
  | .numericalError => "numerical_error"
  | .unsolved => "unsolved"

/-- Every status. -/
def all : List Status :=
  [.optimal, .infeasible, .unbounded, .iterationLimit, .timeLimit, .numericalError, .unsolved]

/-- The status a word stands for. -/
def ofText? (s : String) : Option Status := all.find? (·.text == s)

theorem ofText?_text (s : Status) : ofText? s.text = some s := by
  cases s <;> decide

/-- Only an optimal solve succeeded. -/
def isSuccessful (s : Status) : Bool := s == .optimal

/-- Whether a solve that ended so leaves a point behind, optimal or not. -/
def hasSolution : Status → Bool
  | .optimal | .iterationLimit | .timeLimit => true
  | _ => false

end Status

end Recourse
