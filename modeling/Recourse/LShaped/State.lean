/-
  LShaped/State.lean --- the state of the L-shaped method.

  The master problem is kept in minimization form: the first stage, one recourse
  variable per group of scenarios, and one row per cut.  A recourse variable is
  fixed at zero until its first optimality cut makes it active.
-/
import Recourse.Solver.Cut
import Recourse.Solver.PhaseOne
import Recourse.Solver.RunState

set_option autoImplicit false

namespace Recourse

namespace LShaped

/-- The phases of a run. -/
inductive Phase where
  /-- Nothing was done yet. -/
  | init
  /-- The master problem is solved next. -/
  | masterSolve
  /-- The candidate is announced next. -/
  | broadcast
  /-- The subproblems are solved next. -/
  | subproblemSolve
  /-- The round becomes cuts and bounds next. -/
  | aggregate
  /-- The solution is put together next. -/
  | converged
  /-- The run ended. -/
  | terminated
  deriving DecidableEq, Repr, Inhabited

/-- The word for a phase. -/
def Phase.text : Phase → String
  | .init => "init"
  | .masterSolve => "master_solve"
  | .broadcast => "broadcast"
  | .subproblemSolve => "subproblem_solve"
  | .aggregate => "aggregate"
  | .converged => "converged"
  | .terminated => "terminated"

/-- Every phase. -/
def Phase.all : List Phase :=
  [.init, .masterSolve, .broadcast, .subproblemSolve, .aggregate, .converged, .terminated]

/-- The phase a word stands for. -/
def Phase.ofText? (s : String) : Option Phase := Phase.all.find? (·.text == s)

theorem Phase.ofText?_text (p : Phase) : Phase.ofText? p.text = some p := by
  cases p <;> decide

/-- A cut in the master problem. -/
structure AddedCut (K : Type) where
  /-- The cut. -/
  cut : Cut K
  /-- The recourse variable it bounds, if it bounds one. -/
  group : Option Nat
  deriving Inhabited

/-- The best decision so far. -/
structure Incumbent (K : Type) where
  /-- The decision. -/
  decision : List K
  /-- The subproblems at it. -/
  round : Round K
  /-- The master solution it came from. -/
  master : SolveResult K
  deriving Inhabited

/-- The state of a run. -/
structure State (K : Type) extends RunState K where
  /-- What is done next. -/
  phase : Phase
  /-- The first stage in minimization form. -/
  first : StandardForm K
  /-- For each recourse variable whether a cut bounds it. -/
  active : List Bool
  /-- The cuts in the order they were added. -/
  cuts : List (AddedCut K)
  /-- Greatest lower bound so far. -/
  lowerBound : K
  /-- Least value of a decision so far. -/
  upperBound : K
  /-- Decision of the last master solution. -/
  candidate : Option (List K)
  /-- The last master solution. -/
  masterSolution : Option (SolveResult K)
  /-- The round in flight. -/
  round : Option (Round K)
  /-- The best decision so far. -/
  incumbent : Option (Incumbent K)
  /-- Whether the last master problem needed the box. -/
  boxed : Bool

end LShaped

/-- A form with its objective turned into minimization. -/
def StandardForm.minimized {K : Type} [Scalar K] (f : StandardForm K) : StandardForm K :=
  { f with cost := Scalar.scale f.sign f.cost, constant := f.sign * f.constant, goal := .minimize }

namespace LShaped.State

variable {K : Type}

/-- Number of first-stage columns. -/
def firstColumns (s : State K) : Nat := s.first.columns

/-- Whether every recourse variable is bounded by a cut. -/
def allActive (s : State K) : Bool := s.active.all id

variable [Scalar K]

/-- A state before the first step. -/
def fresh (run : RunState K) (first : StandardForm K) (groups : Nat) : State K :=
  { run with
    phase := .init
    first
    active := List.replicate groups false
    cuts := []
    lowerBound := Scalar.negInfinity
    upperBound := Scalar.infinity
    candidate := none
    masterSolution := none
    round := none
    incumbent := none
    boxed := false }

/-- The relative gap between the bounds, infinite while one of them is. -/
def gap (s : State K) : K :=
  if Scalar.isFinite s.lowerBound && Scalar.isFinite s.upperBound then
    (s.upperBound - s.lowerBound) / Scalar.larger 1 (Scalar.abs s.upperBound)
  else Scalar.infinity

/-! ## The master problem -/

/-- The cost of every column of the master problem. -/
def masterCost (s : State K) : List K := s.first.cost ++ s.active.map fun _ => 1

/-- The lower bounds of the recourse variables. -/
def recourseLower (s : State K) : List K :=
  s.active.map fun a => if a then Scalar.negInfinity else 0

/-- The upper bounds of the recourse variables. -/
def recourseUpper (s : State K) : List K :=
  s.active.map fun a => if a then Scalar.infinity else 0

/-- The row of a cut: slope times decision minus recourse variable. -/
def cutRow (s : State K) (c : AddedCut K) : List K :=
  let recourse : List K := s.active.zipIdx.map fun a => if c.group = some a.2 then -1 else 0
  c.cut.gradient ++ recourse

/-- The right-hand side of the row of a cut. -/
def cutBound (c : AddedCut K) : K := -c.cut.constant

/-- The master problem with some bounds on the first-stage columns. -/
def master (s : State K) (lower upper : List K) : LinearProgram K :=
  { cost := s.masterCost
    columns := s.firstColumns + s.active.length
    rows := s.first.rows ++ s.cuts.map fun c => SparseRow.ofDense (s.cutRow c)
    rightHandSide := some (s.first.rightHandSide ++ s.cuts.map cutBound)
    lower := lower ++ s.recourseLower
    upper := upper ++ s.recourseUpper
    limits := .senses (s.first.relations ++ s.cuts.map fun _ => .atMost) }

/-- The master problem. -/
def freeMaster (s : State K) : LinearProgram K := s.master s.first.lower s.first.upper

/-- The master problem with its first-stage columns in a box. -/
def boxedMaster (s : State K) (bound : K) : LinearProgram K :=
  s.master (s.first.lower.map (Scalar.maximum · (-bound)))
    (s.first.upper.map (Scalar.minimum · bound))

/-- A state with one more cut; the recourse variable it bounds is active from
then on. -/
def addCut (s : State K) (cut : Cut K) (group : Option Nat) : State K :=
  { s with
    active := match group with
      | some g => s.active.set g true
      | none => s.active
    cuts := s.cuts ++ [⟨cut, group⟩] }

end LShaped.State

end Recourse
