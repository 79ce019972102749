/-
  Linear/Result.lean --- the outcome of one linear program.

  Everything is in the sense of the objective that was asked for: `duals` holds
  the change of the objective per unit of each row bound, `reducedCosts` that per
  unit of the active bound of each column.
-/
import Recourse.Act

set_option autoImplicit false

namespace Recourse

/-- Primal and dual solution of a linear program. -/
structure SolveResult (K : Type) where
  /-- How the solve ended. -/
  status : Status
  /-- Objective value, the constant term included. -/
  objective : K
  /-- One value per column. -/
  point : List K
  /-- One dual per row. -/
  duals : List K
  /-- One reduced cost per column, if they are known. -/
  reducedCosts : Option (List K)
  /-- Iterations used. -/
  iterations : Int
  /-- Seconds used. -/
  seconds : K
  /-- Relative gap that was left. -/
  gap : K
  deriving Inhabited

namespace SolveResult

variable {K : Type}

/-- The entry of a vector at a position, a misuse where there is none. -/
def entry (xs : List K) (i : Nat) : Except (Fault K) K :=
  match xs[i]? with
  | some x => .ok x
  | none => .error (.misuse .position)

/-- The value of a column. -/
def value (r : SolveResult K) (column : Nat) : Except (Fault K) K := entry r.point column

/-- The dual of a row. -/
def dual (r : SolveResult K) (row : Nat) : Except (Fault K) K := entry r.duals row

/-- The reduced cost of a column, zero where reduced costs are not known. -/
def reducedCost [Scalar K] (r : SolveResult K) (column : Nat) : Except (Fault K) K :=
  match r.reducedCosts with
  | some d => entry d column
  | none => .ok 0

/-- A result with every number of the objective's sense multiplied by a sign,
the objective shifted by a constant. -/
def inSense [Scalar K] (r : SolveResult K) (sign constant : K) : SolveResult K :=
  { r with
    objective := sign * r.objective + constant
    duals := Scalar.scale sign r.duals
    reducedCosts := r.reducedCosts.map (Scalar.scale sign) }

/-- One line about a result. -/
def shown (r : SolveResult Float) : String :=
  "SolveResult(" ++ r.status.text ++ ", objective=" ++ Decimal.general 6 r.objective ++
    ", iterations=" ++ toString r.iterations ++ ", " ++ Decimal.fixed 4 r.seconds ++ "s)"

/-- A block with status, objective and problem size. -/
def summary (r : SolveResult Float) : String :=
  let rule := String.ofList (List.replicate 44 '-')
  "\n".intercalate
    [ rule,
      "Status       " ++ r.status.text,
      "Objective    " ++ Decimal.general 10 r.objective,
      "Columns      " ++ toString r.point.length,
      "Rows         " ++ toString r.duals.length,
      "Iterations   " ++ toString r.iterations,
      "Solve time   " ++ Decimal.fixed 4 r.seconds ++ " s",
      rule ]

end SolveResult

end Recourse
