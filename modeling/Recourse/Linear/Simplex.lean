/-
  Linear/Simplex.lean --- the bounded simplex method.

  The method starts with the logical columns in the basis.  It first walks to a
  feasible dictionary, along slopes made to have the right signs, and then from
  there down the cost.  Both walks become careful when they grow long: then they
  choose columns in order, which cannot cycle.
-/
import Recourse.Linear.Simplex.Descent
import Recourse.Linear.Simplex.Repair

set_option autoImplicit false

namespace Recourse.Simplex

variable {K : Type} [Scalar K]

/-- The dictionary with the slopes of a cost. -/
def priced (cost : Array K) (d : Dictionary K) : Dictionary K :=
  let own := d.resting.map fun r => cost.getD r.column 0
  { d with
    slopes := d.rows.foldl (fun acc row =>
      let c := cost.getD row.column 0
      if Scalar.isZero c then acc else Array.zipWith (fun s g => s + c * g) acc row.gains) own }

/-- The optimal point a dictionary stands for. -/
def optimum (h : HandedProgram K) (d : Dictionary K) (iterations : Nat) : OptimalPoint K :=
  let n := h.cost.length
  let m := h.upperRows.length
  let values := d.values.toList
  let slopes := d.columnSlopes.toList
  let point := values.take n
  let atUpper := fun (j : Nat) => d.resting.any fun r => r.column == j && r.place == .upper
  let own := (slopes.take n).zipIdx
  { point
    value := Scalar.dot h.cost point
    upperMarginals := ((slopes.drop n).take m).map (- ·)
    equalMarginals := (slopes.drop (n + m)).map (- ·)
    lowerMarginals := own.map fun p => if atUpper p.2 then 0 else p.1
    boundMarginals := own.map fun p => if atUpper p.2 then p.1 else 0
    iterations }

/-- How far slopes are drawn away from zero on the way to a feasible dictionary. -/
def pull : K := Scalar.decimal 5 7

/-- Solve a program with as many steps as it takes. -/
def solveFreely (tol : Tolerances K) (h : HandedProgram K) : Verdict K :=
  let start := tame pull (Dictionary.ofHanded h)
  let patience := 40 * (h.cost.length + start.rows.size) + 200
  let fuel := 5 * patience
  match walk (repair tol) patience fuel 0 start with
  | .lost => .ended .numericalError
  | .blocked => .ended .infeasible
  | .arrived d steps =>
      match walk (descend tol) (steps + patience) fuel steps (priced h.cost.toArray d) with
      | .lost => .ended .numericalError
      | .blocked => .ended .unbounded
      | .arrived d steps => .optimal (optimum h d steps)

/-- Whether no step at all is allowed. -/
def allowsNoStep (effort : Effort K) : Bool :=
  effort.presolve == some false && effort.iterations == some 0

/-- Solve a program.  With no step allowed only an optimal start is one. -/
def solve (tol : Tolerances K) (h : HandedProgram K) (effort : Effort K) : Verdict K :=
  let verdict := solveFreely tol h
  if allowsNoStep effort then
    match verdict with
    | .optimal o => if o.iterations = 0 then verdict else .ended .iterationLimit
    | .ended _ => .ended .iterationLimit
  else verdict

end Recourse.Simplex
