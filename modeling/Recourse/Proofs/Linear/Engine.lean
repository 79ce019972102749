/-
  Proofs/Linear/Engine.lean --- what is asked of an engine.

  An engine is any host.  `Host.Sound` is all that the theorems ask of it: an
  optimal verdict comes with a point and marginals that satisfy the optimality
  conditions of the program that was handed over, and a verdict of infeasibility
  or unboundedness is true.  Which of several optimal points and marginals it
  takes is left open, also from one call to the next, and so is whether it breaks
  down instead of giving a verdict.
-/
import Recourse.Linear.Solve
import Recourse.Proofs.Effect
import Recourse.Proofs.Linear.Meaning
import Mathlib.Tactic.MkIffOfInductiveProp

set_option autoImplicit false
set_option linter.unusedSectionVars false

namespace Recourse

variable {F : Type} [Field F] [LinearOrder F] [IsStrictOrderedRing F] [FloorRing F]

/-- The optimality conditions of a program: the point is feasible, the marginals
have the signs of their sides and belong to sides that are active, and together
they balance the cost of every column. -/
@[mk_iff]
structure OptimalPoint.Certifies (o : OptimalPoint (Exact F)) (h : HandedProgram (Exact F)) :
    Prop where
  /-- One value per column. -/
  point_length : o.point.length = h.cost.length
  /-- One marginal per upper row. -/
  upper_length : o.upperMarginals.length = h.upperRows.length
  /-- One marginal per equal row. -/
  equal_length : o.equalMarginals.length = h.equalRows.length
  /-- One marginal per lower bound. -/
  lower_length : o.lowerMarginals.length = h.cost.length
  /-- One marginal per upper bound. -/
  bound_length : o.boundMarginals.length = h.cost.length
  /-- The point is made of numbers. -/
  point_finite : AllFinite o.point
  /-- So are the marginals of the upper rows, -/
  upper_finite : AllFinite o.upperMarginals
  /-- of the equal rows, -/
  equal_finite : AllFinite o.equalMarginals
  /-- of the lower bounds, -/
  lower_finite : AllFinite o.lowerMarginals
  /-- and of the upper bounds. -/
  bound_finite : AllFinite o.boundMarginals
  /-- The value is the cost of the point. -/
  value : o.value = .finite (costAt h.cost (coord o.point))
  /-- The point is feasible. -/
  feasible : h.Feasible (coord o.point)
  /-- The marginals balance the cost of every column. -/
  stationary : ∀ j < h.cost.length, coord h.cost j =
    (∑ k ∈ Finset.range h.upperRows.length,
        coord o.upperMarginals k * (h.upperRows.getD k ([], .undefined)).1.coefficientAt j) +
      (∑ k ∈ Finset.range h.equalRows.length,
        coord o.equalMarginals k * (h.equalRows.getD k ([], .undefined)).1.coefficientAt j) +
      (coord o.lowerMarginals j + coord o.boundMarginals j)
  /-- Only active upper rows have a marginal, and it is not positive. -/
  upper_active : ∀ k < h.upperRows.length, coord o.upperMarginals k ≤ 0 ∧
    (coord o.upperMarginals k ≠ 0 → (h.upperRows.getD k ([], .undefined)).2 =
      .finite ((h.upperRows.getD k ([], .undefined)).1.valueAt (coord o.point)))
  /-- Only active lower bounds have a marginal, and it is not negative. -/
  lower_active : ∀ j < h.cost.length, 0 ≤ coord o.lowerMarginals j ∧
    (coord o.lowerMarginals j ≠ 0 →
      (h.bounds.getD j (none, none)).1 = some (.finite (coord o.point j)))
  /-- Only active upper bounds have a marginal, and it is not positive. -/
  bound_active : ∀ j < h.cost.length, coord o.boundMarginals j ≤ 0 ∧
    (coord o.boundMarginals j ≠ 0 →
      (h.bounds.getD j (none, none)).2 = some (.finite (coord o.point j)))

/-- A verdict is right for a program. -/
def Verdict.RightFor (v : Verdict (Exact F)) (h : HandedProgram (Exact F)) : Prop :=
  match v with
  | .optimal o => o.Certifies h
  | .ended .infeasible => ∀ x, ¬ h.Feasible x
  | .ended .unbounded => h.Unbounded
  | .ended _ => False

/-- A refusal that says nothing about the input. -/
def Fault.IsBreakdown {K : Type} (f : Fault K) : Prop := ∃ w, f = .misuse w

/-- An engine gives right verdicts or breaks down, and its clock gives a time or
breaks down. -/
structure Host.Sound (σ F : Type) [Field F] [LinearOrder F] [IsStrictOrderedRing F] [FloorRing F]
    [Host σ (Exact F)] : Prop where
  /-- Every verdict is right. -/
  verdict : ∀ (h : HandedProgram (Exact F)) (e : Effort (Exact F)),
    (Host.optimize h e : Act σ (Exact F) _).Ensures (·.RightFor h) Fault.IsBreakdown
  /-- The clock does not complain about the input. -/
  clock : (Host.clock : Act σ (Exact F) (Exact F)).Ensures (fun _ => True) Fault.IsBreakdown

end Recourse
