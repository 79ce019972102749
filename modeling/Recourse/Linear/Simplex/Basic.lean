/-
  Linear/Simplex/Basic.lean --- what both walks of the simplex method share.

  A walk goes from dictionary to dictionary, one exchange or one move at a time,
  until no step is left or none is possible.  Numbers count as zero below
  tolerances of their own.
-/
import Recourse.Linear.Dictionary

set_option autoImplicit false

namespace Recourse

/-- Below which size a number counts as zero. -/
structure Tolerances (K : Type) where
  /-- Violation of a bound that a walk tries to remove. -/
  aim : K
  /-- Violation of a bound that is accepted where it cannot be removed. -/
  feasibility : K
  /-- Slope that is worth following. -/
  slope : K
  /-- Gain that can be divided by. -/
  gain : K

namespace Simplex

variable {K : Type} [Scalar K]

/-! ## Violations of bounds -/

/-- How far a value lies below its lower bound. -/
def shortfall (b : Option K × Option K) (x : K) : K :=
  match b.1 with
  | some lo => if Scalar.less x lo then lo - x else 0
  | none => 0

/-- How far a value lies above its upper bound. -/
def excess (b : Option K × Option K) (x : K) : K :=
  match b.2 with
  | some hi => if Scalar.less hi x then x - hi else 0
  | none => 0

/-- The distance between two bounds, if both are there. -/
def range (b : Option K × Option K) : Option K :=
  match b with
  | (some lo, some hi) => some (hi - lo)
  | _ => none

/-- Whether bounds leave a column nowhere to go. -/
def isFixed (b : Option K × Option K) : Bool :=
  (range b).elim false fun w => !Scalar.less 0 w

/-! ## Walking -/

/-- What one step comes to. -/
inductive Step (K : Type) where
  /-- The next dictionary. -/
  | next (d : Dictionary K)
  /-- Nothing is left to do. -/
  | done
  /-- What is left to do cannot be done. -/
  | stuck

/-- Where a walk ended. -/
inductive Walk (K : Type) where
  /-- At its aim, after some steps. -/
  | arrived (d : Dictionary K) (steps : Nat)
  /-- Where its aim turned out to be out of reach. -/
  | blocked
  /-- Too far from the start. -/
  | lost

/-- Walk until an end is reached, `patience` steps freely, the rest carefully. -/
def walk (step : Bool → Dictionary K → Step K) (patience : Nat) :
    Nat → Nat → Dictionary K → Walk K
  | 0, _, _ => .lost
  | fuel + 1, steps, d =>
      match step (decide (patience < steps)) d with
      | .next d => walk step patience fuel (steps + 1) d
      | .done => .arrived d steps
      | .stuck => .blocked

end Simplex

end Recourse
