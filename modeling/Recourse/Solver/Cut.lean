/-
  Solver/Cut.lean --- linear inequalities on the first-stage decision.

  A cut is a linear function of the decision, given by its slope and its value at
  the decision it was derived at.  All cuts are in minimization form.
-/
import Recourse.Act

set_option autoImplicit false

namespace Recourse

/-- What a cut says. -/
inductive CutKind where
  /-- The recourse variable is at least the value of the cut. -/
  | optimality
  /-- The value of the cut is at most zero. -/
  | feasibility
  deriving DecidableEq, Repr, Inhabited

/-- The word for a kind of cut. -/
def CutKind.text : CutKind → String
  | .optimality => "optimality"
  | .feasibility => "feasibility"

/-- The kind a word stands for. -/
def CutKind.ofText? (s : String) : Option CutKind :=
  [CutKind.optimality, CutKind.feasibility].find? (·.text == s)

/-- A cut. -/
structure Cut (K : Type) where
  /-- What it says. -/
  kind : CutKind
  /-- Slope in the decision. -/
  gradient : List K
  /-- Value at the decision it was derived at. -/
  value : K
  /-- The decision it was derived at. -/
  decision : List K
  /-- The scenarios it covers. -/
  scenarios : List Int
  deriving Inhabited

namespace Cut

variable {K : Type} [Scalar K]

/-- The value at zero. -/
def constant (c : Cut K) : K := c.value - Scalar.dot c.gradient c.decision

/-- The value at a decision. -/
def evaluate (c : Cut K) (x : List K) : K := c.constant + Scalar.dot c.gradient x

/-- Require as many entries in decisions as the slope has. -/
def requireFit (c : Cut K) (xs : List (List K)) : Except (Fault K) Unit :=
  if xs.all fun x => x.length == c.gradient.length then .ok () else .error (.misuse .value)

/-- The values at several decisions and at zero, refused where the cut has no value
because the number of entries differs. -/
def valuesAt (c : Cut K) (xs : List (List K)) : Except (Fault K) (K × List K) := do
  c.requireFit (c.decision :: xs)
  return (c.constant, xs.map c.evaluate)

end Cut

end Recourse
