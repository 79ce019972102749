/-
  Model/Form.lean --- the matrix form of a model.

  `Model.standardForm` fixes the placeholders to a decision and moves the
  constants of the rows to the right.  A point satisfies the form exactly when
  it satisfies the rows and bounds of the model and carries the decision at the
  placeholders.
-/
import Recourse.Model.Basic

set_option autoImplicit false

namespace Recourse

/-- Matrix form of a model, the objective in the model's own sense. -/
structure StandardForm (K : Type) where
  /-- Objective coefficient of each column. -/
  cost : List K
  /-- Matrix by rows. -/
  rows : List (SparseRow K)
  /-- Right-hand sides. -/
  rightHandSide : List K
  /-- Relations of the rows. -/
  relations : List Relation
  /-- Lower bounds. -/
  lower : List K
  /-- Upper bounds. -/
  upper : List K
  /-- Constant term of the objective. -/
  constant : K
  /-- Sense of the objective. -/
  goal : Goal

namespace StandardForm

variable {K : Type}

/-- Number of columns. -/
def columns (f : StandardForm K) : Nat := f.cost.length

/-- Minus one for maximization, one otherwise. -/
def sign [Scalar K] (f : StandardForm K) : K := f.goal.sign

/-- The linear program to minimize: the objective with its sign. -/
def toProgram [Scalar K] (f : StandardForm K) : LinearProgram K :=
  { cost := Scalar.scale f.sign f.cost
    columns := f.columns
    rows := f.rows
    rightHandSide := some f.rightHandSide
    lower := f.lower
    upper := f.upper
    limits := .senses f.relations }

end StandardForm

namespace Model

variable {K : Type} [Scalar K]

/-- The decision that fixes the placeholders: the one given, else the one stored.
A model without placeholders needs none. -/
def decisionFor (m : Model K) (decision : Option (List K)) : Except (Fault K) (List K) :=
  if m.decisionCount = 0 then .ok []
  else match decision.or m.fixed with
    | none => .error (.invalid .decisionMissing)
    | some x => do
        m.checkDecision x
        return x

/-- The bounds of a column once the placeholders are fixed. -/
def boundsAt (x : List K) (v : Variable K) : K × K :=
  match v.decision with
  | some j => (x.getD j 0, x.getD j 0)
  | none => (v.lower, v.upper)

/-- The coefficients of the rows that stand at a position. -/
def rowAt (m : Model K) (i : Nat) : SparseRow K :=
  ((m.rows.filter (·.index == (i : Int))).flatMap (·.expr.terms)).foldl (LinearExpr.addTerm 1) []

/-- Whether every row stands at its own position. -/
def isAligned (m : Model K) : Bool := m.rows.zipIdx.all fun p => p.1.index == (p.2 : Int)

/-- The matrix of a model by rows. -/
def matrix (m : Model K) : List (SparseRow K) :=
  if m.isAligned then m.rows.map (·.expr.terms) else (List.range m.rowCount).map m.rowAt

/-- Convert a model to matrix form, its placeholders fixed to a decision. -/
def standardForm (m : Model K) (decision : Option (List K)) :
    Except (Fault K) (StandardForm K) := do
  let n := m.variableCount
  if m.objective.terms.any fun t => decide (n ≤ t.1) then throw (.misuse .position)
  let x ← m.decisionFor decision
  if m.rows.any fun r => r.expr.terms.any fun t => decide (n ≤ t.1) then throw (.misuse .value)
  return { cost := (List.range n).map m.objective.coefficient
           rows := m.matrix
           rightHandSide := m.rows.map fun r => r.bound - r.expr.constant
           relations := m.rows.map (·.relation)
           lower := m.columns.map fun v => (boundsAt x v).1
           upper := m.columns.map fun v => (boundsAt x v).2
           constant := m.objective.constant
           goal := m.goal }

end Model

end Recourse
