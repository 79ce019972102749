/-
  Model/Expr.lean --- linear expressions over the columns of a model.

  An expression is a constant and a coefficient per column, with the names of
  the columns it was built from.  Its value at a point is
  `Σ coefficient · point column + constant`, and the operations below are the
  pointwise ones.
-/
import Recourse.Number.Scalar
import Recourse.Sorting
import Recourse.Table

set_option autoImplicit false

namespace Recourse

/-- A column of a model.  A placeholder stands for a first-stage decision and
knows its position among them. -/
structure Variable (K : Type) where
  /-- Position among the columns of the model. -/
  index : Nat
  /-- Lower bound. -/
  lower : K
  /-- Upper bound. -/
  upper : K
  /-- Name, if it has one. -/
  name : Option String
  /-- The first-stage decision a placeholder stands for. -/
  decision : Option Nat
  deriving Inhabited

/-- `Σ coefficient · column + constant`. -/
structure LinearExpr (K : Type) where
  /-- Coefficients by column, in the order the columns first came up. -/
  terms : Table Nat K
  /-- The constant term. -/
  constant : K
  /-- Names of columns. -/
  names : Table Nat String
  deriving Inhabited

/-- The name a column goes by when it has none. -/
def columnName (index : Nat) : String := s!"x_{index}"

/-- A name that is there and not empty. -/
def givenName? (name : Option String) : Option String := name.filter (!·.isEmpty)

namespace Variable

variable {K : Type}

/-- Whether a column stands for a first-stage decision. -/
def isDecision (v : Variable K) : Bool := v.decision.isSome

/-- The name of a column, or a name made from its position. -/
def label (v : Variable K) : String := (givenName? v.name).getD (columnName v.index)

/-- A column as an expression. -/
def toExpr [Scalar K] (v : Variable K) : LinearExpr K :=
  { terms := [(v.index, 1)]
    constant := 0
    names := match givenName? v.name with
      | some s => [(v.index, s)]
      | none => [] }

end Variable

namespace LinearExpr

variable {K : Type} [Scalar K]

/-- A number as an expression. -/
def ofNumber (x : K) : LinearExpr K := { terms := [], constant := x, names := [] }

/-- The expression zero. -/
def zero : LinearExpr K := ofNumber 0

/-- Every coefficient and the constant multiplied by a factor. -/
def scaled (e : LinearExpr K) (factor : K) : LinearExpr K :=
  { terms := e.terms.map fun t => (t.1, t.2 * factor)
    constant := e.constant * factor
    names := e.names }

/-- Add a weighted coefficient to a column. -/
def addTerm (weight : K) (terms : Table Nat K) (t : Nat × K) : Table Nat K :=
  terms.alter t.1 (fun old => old.getD 0 + weight * t.2)

/-- `e + weight · other`. -/
def combine (e other : LinearExpr K) (weight : K) : LinearExpr K :=
  { terms := other.terms.foldl (addTerm weight) e.terms
    constant := e.constant + weight * other.constant
    names := e.names.merge other.names }

/-- The coefficient of a column, zero where it does not occur. -/
def coefficient (e : LinearExpr K) (index : Nat) : K := (e.terms.find? index).getD 0

/-- The terms in the order of their columns. -/
def sortedTerms (e : LinearExpr K) : List (Nat × K) :=
  Sorting.sorted (fun a b => decide (a.1 ≤ b.1)) e.terms

/-- The value at a point. -/
def eval (e : LinearExpr K) (point : Nat → K) : K :=
  Scalar.sum (e.terms.map fun t => t.2 * point t.1) + e.constant

end LinearExpr

end Recourse
