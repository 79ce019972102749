/-
  Model/Row.lean --- rows: a linear expression against a number.

  A comparison of two expressions moves everything to the left, so that its
  right-hand side is zero.  A row has an identity, its `tag`: what is written to
  a row is seen wherever the row stands.
-/
import Recourse.Model.Expr

set_option autoImplicit false

namespace Recourse

/-- How the two sides of a row are related. -/
inductive Relation where
  /-- The left side is at most the right one. -/
  | atMost
  /-- The left side is at least the right one. -/
  | atLeast
  /-- Both sides are equal. -/
  | equal
  /-- Anything else that was written. -/
  | other (text : String)
  deriving DecidableEq, Repr, Inhabited

namespace Relation

/-- The text of a relation. -/
def text : Relation → String
  | .atMost => "<="
  | .atLeast => ">="
  | .equal => "=="
  | .other s => s

/-- The relation a text stands for. -/
def ofText : String → Relation
  | "<=" => .atMost
  | ">=" => .atLeast
  | "==" => .equal
  | s => .other s

theorem ofText_text_atMost : ofText (text .atMost) = .atMost := rfl

end Relation

/-- `expr relation bound`. -/
structure Row (K : Type) where
  /-- Left-hand side. -/
  expr : LinearExpr K
  /-- How the sides are related. -/
  relation : Relation
  /-- Right-hand side. -/
  bound : K
  /-- Name, if it has one. -/
  name : Option String
  /-- Position in the model it was last added to, `-1` before. -/
  index : Int
  /-- Identity. -/
  tag : Nat
  deriving Inhabited

namespace Row

variable {K : Type} [Scalar K]

/-- The row that compares two expressions, everything on the left. -/
def compare (tag : Nat) (left : LinearExpr K) (relation : Relation) (right : LinearExpr K) :
    Row K :=
  { expr := left.combine right (-1)
    relation
    bound := 0
    name := none
    index := -1
    tag }

end Row

end Recourse
