/-
  Script/Formula.lean --- formulas over columns, data and payloads.

  A formula is evaluated in a scope.  As soon as a column or an expression takes
  part in an operation it is one on linear expressions, and a comparison gives a
  row; otherwise it is one on numbers, and a comparison gives a truth value.
-/
import Recourse.Script.Bench
import Recourse.Model.Basic

set_option autoImplicit false

namespace Recourse

/-- An operation with two operands. -/
inductive Operator where
  /-- Sum. -/
  | add
  /-- Difference. -/
  | subtract
  /-- Product. -/
  | multiply
  /-- Quotient. -/
  | divide
  /-- At most. -/
  | atMost
  /-- At least. -/
  | atLeast
  /-- Equal. -/
  | equal
  /-- Strictly less, on numbers only. -/
  | less
  deriving DecidableEq, Repr, Inhabited

/-- A formula. -/
inductive Formula (K : Type) where
  /-- A number. -/
  | number (n : Numeral K)
  /-- A number in words. -/
  | numeral (s : String)
  /-- A column by its position; negative ones count from the end. -/
  | column (i : Int)
  /-- A placeholder by its position; negative ones count from the end. -/
  | placeholder (i : Int)
  /-- A part of the data of the stage. -/
  | data (path : List Value.PathStep)
  /-- A part of the payload. -/
  | payload (path : List Value.PathStep)
  /-- Something with a name. -/
  | binding (name : String)
  /-- The next number of the random stream. -/
  | draw
  /-- An operation, folded from the left over all operands. -/
  | apply (op : Operator) (operands : List (Formula K))
  /-- The negative. -/
  | negate (operand : Formula K)
  /-- The absolute value, of numbers only. -/
  | absolute (operand : Formula K)
  /-- One of two formulas, by a condition. -/
  | choose (condition yes no : Formula K)
  deriving Inhabited

/-- What a formula evaluates to. -/
inductive Quantity (K : Type) where
  /-- A plain value. -/
  | value (v : Value K)
  /-- A column. -/
  | column (v : Variable K)
  /-- An expression. -/
  | expr (e : LinearExpr K)
  /-- A row. -/
  | row (r : Row K)
  deriving Inhabited

namespace Quantity

variable {K : Type}

/-- The name of the type of a quantity. -/
def typeName : Quantity K → String
  | .value v => v.typeName
  | .column _ => "Variable"
  | .expr _ => "LinearExpr"
  | .row _ => "Constraint"

variable [Scalar K]

/-- The linear expression a quantity is, if it is one. -/
def linear? : Quantity K → Option (LinearExpr K)
  | .column v => some v.toExpr
  | .expr e => some e
  | _ => none

/-- The number a quantity stands for; only plain values stand for one. -/
def toNumber : Quantity K → Except (Fault K) K
  | .value v => v.toNumber
  | _ => .error (.misuse .kind)

/-- A quantity as a linear expression, a number as a constant one. -/
def toLinear (q : Quantity K) : Except (Fault K) (LinearExpr K) :=
  match q.linear? with
  | some e => .ok e
  | none => q.toNumber.map LinearExpr.ofNumber

/-- Whether a quantity counts as true. -/
def holds : Quantity K → Except (Fault K) Bool
  | .value v => v.holds
  | _ => .ok true

/-- A number as a quantity. -/
def real (x : K) : Quantity K := .value (.real x)

/-- A truth value as a quantity. -/
def flag (b : Bool) : Quantity K := .value (.flag b)

end Quantity

namespace Operator

variable {K : Type} [Scalar K]

/-- An operation on numbers. -/
def onNumbers (op : Operator) (x y : K) : Except (Fault K) (Quantity K) :=
  match op with
  | .add => .ok (.real (x + y))
  | .subtract => .ok (.real (x - y))
  | .multiply => .ok (.real (x * y))
  | .divide => if Scalar.isZero y then .error (.misuse .division) else .ok (.real (x / y))
  | .atMost => .ok (.flag (Scalar.atMost x y))
  | .atLeast => .ok (.flag (Scalar.atMost y x))
  | .equal => .ok (.flag (Scalar.same x y))
  | .less => .ok (.flag (Scalar.less x y))

/-- An operation with an expression on the left. -/
def onLeft (tag : Nat) (op : Operator) (e : LinearExpr K) (q : Quantity K) :
    Except (Fault K) (Quantity K) := do
  match op with
  | .add => return .expr (e.combine (← q.toLinear) 1)
  | .subtract => return .expr (e.combine (← q.toLinear) (-1))
  | .multiply => return .expr (e.scaled (← q.toNumber))
  | .divide =>
      let x ← q.toNumber
      if Scalar.isZero x then throw (.misuse .division)
      return .expr (e.scaled (1 / x))
  | .atMost => return .row (Row.compare tag e .atMost (← q.toLinear))
  | .atLeast => return .row (Row.compare tag e .atLeast (← q.toLinear))
  | .equal => return .row (Row.compare tag e .equal (← q.toLinear))
  | .less => throw (.misuse .kind)

/-- An operation with an expression on the right only.  Comparisons are turned
round, so that the expression is on the left. -/
def onRight (tag : Nat) (op : Operator) (q : Quantity K) (e : LinearExpr K) :
    Except (Fault K) (Quantity K) :=
  match op with
  | .subtract => do return .expr ((e.scaled (-1)).combine (← q.toLinear) 1)
  | .atMost => onLeft tag .atLeast e q
  | .atLeast => onLeft tag .atMost e q
  | .divide => .error (.misuse .kind)
  | _ => onLeft tag op e q

/-- An operation. -/
def onQuantities (tag : Nat) (op : Operator) (a b : Quantity K) :
    Except (Fault K) (Quantity K) :=
  match a.linear?, b.linear? with
  | some e, _ => onLeft tag op e b
  | none, some e => onRight tag op a e
  | none, none => do onNumbers op (← a.toNumber) (← b.toNumber)

end Operator

/-- What formulas are evaluated in. -/
structure Scope (K : Type) where
  /-- The columns that can be referred to. -/
  columns : List (Variable K)
  /-- The placeholders that can be referred to. -/
  placeholders : List (Variable K)
  /-- The data of the stage. -/
  data : Value K
  /-- The payload. -/
  payload : Value K
  /-- Quantities with names. -/
  bindings : Table String (Quantity K)
  deriving Inhabited

/-- The scope in which nothing can be referred to. -/
def Scope.empty {K : Type} : Scope K :=
  { columns := [], placeholders := [], data := .null, payload := .null, bindings := [] }

namespace Formula

variable {K : Type} [Scalar K]

/-- A variable from a list by position, negative ones from the end. -/
def pick (vs : List (Variable K)) (i : Int) : Except (Fault K) (Variable K) :=
  match (Value.offset? vs.length i).bind (vs[·]?) with
  | some v => .ok v
  | none => .error (.misuse .position)

/-- Fold an operation over quantities from the left.  Every comparison gives a
row of its own. -/
def fold (op : Operator) (acc : Quantity K) : List (Quantity K) → Act (Bench K) K (Quantity K)
  | [] => return acc
  | q :: rest => do
      let tag ← Act.freshIdentity
      fold op (← op.onQuantities tag acc q) rest

/-- The negative of a quantity. -/
def negated (q : Quantity K) : Except (Fault K) (Quantity K) :=
  match q.linear? with
  | some e => .ok (.expr (e.scaled (-1)))
  | none => do return .real (-(← q.toNumber))

mutual
/-- Evaluate a formula. -/
def eval (s : Scope K) : Formula K → Act (Bench K) K (Quantity K)
  | .number (.whole n) => return .value (.whole n)
  | .number (.real x) => return .real x
  | .numeral t => do return .real (← Value.readNumber (K := K) t)
  | .column i => do return .column (← pick s.columns i)
  | .placeholder i => do return .column (← pick s.placeholders i)
  | .data path => do return .value (← s.data.follow path)
  | .payload path => do return .value (← s.payload.follow path)
  | .binding name =>
      match s.bindings.find? name with
      | some q => return q
      | none => Act.fail (.misuse .key)
  | .draw => do return .real (← Bench.next)
  | .apply op operands => do
      match ← evalAll s operands with
      | [] => Act.fail (.misuse .position)
      | q :: rest => fold op q rest
  | .negate a => do negated (← eval s a)
  | .absolute a => do
      let q ← eval s a
      return .real (Scalar.abs (← q.toNumber))
  | .choose condition yes no => do
      let c ← eval s condition
      let a ← eval s yes
      let b ← eval s no
      return if ← c.holds then a else b

/-- Evaluate formulas in order. -/
def evalAll (s : Scope K) : List (Formula K) → Act (Bench K) K (List (Quantity K))
  | [] => return []
  | f :: rest => do
      let q ← eval s f
      return q :: (← evalAll s rest)
end

end Formula

/-- A sampler that evaluates a formula for every draw. -/
def Bench.formulaSampler {K : Type} [Scalar K] (f : Formula K) : Sampler (Bench K) K :=
  { draw := do
      match ← f.eval Scope.empty with
      | .value v => return v
      | _ => Act.fail (.misuse .kind)
    reseed }

end Recourse
