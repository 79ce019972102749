/-
  Linear/Program.lean --- linear programs as they are given, and as they are
  handed to an engine.

  A program minimizes a linear cost over rows and column bounds.  Rows are given
  by a right-hand side with senses, by lower and upper limits, or as equations.
  `LinearProgram.handed` turns them into equations and upper rows; a limit or a
  bound that is infinite, of either sign, is no limit.
-/
import Recourse.Model.Row
import Recourse.Linear.Result

set_option autoImplicit false

namespace Recourse

/-! ## Sparse rows -/

/-- The coefficients of a row by column. -/
abbrev SparseRow (K : Type) := List (Nat × K)

namespace SparseRow

variable {K : Type} [Scalar K]

/-- The value of a row at a point. -/
def eval (r : SparseRow K) (point : Nat → K) : K := Scalar.sum (r.map fun t => t.2 * point t.1)

/-- The value of a row at a point given as a list. -/
def apply (r : SparseRow K) (point : List K) : K := r.eval fun j => point.getD j 0

/-- A row with the opposite sign. -/
def negated (r : SparseRow K) : SparseRow K := r.map fun t => (t.1, -t.2)

/-- The entries of a list that are not zero. -/
def ofDense (xs : List K) : SparseRow K :=
  (xs.zipIdx.map fun p => (p.2, p.1)).filter fun t => !Scalar.isZero t.2

/-- A row as a list of `n` coefficients. -/
def toDense (r : SparseRow K) (n : Nat) : List K :=
  (List.range n).map fun j => (Table.find? r j).getD 0

end SparseRow

/-! ## Programs as given -/

/-- How the rows of a program are limited. -/
inductive RowLimits (K : Type) where
  /-- Each row against its right-hand side. -/
  | senses (relations : List Relation)
  /-- Each row between two limits, either list of which may be missing. -/
  | between (lower upper : Option (List K))
  /-- Each row equal to its right-hand side, free without one. -/
  | equations

/-- A linear program: minimize `cost` over rows and column bounds. -/
structure LinearProgram (K : Type) where
  /-- Cost of each column. -/
  cost : List K
  /-- Columns of the matrix. -/
  columns : Nat
  /-- Rows of the matrix. -/
  rows : List (SparseRow K)
  /-- Right-hand side, if given. -/
  rightHandSide : Option (List K)
  /-- Lower bounds of the columns. -/
  lower : List K
  /-- Upper bounds of the columns. -/
  upper : List K
  /-- Limits of the rows. -/
  limits : RowLimits K

namespace LinearProgram

variable {K : Type} [Scalar K]

/-- The columns whose bounds are crossed. -/
def crossed (lower upper : List K) : List Nat :=
  ((List.zipWith (fun lo hi => Scalar.less hi lo) lower upper).zipIdx.filter (·.1)).map (·.2)

/-- Refuse sizes that do not fit, and values that cannot be used. -/
def check (p : LinearProgram K) : Except (Fault K) Unit := do
  let n := p.cost.length
  let m := p.rows.length
  if p.columns ≠ n then throw (.dimension (.matrixColumns p.columns n))
  if let some b := p.rightHandSide then
    if b.length ≠ m then throw (.dimension (.rightHandSide b.length m))
  if p.lower.length ≠ n ∨ p.upper.length ≠ n then
    throw (.dimension (.bounds p.lower.length p.upper.length n))
  if !p.cost.all Scalar.isFinite then throw (.invalid .objectiveNotFinite)
  if let some b := p.rightHandSide then
    if b.any Scalar.isUndefined then throw (.invalid .rightHandSideUndefined)
  if p.rows.any (·.any fun t => Scalar.isUndefined t.2) then throw (.invalid .matrixUndefined)
  if p.lower.any Scalar.isUndefined || p.upper.any Scalar.isUndefined then
    throw (.invalid .boundsUndefined)
  if !(crossed p.lower p.upper).isEmpty then
    throw (.invalid (.boundsCrossed (crossed p.lower p.upper)))

/-- The limits of a row with a right-hand side. -/
def limitsOf (relation : Relation) (b : K) : Except (Fault K) (K × K) :=
  match relation.text with
  | "=" | "==" => .ok (b, b)
  | "<=" | "<" => .ok (Scalar.negInfinity, b)
  | ">=" | ">" => .ok (b, Scalar.infinity)
  | s => .error (.invalid (.unknownSense s))

/-- The limits of every row with a right-hand side. -/
def limitsOfAll : List Relation → List K → Except (Fault K) (List (K × K))
  | r :: rs, b :: bs => do
      let l ← limitsOf r b
      let ls ← limitsOfAll rs bs
      return l :: ls
  | _, _ => .ok []

/-- The lower and the upper limits of the rows, before they are matched. -/
def rowLimits (p : LinearProgram K) : Except (Fault K) (List K × List K) :=
  let m := p.rows.length
  match p.limits with
  | .senses relations =>
      match p.rightHandSide with
      | none => .error (.invalid .rightHandSideMissing)
      | some b =>
          if relations.length ≠ m then .error (.dimension (.senses relations.length m))
          else (limitsOfAll relations b).map List.unzip
  | .between none none | .equations =>
      match p.rightHandSide with
      | some b => .ok (b, b)
      | none => .ok (List.replicate m Scalar.negInfinity, List.replicate m Scalar.infinity)
  | .between lower upper =>
      .ok (lower.getD (List.replicate m Scalar.negInfinity),
        upper.getD (List.replicate m Scalar.infinity))

end LinearProgram

/-! ## Programs as handed to an engine -/

/-- A linear program in the form an engine takes: minimize the cost where upper
rows are at most, and equal rows exactly, their right-hand sides, and columns
stay within the bounds that are there. -/
structure HandedProgram (K : Type) where
  /-- Cost of each column. -/
  cost : List K
  /-- Rows that are at most their right-hand side. -/
  upperRows : List (SparseRow K × K)
  /-- Rows that are equal to their right-hand side. -/
  equalRows : List (SparseRow K × K)
  /-- Lower and upper bound of each column. -/
  bounds : List (Option K × Option K)

/-- An optimal point with its marginals: the change of the optimum per unit of
each right-hand side and of each bound. -/
structure OptimalPoint (K : Type) where
  /-- One value per column. -/
  point : List K
  /-- The cost of the point. -/
  value : K
  /-- One marginal per upper row. -/
  upperMarginals : List K
  /-- One marginal per equal row. -/
  equalMarginals : List K
  /-- One marginal per lower bound. -/
  lowerMarginals : List K
  /-- One marginal per upper bound. -/
  boundMarginals : List K
  /-- Iterations used. -/
  iterations : Nat

/-- What an engine says about a program. -/
inductive Verdict (K : Type) where
  /-- An optimum. -/
  | optimal (p : OptimalPoint K)
  /-- No optimum, for a reason. -/
  | ended (status : Status)

namespace HandedProgram

variable {K : Type} [Scalar K]

/-- A bound, or none where it is infinite. -/
def bound? (x : K) : Option K := if Scalar.isInfinite x then none else some x

/-- An engine needs a column, finite coefficients and finite right-hand sides. -/
def isUsable (h : HandedProgram K) : Bool :=
  let finiteRow := fun (r : SparseRow K × K) =>
    Scalar.isFinite r.2 && r.1.all fun t => Scalar.isFinite t.2
  !h.cost.isEmpty && h.upperRows.all finiteRow && h.equalRows.all finiteRow

end HandedProgram

/-! ## From rows to upper and equal rows -/

/-- Which rows of a program became equations, which have an upper limit, and
which have a lower one, each with the position of the row and its limit. -/
structure RowSplit (K : Type) where
  /-- Rows whose limits agree. -/
  equal : List (Nat × K)
  /-- Other rows with a finite upper limit. -/
  upper : List (Nat × K)
  /-- Other rows with a finite lower limit. -/
  lower : List (Nat × K)

namespace RowSplit

variable {K : Type} [Scalar K]

/-- Limits closer than this make a row an equation. -/
def equalityTolerance : K := Scalar.decimal 1 12

/-- Whether two limits make a row an equation. -/
def agree (lower upper : K) : Bool := Scalar.less (Scalar.abs (lower - upper)) equalityTolerance

/-- Two lists of limits of one length; a list of length one is repeated. -/
def aligned (lower upper : List K) : Except (Fault K) (List (K × K)) :=
  if lower.length = upper.length then .ok (lower.zip upper)
  else match lower, upper with
    | [x], ys => .ok (ys.map (x, ·))
    | xs, [y] => .ok (xs.map (·, y))
    | _, _ => .error (.misuse .value)

/-- The limit of a row. -/
def limit (xs : List K) (i : Nat) : Except (Fault K) (Nat × K) := do
  return (i, ← SolveResult.entry xs i)

/-- Sort the rows of a program with `m` rows by their limits. -/
def ofLimits (m : Nat) (lower upper : List K) : Except (Fault K) (RowSplit K) := do
  let pairs ← aligned lower upper
  let equal := (pairs.zipIdx.filter fun p => agree p.1.1 p.1.2).map (·.2)
  let others := (List.range m).filter fun i => !equal.contains i
  let uppers ← others.mapM (limit upper)
  let lowers ← others.mapM (limit lower)
  if equal.any (m ≤ ·) then throw (.misuse .position)
  let equals ← equal.mapM (limit lower)
  return { equal := equals
           upper := uppers.filter fun p => !Scalar.isInfinite p.2
           lower := lowers.filter fun p => !Scalar.isInfinite p.2 }

/-- The program handed over: upper rows, then lower rows with their sign turned. -/
def handed (s : RowSplit K) (p : LinearProgram K) : HandedProgram K :=
  let row := fun (i : Nat) => p.rows.getD i []
  { cost := p.cost
    upperRows := s.upper.map (fun r => (row r.1, r.2)) ++
      s.lower.map (fun r => ((row r.1).negated, -r.2))
    equalRows := s.equal.map fun r => (row r.1, r.2)
    bounds := (p.lower.zip p.upper).map fun b =>
      (HandedProgram.bound? b.1, HandedProgram.bound? b.2) }

/-- The marginal of the row at a position, zero for a row that was not handed
over on this side. -/
def marginal (rows : List (Nat × K)) (marginals : List K) (i : Nat) : K :=
  (Table.find? ((rows.map (·.1)).zip marginals) i).getD 0

/-- The duals of the rows from the marginals of the program handed over. -/
def duals (s : RowSplit K) (m : Nat) (o : OptimalPoint K) : List K :=
  let k := s.upper.length
  (List.range m).map fun i =>
    marginal s.equal o.equalMarginals i + marginal s.upper (o.upperMarginals.take k) i +
      -(marginal s.lower (o.upperMarginals.drop k) i)

end RowSplit

end Recourse
