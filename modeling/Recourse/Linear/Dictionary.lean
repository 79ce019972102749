/-
  Linear/Dictionary.lean --- basic columns written in terms of the others.

  Every row of a program gets a logical column, so that the rows become
  equations.  A dictionary solves the equations for one basic column per row;
  the other columns rest at a bound, or at zero where they have none.  A pivot
  exchanges a basic column for a resting one and keeps the solutions of the
  equations.
-/
import Recourse.Linear.Solve

set_option autoImplicit false

namespace Recourse

/-- Where a column outside the basis rests. -/
inductive Rest where
  /-- At its lower bound. -/
  | lower
  /-- At its upper bound. -/
  | upper
  /-- At zero, without a bound. -/
  | free
  deriving DecidableEq, Repr, Inhabited

/-- A column outside the basis. -/
structure Resting where
  /-- The column. -/
  column : Nat
  /-- Where it rests. -/
  place : Rest
  deriving Repr, Inhabited

/-- A basic column: `column = offset + Σ gains k · restingₖ`. -/
structure BasicRow (K : Type) where
  /-- The column. -/
  column : Nat
  /-- Constant part. -/
  offset : K
  /-- Coefficient of each resting column. -/
  gains : Array K
  deriving Inhabited

/-- A program solved for its basic columns. -/
structure Dictionary (K : Type) where
  /-- Bounds of every column, logical ones behind the others. -/
  bounds : Array (Option K × Option K)
  /-- One row per basic column. -/
  rows : Array (BasicRow K)
  /-- The columns outside the basis. -/
  resting : Array Resting
  /-- Cost per unit of each resting column. -/
  slopes : Array K

namespace Dictionary

variable {K : Type} [Scalar K]

/-- The place where a column rests at first: at a bound, the lower one if there
is a choice. -/
def firstRest : Option K × Option K → Rest
  | (some _, _) => .lower
  | (none, some _) => .upper
  | (none, none) => .free

/-- A row solved for its logical column. -/
def logicalRow (n : Nat) (p : (SparseRow K × K) × Nat) : BasicRow K :=
  { column := n + p.2
    offset := p.1.2
    gains := ((p.1.1.toDense n).map fun a => -a).toArray }

/-- The dictionary in which the logical columns are basic. -/
def ofHanded (h : HandedProgram K) : Dictionary K :=
  let n := h.cost.length
  let upper : Option K × Option K := (some 0, none)
  let equal : Option K × Option K := (some 0, some 0)
  { bounds := (h.bounds ++ h.upperRows.map (fun _ => upper) ++
      h.equalRows.map (fun _ => equal)).toArray
    rows := ((h.upperRows ++ h.equalRows).zipIdx.map (logicalRow n)).toArray
    resting := (h.bounds.zipIdx.map fun b => ⟨b.2, firstRest b.1⟩).toArray
    slopes := h.cost.toArray }

/-- The bounds of a column. -/
def boundsOf (d : Dictionary K) (column : Nat) : Option K × Option K :=
  d.bounds.getD column (none, none)

/-- The value at which a column rests. -/
def restValue (d : Dictionary K) (r : Resting) : K :=
  match r.place with
  | .lower => (d.boundsOf r.column).1.getD 0
  | .upper => (d.boundsOf r.column).2.getD 0
  | .free => 0

/-- The values of the resting columns. -/
def restValues (d : Dictionary K) : Array K := d.resting.map d.restValue

/-- Sum of products of two arrays. -/
def product (xs ys : Array K) : K := (Array.zipWith (· * ·) xs ys).foldl (· + ·) 0

/-- The values of the basic columns. -/
def basicValues (d : Dictionary K) : Array K :=
  let rest := d.restValues
  d.rows.map fun r => r.offset + product r.gains rest

/-- The row of the entering column, after the exchange with the row's column. -/
def exchanged (row : BasicRow K) (k : Nat) (entering : Nat) : BasicRow K :=
  let p := row.gains.getD k 1
  { column := entering
    offset := -row.offset / p
    gains := (row.gains.map fun a => -a / p).setIfInBounds k (1 / p) }

/-- Replace the entering column in a row of gains. -/
def substitute (gains : Array K) (k : Nat) (new : BasicRow K) : Array K :=
  let a := gains.getD k 0
  if Scalar.isZero a then gains
  else (Array.zipWith (fun g h => g + a * h) gains new.gains).setIfInBounds k
    (a * new.gains.getD k 0)

/-- Exchange the basic column of row `r` for the resting column `k`; the column
that leaves the basis rests at the given place. -/
def pivot (d : Dictionary K) (r k : Nat) (place : Rest) : Dictionary K :=
  match d.rows[r]?, d.resting[k]? with
  | some row, some entering =>
      let new := exchanged row k entering.column
      let other := fun (i : Nat) (old : BasicRow K) =>
        if i = r then new
        else
          { old with
            offset := old.offset + old.gains.getD k 0 * new.offset
            gains := substitute old.gains k new }
      { d with
        rows := d.rows.mapIdx other
        resting := d.resting.setIfInBounds k ⟨row.column, place⟩
        slopes := substitute d.slopes k new }
  | _, _ => d

/-- Move a resting column to another place. -/
def move (d : Dictionary K) (k : Nat) (place : Rest) : Dictionary K :=
  { d with resting := d.resting.modify k fun r => { r with place } }

/-- The value of every column. -/
def values (d : Dictionary K) : Array K :=
  let start : Array K := Array.replicate d.bounds.size 0
  let withRest := d.resting.foldl (fun a r => a.setIfInBounds r.column (d.restValue r)) start
  (d.rows.zip d.basicValues).foldl (fun a p => a.setIfInBounds p.1.column p.2) withRest

/-- The slope of every column, zero for the basic ones. -/
def columnSlopes (d : Dictionary K) : Array K :=
  (d.resting.zip d.slopes).foldl (fun a p => a.setIfInBounds p.1.column p.2)
    (Array.replicate d.bounds.size 0)

end Dictionary

end Recourse
