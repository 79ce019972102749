/-
  Linear/Simplex/Descent.lean --- the walk down the cost.

  The primal simplex method: from a feasible dictionary every step takes the
  resting column with the steepest slope into the basis and moves it until a
  bound blocks it.
-/
import Recourse.Linear.Simplex.Basic

set_option autoImplicit false

namespace Recourse.Simplex

variable {K : Type} [Scalar K]

/-! ## The column that enters -/

/-- A column that may enter the basis. -/
structure Entering (K : Type) where
  /-- Its position among the resting columns. -/
  position : Nat
  /-- The column. -/
  column : Nat
  /-- Whether it grows. -/
  grows : Bool
  /-- Size of its slope. -/
  steepness : K

/-- Whether a resting column may move down its slope. -/
def entering? (tolerance : K) (d : Dictionary K) (k : Nat) (slope : K) :
    Option (Entering K) := do
  let r ← d.resting[k]?
  let falls := Scalar.less slope (-tolerance)
  let rises := Scalar.less tolerance slope
  let grows ← match r.place with
    | .lower => if falls then some true else none
    | .upper => if rises then some false else none
    | .free => if falls then some true else if rises then some false else none
  if isFixed (d.boundsOf r.column) then none
  else some { position := k, column := r.column, grows, steepness := Scalar.abs slope }

/-- The column to enter: the steepest, or the one first in order. -/
def choose (careful : Bool) (tolerance : K) (d : Dictionary K) : Option (Entering K) :=
  let better := fun (e b : Entering K) =>
    if careful then decide (e.column < b.column) else Scalar.less b.steepness e.steepness
  d.slopes.zipIdx.foldl
    (fun best p =>
      match entering? tolerance d p.2 p.1, best with
      | none, best => best
      | some e, none => some e
      | some e, some b => if better e b then some e else some b)
    none

/-! ## The column that leaves -/

/-- What stops an entering column. -/
structure Block (K : Type) where
  /-- How far it can go. -/
  distance : K
  /-- The row whose column reaches a bound, or none when the entering column
  reaches its own other bound. -/
  row : Option Nat
  /-- Where the blocking column comes to rest. -/
  place : Rest
  /-- Size of the gain in the blocking row. -/
  gain : K

/-- The bound a basic column reaches when it moves at the given speed. -/
def blockOf (tolerance : K) (b : Option K × Option K) (x speed : K) (row : Nat) :
    Option (Block K) :=
  let reach := fun (bound : Option K) (place : Rest) => bound.map fun y =>
    ({ distance := Scalar.larger 0 ((y - x) / speed), row := some row, place
       gain := Scalar.abs speed } : Block K)
  if Scalar.less tolerance speed then reach b.2 .upper
  else if Scalar.less speed (-tolerance) then reach b.1 .lower
  else none

/-- The earlier of two blocks; of equally early ones the one with the larger
gain, or the one whose column comes first in order. -/
def earlier (careful : Bool) (d : Dictionary K) (a b : Block K) : Block K :=
  if Scalar.less b.distance a.distance then b
  else if Scalar.less a.distance b.distance then a
  else
    let order := fun (c : Block K) =>
      ((c.row.bind fun i => d.rows[i]?).map (·.column)).getD 0
    if careful then (if order b < order a then b else a)
    else if Scalar.less a.gain b.gain then b else a

/-- What stops the entering column first. -/
def firstBlock (careful : Bool) (tolerance : K) (d : Dictionary K) (e : Entering K) :
    Option (Block K) :=
  let own := (range (d.boundsOf e.column)).map fun w =>
    ({ distance := w, row := none, place := if e.grows then .upper else .lower
       gain := 1 } : Block K)
  (d.rows.zip d.basicValues).zipIdx.foldl
    (fun best p =>
      let ((row, x), i) := p
      let g := row.gains.getD e.position 0
      let speed := if e.grows then g else -g
      match blockOf tolerance (d.boundsOf row.column) x speed i, best with
      | none, best => best
      | some b, none => some b
      | some b, some a => some (earlier careful d a b))
    own

/-! ## One step -/

/-- One step down the cost. -/
def descend (tol : Tolerances K) (careful : Bool) (d : Dictionary K) : Step K :=
  match choose careful tol.slope d with
  | none => .done
  | some e =>
      match firstBlock careful tol.gain d e with
      | none => .stuck
      | some b =>
          match b.row with
          | none => .next (d.move e.position b.place)
          | some i => .next (d.pivot i e.position b.place)

end Recourse.Simplex
