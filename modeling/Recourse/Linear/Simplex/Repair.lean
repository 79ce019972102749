/-
  Linear/Simplex/Repair.lean --- the walk towards feasible dictionaries.

  The dual simplex method: every step takes the basic column that violates its
  bounds most out of the basis.  The resting columns that can help are passed in
  the order in which their slopes would turn; those whose whole range does not
  remove the violation move to their other bound, and the next one enters.  The
  slopes keep their signs, so that the walk needs no cost of its own.
-/
import Recourse.Linear.Simplex.Basic

set_option autoImplicit false

namespace Recourse.Simplex

variable {K : Type} [Scalar K]

/-! ## A start with slopes of the right sign -/

/-- Where a column with a slope rests best, and the part of the slope that has
the right sign there, drawn away from zero: more so the larger the slope is, so
that slopes that would turn together do not. -/
def tamed (pull : K) (b : Option K × Option K) (slope : K) : Rest × K :=
  let shift := pull * (Scalar.abs slope + 1)
  let falls := Scalar.less slope 0
  match b with
  | (some _, some _) => if falls then (.upper, slope - shift) else (.lower, slope + shift)
  | (some _, none) => (.lower, if falls then shift else slope + shift)
  | (none, some _) => (.upper, if falls then slope - shift else -shift)
  | (none, none) => (.free, 0)

/-- A dictionary in which every slope has the right sign: columns move to the
better bound, and slopes for which there is none are left out. -/
def tame (pull : K) (d : Dictionary K) : Dictionary K :=
  let placed := (d.resting.zip d.slopes).map fun p =>
    let (place, slope) := tamed pull (d.boundsOf p.1.column) p.2
    (({ p.1 with place } : Resting), slope)
  { d with resting := placed.map (·.1), slopes := placed.map (·.2) }

/-! ## The column that leaves -/

/-- A basic column outside its bounds. -/
structure Violation (K : Type) where
  /-- Its row. -/
  row : Nat
  /-- Whether it has to grow. -/
  grows : Bool
  /-- How far it is from its bounds. -/
  size : K
  /-- The square of that distance, over the square of the length of the row. -/
  weight : K

/-- The square of the length of a row, measured in the logical columns. -/
def squaredLength (d : Dictionary K) (row : BasicRow K) : K :=
  let isLogical := fun (column : Nat) => decide (d.resting.size ≤ column)
  let own : K := if isLogical row.column then 1 else 0
  (d.resting.zip row.gains).foldl
    (fun acc p => if isLogical p.1.column then acc + p.2 * p.2 else acc) own

/-- The violation of a basic column with a value, if it is worth removing. -/
def violation? (aim : K) (d : Dictionary K) (row : BasicRow K) (x : K) (i : Nat) :
    Option (Violation K) :=
  let b := d.boundsOf row.column
  let of := fun (grows : Bool) (size : K) =>
    some { row := i, grows, size, weight := size * size / squaredLength d row }
  if Scalar.less aim (shortfall b x) then of true (shortfall b x)
  else if Scalar.less aim (excess b x) then of false (excess b x)
  else none

/-- All violations, in the order of the rows. -/
def violations (aim : K) (d : Dictionary K) : List (Violation K) :=
  ((d.rows.zip d.basicValues).zipIdx.toList).filterMap fun p =>
    violation? aim d p.1.1 p.1.2 p.2

/-- Violations in the order in which their removal is tried: the largest first,
or in the order of the columns. -/
def ordered (careful : Bool) (d : Dictionary K) (vs : List (Violation K)) : List (Violation K) :=
  let order := fun (v : Violation K) => ((d.rows[v.row]?).map (·.column)).getD 0
  vs.mergeSort fun v w =>
    if careful then decide (order v ≤ order w) else !Scalar.less v.weight w.weight

/-! ## The column that enters -/

/-- A resting column that can make a violation smaller. -/
structure Lever (K : Type) where
  /-- Its position among the resting columns. -/
  position : Nat
  /-- The column. -/
  column : Nat
  /-- How soon its slope turns. -/
  turn : K
  /-- Change of the violation per unit. -/
  gain : K
  /-- How far it can move, if there is an end. -/
  range : Option K
  /-- Where it rests after moving that far. -/
  place : Rest

/-- The lever at a position, for a violation and the row it is in. -/
def lever? (tolerance : K) (d : Dictionary K) (v : Violation K) (gains : Array K) (k : Nat) :
    Option (Lever K) := do
  let r ← d.resting[k]?
  let g ← gains[k]?
  let slope ← d.slopes[k]?
  let b := d.boundsOf r.column
  let speed := if v.grows then g else -g
  let up := Scalar.less tolerance speed
  let down := Scalar.less speed (-tolerance)
  let place ← match r.place with
    | .lower => if up then some Rest.upper else none
    | .upper => if down then some Rest.lower else none
    | .free => if up || down then some Rest.free else none
  if isFixed b then none
  else some { position := k, column := r.column, turn := Scalar.abs slope / Scalar.abs g
              gain := Scalar.abs g, range := range b, place }

/-- Whether a lever turns no later than another. -/
def turnsFirst (a b : Lever K) : Bool := !Scalar.less b.turn a.turn

/-- Whether a lever has less room than another. -/
def hasLessRoom (a b : Lever K) : Bool :=
  match a.range, b.range with
  | some v, some w => Scalar.less v w
  | some _, none => true
  | none, _ => false

/-- Whether a lever is to be used rather than one before it: it is stronger or,
equally strong, has no less room. -/
def isBetter (best l : Lever K) : Bool :=
  Scalar.less best.gain l.gain || !(Scalar.less l.gain best.gain || hasLessRoom l best)

/-- The lever to use among some that turn together. -/
def strongest (first : Lever K) (others : List (Lever K)) : Lever K :=
  others.foldl (fun best l => if isBetter best l then l else best) first

/-- How far some levers can make a violation smaller together, if there is an
end. -/
def reach : List (Lever K) → Option K
  | [] => some 0
  | l :: rest => do return l.gain * (← l.range) + (← reach rest)

/-- The levers to pass, the lever to use, and the violation left for it.  Levers
that turn together are passed together. -/
def pass (tol : Tolerances K) (size : K) :
    List (Lever K) → List (Lever K) × Option (Lever K) × K
  | [] => ([], none, size)
  | l :: ls =>
      let together := fun (m : Lever K) => !Scalar.less (l.turn + tol.slope) m.turn
      let group := ls.takeWhile together
      let left := (reach (l :: group)).map (size - ·)
      match left with
      | none => ([], some (strongest l group), size)
      | some left =>
          if Scalar.less tol.aim left then
            let (passed, used, left) := pass tol left (ls.dropWhile together)
            (l :: group ++ passed, used, left)
          else ([], some (strongest l group), size)
termination_by ls => ls.length
decreasing_by
  exact Nat.lt_succ_of_le (List.dropWhile_sublist _).length_le

/-! ## One step -/

/-- Remove a violation.  One that no lever can remove is left alone when it is
small. -/
def remove (careful : Bool) (tol : Tolerances K) (d : Dictionary K) (v : Violation K) :
    Option (Step K) :=
  let gains := ((d.rows[v.row]?).map (·.gains)).getD #[]
  let levers := (List.range d.resting.size).filterMap (lever? tol.gain d v gains)
  let inTurn := levers.mergeSort turnsFirst
  let (passed, used, left) :=
    if careful then ([], inTurn.head?, v.size) else pass tol v.size inTurn
  match used with
  | some l =>
      let moved := passed.foldl (fun d p => d.move p.position p.place) d
      some (.next (moved.pivot v.row l.position (if v.grows then .lower else .upper)))
  | none => if Scalar.less tol.feasibility left then some .stuck else none

/-- One step towards a feasible dictionary. -/
def repair (tol : Tolerances K) (careful : Bool) (d : Dictionary K) : Step K :=
  ((ordered careful d (violations tol.aim d)).findSome? (remove careful tol d)).getD .done

end Recourse.Simplex
