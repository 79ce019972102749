/-
  Model/Basic.lean --- algebraic models of linear programs.

  A model is built column by column and row by row.  A second-stage model refers
  to the first-stage decisions through placeholders, columns that are fixed to a
  decision whenever the model is solved.
-/
import Recourse.Linear.Program

set_option autoImplicit false

namespace Recourse

/-- The sense of an objective. -/
inductive Goal where
  /-- Less is better. -/
  | minimize
  /-- More is better. -/
  | maximize
  deriving DecidableEq, Repr, Inhabited

namespace Goal

/-- The word for a goal. -/
def text : Goal → String
  | .minimize => "minimize"
  | .maximize => "maximize"

/-- The factor that turns a goal into minimization. -/
def sign {K : Type} [Scalar K] : Goal → K
  | .minimize => 1
  | .maximize => -1

end Goal

/-- A handle on the first-stage decisions, by name. -/
structure Decisions where
  /-- Names of the first-stage variables, in order. -/
  names : List String
  deriving DecidableEq, Repr, Inhabited

/-- A handle on `n` decisions without names of their own. -/
def Decisions.unnamed (n : Nat) : Decisions := ⟨(List.range n).map columnName⟩

/-- A linear program built from variables, rows and an objective. -/
structure Model (K : Type) where
  /-- Name of the model. -/
  name : String
  /-- Columns in order of their index. -/
  columns : List (Variable K)
  /-- Rows in the order they were added. -/
  rows : List (Row K)
  /-- Objective, if one was set. -/
  objective? : Option (LinearExpr K)
  /-- Sense of the objective. -/
  goal : Goal
  /-- First-stage decision that later solves use. -/
  fixed : Option (List K)
  /-- Result loaded last. -/
  result : Option (SolveResult K)
  deriving Inhabited

/-- A change of a model that may be refused midway; what was added before the
refusal stays. -/
abbrev ModelEdit (K α : Type) : Type := ExceptT (Fault K) (StateM (Model K)) α

namespace Model

variable {K : Type}

/-- A model without columns and rows. -/
def empty (name : String) : Model K :=
  { name, columns := [], rows := [], objective? := none, goal := .minimize, fixed := none,
    result := none }

/-! ## Looking at a model -/

/-- Number of columns. -/
def variableCount (m : Model K) : Nat := m.columns.length

/-- Number of rows. -/
def rowCount (m : Model K) : Nat := m.rows.length

/-- The objective, zero where none was set. -/
def objective [Scalar K] (m : Model K) : LinearExpr K := m.objective?.getD LinearExpr.zero

/-- The placeholders with their positions, in order of position. -/
def placeholders (m : Model K) : List (Nat × Variable K) :=
  Sorting.sorted (fun a b => decide (a.1 ≤ b.1))
    (m.columns.filterMap fun v => v.decision.map (·, v))

/-- Number of placeholders. -/
def decisionCount (m : Model K) : Nat := (m.columns.filter (·.isDecision)).length

/-- The handle on the columns of a first-stage model. -/
def decisions (m : Model K) : Decisions := ⟨m.columns.map (·.label)⟩

/-- The decision position of a column, if it is a placeholder. -/
def position? (m : Model K) (column : Nat) : Option Nat :=
  (m.columns.find? (fun v => v.index == column && v.isDecision)).bind (·.decision)

/-! ## Columns -/

variable [Scalar K]

/-- Append a column with the given bounds. -/
def addVariable (lower upper : Numeral K) (name : Option String) :
    ModelEdit K (Variable K) := do
  if Scalar.less upper.value lower.value then
    throw (.invalid (.variableBounds lower upper name))
  let m ← get
  let v : Variable K :=
    { index := m.variableCount, lower := lower.value, upper := upper.value, name
      decision := none }
  set { m with columns := m.columns ++ [v] }
  return v

/-- Bounds for several columns: one for all, or one for each. -/
inductive ColumnBounds (K : Type) where
  /-- The same for every column. -/
  | shared (x : K)
  /-- One for each column. -/
  | each (xs : List K)

/-- The bound of a column. -/
def ColumnBounds.at (b : ColumnBounds K) (i : Nat) : K :=
  match b with
  | .shared x => x
  | .each xs => xs.getD i 0

/-- Refuse a list of bounds of the wrong length. -/
def ColumnBounds.check (label : String) (count : Int) : ColumnBounds K → Except (Fault K) Unit
  | .shared _ => .ok ()
  | .each xs =>
      if (xs.length : Int) = count then .ok ()
      else .error (.dimension (.columnBounds label xs.length count))

/-- Append the columns from position `i` up to `count`, named with a stem. -/
def addNumbered (lower upper : ColumnBounds K) (stem : String) :
    List Nat → ModelEdit K (List (Variable K))
  | [] => return []
  | i :: rest => do
      let v ← addVariable (.real (lower.at i)) (.real (upper.at i)) (some (stem ++ s!"_{i}"))
      return v :: (← addNumbered lower upper stem rest)

/-- Append `count` columns named with a stem and their number. -/
def addVariables (count : Int) (lower upper : ColumnBounds K) (stem : String) :
    ModelEdit K (List (Variable K)) := do
  lower.check "lb" count
  upper.check "ub" count
  if count < 0 then throw (.misuse .value)
  addNumbered lower upper stem (List.range count.toNat)

/-- Append a placeholder for every first-stage decision. -/
def addDecisions (handle : Decisions) : ModelEdit K (List (Variable K)) := do
  let m ← get
  if m.decisionCount ≠ 0 then throw (.invalid .decisionsTwice)
  let new := handle.names.zipIdx.map fun p =>
    ({ index := m.variableCount + p.2, lower := Scalar.negInfinity, upper := Scalar.infinity
       name := some p.1, decision := some p.2 } : Variable K)
  set { m with columns := m.columns ++ new }
  return new

/-! ## Rows and objective -/

/-- Append a row.  A row that stands in the model already is the same row: it
takes the new position and name there too. -/
def addRow (row : Row K) (name : Option String) : ModelEdit K (Row K) := do
  let m ← get
  let placed : Row K :=
    { row with name := (givenName? name).or row.name, index := m.rowCount }
  let others := m.rows.map fun (r : Row K) => if r.tag = row.tag then placed else r
  set { m with rows := others ++ [placed] }
  return placed

/-- Append several rows. -/
def addRows : List (Row K) → ModelEdit K (List (Row K))
  | [] => return []
  | r :: rs => do
      let placed ← addRow r none
      return placed :: (← addRows rs)

/-- Set the objective and its sense. -/
def setObjective (m : Model K) (e : LinearExpr K) (goal : Goal) : Model K :=
  { m with objective? := some e, goal }

/-- The coefficients of first-stage decisions in the rows: row, decision and
coefficient, zero coefficients left out. -/
def masterTerms (m : Model K) : List (Int × Nat × K) :=
  m.rows.flatMap fun r => r.expr.sortedTerms.filterMap fun t =>
    match m.position? t.1 with
    | some j => if Scalar.isZero t.2 then none else some (r.index, j, t.2)
    | none => none

/-- The coefficients of first-stage decisions in the objective, by position. -/
def decisionObjective (m : Model K) : List K :=
  m.placeholders.map fun p => m.objective.coefficient p.2.index

/-! ## Decisions and results -/

/-- Refuse a decision that does not have one entry per placeholder. -/
def checkDecision (m : Model K) (x : List K) : Except (Fault K) Unit :=
  if x.length = m.decisionCount then .ok ()
  else .error (.dimension (.modelDecision x.length m.decisionCount))

/-- Store the decision that later solves use, or forget it. -/
def fixDecisions (m : Model K) (x : Option (List K)) : Except (Fault K) (Model K) :=
  match x with
  | none => .ok { m with fixed := none }
  | some x => do
      m.checkDecision x
      return { m with fixed := some x }

/-- The value of the objective at a point. -/
def evaluateObjective (m : Model K) (point : List K) : Except (Fault K) K := do
  if point.length ≠ m.variableCount then
    throw (.dimension (.point point.length m.variableCount))
  let terms ← m.objective.terms.mapM fun t => do
    return t.2 * (← SolveResult.entry point t.1)
  return Scalar.sum terms + m.objective.constant

/-- A model with a result loaded. -/
def load (m : Model K) (r : SolveResult K) : Model K := { m with result := some r }

/-- A model without a loaded result. -/
def clear (m : Model K) : Model K := { m with result := none }

/-- How the loaded result ended. -/
def status (m : Model K) : Status :=
  match m.result with
  | some r => r.status
  | none => .unsolved

/-- The loaded result, if it comes with a point. -/
def solution (m : Model K) : Except (Fault K) (SolveResult K) :=
  match m.result with
  | some r => if r.status.hasSolution then .ok r else .error (.invalid (.noSolution m.name))
  | none => .error (.invalid (.noSolution m.name))

end Model

end Recourse
