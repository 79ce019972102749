/-
  Script/Draft.lean --- a model that is put together step by step.

  A draft remembers the columns and the rows that its steps added, and gives
  names to expressions.  A step that is refused midway keeps what it added to
  the model, but the draft does not remember it.
-/
import Recourse.Script.Blueprint

set_option autoImplicit false

namespace Recourse

/-- A model that is put together. -/
structure Draft (K : Type) where
  /-- The model so far. -/
  model : Model K
  /-- The columns that steps added, in order. -/
  columns : List (Variable K)
  /-- Quantities with names. -/
  bindings : Table String (Quantity K)
  /-- The identities of the rows that steps added, in order. -/
  rows : List Nat
  deriving Inhabited

namespace Draft

variable {K : Type}

/-- A step on a draft. -/
abbrev Step (K α : Type) : Type := Change (Draft K) (Bench K) K α

/-- A draft of a model without columns and rows. -/
def empty (name : String) : Draft K :=
  { model := Model.empty name, columns := [], bindings := [], rows := [] }

/-- Change the model. -/
def edit {α : Type} (e : ModelEdit K α) : Step K α := do
  let (r, m) := e.run (← Change.state).model
  Change.update fun d => { d with model := m }
  Change.ofAct (Act.ofExcept r)

/-- Put another model in the place of the model. -/
def install (m : Model K) : Step K Unit := Change.update fun d => { d with model := m }

/-- Add columns and remember them. -/
def addColumns (e : ModelEdit K (List (Variable K))) : Step K (List (Variable K)) := do
  let vs ← edit e
  Change.update fun d => { d with columns := d.columns ++ vs }
  return vs

/-- What formulas of a draft are evaluated in. -/
def scope (d : Draft K) : Scope K :=
  { (Scope.empty : Scope K) with columns := d.columns, bindings := d.bindings }

variable [Scalar K]

/-- Evaluate a formula. -/
def eval (f : Formula K) : Step K (Quantity K) := do
  let d ← Change.state
  f.eval d.scope

/-- Evaluate formulas in order. -/
def evalAll (fs : List (Formula K)) : Step K (List (Quantity K)) := do
  let d ← Change.state
  Formula.evalAll d.scope fs

/-- Give a name to a quantity. -/
def bind (name : String) (q : Quantity K) : Step K Unit :=
  Change.update fun d => { d with bindings := d.bindings.put name q }

/-- The column at a position; negative ones count from the end. -/
def column (d : Draft K) (i : Int) : Except (Fault K) (Variable K) := Formula.pick d.columns i

/-! ## Rows -/

/-- What a row became, wherever a name stands for it. -/
def rebind (placed : Row K) : Quantity K → Quantity K
  | .row r => if r.tag = placed.tag then .row placed else .row r
  | q => q

/-- Add what has to be a row to the model. -/
def placeRow (q : Quantity K) (name : Option String) : Step K (Row K) := do
  let r ← Blueprint.rowOf q
  let placed ← edit (Model.addRow r name)
  Change.update fun d => { d with bindings := d.bindings.map fun b => (b.1, rebind placed b.2) }
  return placed

/-- Remember rows. -/
def remember (rows : List (Row K)) : Step K Unit :=
  Change.update fun d => { d with rows := d.rows ++ rows.map (·.tag) }

/-- Add a row and remember it. -/
def addRow (q : Quantity K) (name : Option String) : Step K (Row K) := do
  let placed ← placeRow q name
  remember [placed]
  return placed

/-- Add rows to the model, up to the first quantity that is none. -/
def placeRows : List (Quantity K) → Step K (List (Row K))
  | [] => return []
  | q :: rest => do
      let placed ← placeRow q none
      return placed :: (← placeRows rest)

/-- Add rows and remember them, if all of them are rows. -/
def addRows (qs : List (Quantity K)) : Step K (List (Row K)) := do
  let placed ← placeRows qs
  remember placed
  return placed

/-- A row with a relation that was written in words. -/
def writtenRow (left : Quantity K) (relation : String) (bound : K) (name : Option String) :
    Act (Bench K) K (Row K) := do
  let expr ← left.toLinear
  let tag ← Act.freshIdentity
  return { expr, relation := .ofText relation, bound, name, index := -1, tag }

/-- The row at a position among those remembered; negative ones count from the
end. -/
def row (d : Draft K) (i : Int) : Except (Fault K) (Row K) :=
  match ((Value.offset? d.rows.length i).bind (d.rows[·]?)).bind fun tag =>
      d.model.rows.find? (·.tag = tag) with
  | some r => .ok r
  | none => .error (.misuse .position)

/-! ## Objective and results -/

/-- Set the objective, and return it. -/
def setObjective (goal : Goal) (f : Formula K) : Step K (LinearExpr K) := do
  let e ← (← eval f).toLinear
  Change.update fun d => { d with model := d.model.setObjective e goal }
  return e

/-- Store a decision for later solves, or forget it. -/
def fixDecisions (x : Option (List K)) : Step K (Option (List K)) := do
  let m ← (← Change.state).model.fixDecisions x
  install m
  return m.fixed

/-- Solve the model and load the result. -/
def solve (decision : Option (List K)) (params : Setting K) : Step K (SolveResult K) := do
  let (r, m) ← (← Change.state).model.solve (σ := Bench K) decision params
  install m
  return r

/-- Solve the model and leave it alone. -/
def optimize (decision : Option (List K)) (params : Setting K) : Step K (SolveResult K) := do
  let b : Backend (Bench K) K ← Backend.ofParams params
  b.optimize (← Change.state).model decision

/-- The dual of a row in the loaded result. -/
def dual (d : Draft K) (i : Int) : Except (Fault K) K := do
  let r ← d.row i
  let result ← d.model.solution
  if r.index < 0 then throw (.misuse .position)
  result.dual r.index.toNat

/-- The value of a column in the loaded result. -/
def value (d : Draft K) (i : Int) : Except (Fault K) K := do
  let v ← d.column i
  (← d.model.solution).value v.index

/-- The reduced cost of a column in the loaded result. -/
def reducedCost (d : Draft K) (i : Int) : Except (Fault K) K := do
  let v ← d.column i
  (← d.model.solution).reducedCost v.index

/-- The values of some columns in the loaded result. -/
def values (d : Draft K) (positions : List Int) : Except (Fault K) (List K) := do
  let vs ← positions.mapM d.column
  let result ← d.model.solution
  vs.mapM fun v => result.value v.index

end Draft

end Recourse
