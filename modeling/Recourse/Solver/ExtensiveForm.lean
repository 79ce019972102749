/-
  Solver/ExtensiveForm.lean --- the deterministic equivalent of a program.

  The first stage and the second stages of all scenarios form one model: the
  first-stage columns and rows come first, then those of each scenario in turn,
  and the placeholders of every scenario become the first-stage columns.  The
  objective of a scenario counts with its probability.
-/
import Recourse.Solver.RunState

set_option autoImplicit false

namespace Recourse

/-- The deterministic equivalent with its index maps. -/
structure ExtensiveForm (K : Type) where
  /-- The model. -/
  model : Model K
  /-- Number of first-stage columns, which come first. -/
  firstColumns : Nat
  /-- Number of first-stage rows, which come first. -/
  firstRows : Nat
  /-- For each scenario the column of each of its variables. -/
  columns : List (List Nat)
  /-- For each scenario the row of each of its rows. -/
  rows : List (List Nat)
  /-- The probabilities. -/
  probabilities : List K
  deriving Inhabited

namespace ExtensiveForm

variable {K : Type} [Scalar K]

/-- An expression with its columns renumbered, without their names. -/
def renumber (columns : Nat → Nat) (e : LinearExpr K) : LinearExpr K :=
  { terms := e.terms.map fun t => (columns t.1, t.2), constant := e.constant, names := [] }

/-- A row with its columns renumbered and a mark behind its name. -/
def copyRow (columns : Nat → Nat) (mark : String) (index : Nat) (r : Row K) : Row K :=
  { expr := renumber columns r.expr
    relation := r.relation
    bound := r.bound
    name := (givenName? r.name).map (· ++ mark)
    index
    tag := index }

/-- Rows copied to the positions from `start` on. -/
def copyRows (columns : Nat → Nat) (mark : String) (start : Nat) (rows : List (Row K)) :
    List (Row K) :=
  rows.zipIdx.map fun r => copyRow columns mark (start + r.2) r.1

/-- The columns of the variables of a scenario: a placeholder has that of its
decision, and the others are numbered from `next` on. -/
def columnsOf : Nat → List (Variable K) → List Nat
  | _, [] => []
  | next, v :: rest =>
      match v.decision with
      | some j => j :: columnsOf next rest
      | none => next :: columnsOf (next + 1) rest

/-- The variables of a scenario that are no placeholders, from column `next`
on. -/
def ownVariables (mark : String) : Nat → List (Variable K) → List (Variable K)
  | _, [] => []
  | next, v :: rest =>
      match v.decision with
      | some _ => ownVariables mark next rest
      | none =>
          { index := next
            lower := v.lower
            upper := v.upper
            name := some ((givenName? v.name).getD s!"y_{v.index}" ++ mark)
            decision := none } :: ownVariables mark (next + 1) rest

/-- The first stage alone. -/
def ofMaster (m : Model K) : ExtensiveForm K :=
  { model :=
      { (Model.empty "DEP" : Model K) with
        columns := m.columns.map fun v => { v with decision := none }
        rows := copyRows id "" 0 m.rows
        objective? := some { terms := m.objective.terms, constant := m.objective.constant
                             names := [] }
        goal := m.goal }
    firstColumns := m.variableCount
    firstRows := m.rowCount
    columns := []
    rows := []
    probabilities := [] }

/-- The objective with that of a scenario added, weighed by its probability. -/
def addObjective (e : LinearExpr K) (columns : Nat → Nat) (p : K) (own : LinearExpr K) :
    LinearExpr K :=
  { terms := own.terms.foldl (fun acc t => LinearExpr.addTerm p acc (columns t.1, t.2)) e.terms
    constant := e.constant + p * own.constant
    names := e.names }

/-- Add the second stage of a scenario. -/
def addScenario (f : ExtensiveForm K) (p : K) (sub : Model K) : ExtensiveForm K :=
  let mark := s!"[{f.columns.length}]"
  let columns := columnsOf f.model.variableCount sub.columns
  let column := fun (i : Nat) => columns.getD i 0
  { f with
    model :=
      { f.model with
        columns := f.model.columns ++
          ownVariables mark f.model.variableCount sub.columns
        rows := f.model.rows ++ copyRows column mark f.model.rowCount sub.rows
        objective? := some (addObjective f.model.objective column p sub.objective) }
    columns := f.columns ++ [columns]
    rows := f.rows ++ [(List.range sub.rowCount).map (f.model.rowCount + ·)]
    probabilities := f.probabilities ++ [p] }

/-- The deterministic equivalent of a first stage and weighed second stages. -/
def build (master : Model K) (scenarios : List (K × Model K)) : ExtensiveForm K :=
  scenarios.foldl (fun f s => f.addScenario s.1 s.2) (ofMaster master)

end ExtensiveForm

/-- The deterministic equivalent of a program, which is built first. -/
def Program.extensiveForm {σ K : Type} [Scalar K] : Edit σ K (ExtensiveForm K) := do
  generate
  let p ← Change.state
  let master ← p.stageOneModel
  let subs ← p.subproblems
  return ExtensiveForm.build master (p.probabilities.zip subs)

end Recourse
