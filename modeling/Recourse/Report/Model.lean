/-
  Report/Model.lean --- models, rows, matrix forms and results as plain data.
-/
import Recourse.Model.Form
import Recourse.Model.Text
import Recourse.Report.Basic
import Recourse.Sampled.Interval
import Recourse.Script.Formula

set_option autoImplicit false

namespace Recourse.Report

/-- The terms of an expression by column. -/
def terms (e : LinearExpr Float) : Datum :=
  .ofList (fun t => .list [.ofNat t.1, number t.2]) e.sortedTerms

/-- An expression. -/
def expr (e : LinearExpr Float) : Datum :=
  .entries [("terms", terms e), ("constant", number e.constant), ("repr", .text e.shown)]

/-- A column. -/
def column (v : Variable Float) : Datum :=
  .entries [("index", .ofNat v.index), ("lb", number v.lower), ("ub", number v.upper),
    ("name", .ofOption .text v.name), ("decision", .ofOption .ofNat v.decision),
    ("repr", .text v.shown)]

/-- A row. -/
def row (r : Row Float) : Datum :=
  .entries [("index", .ofInt r.index), ("name", .ofOption .text r.name),
    ("sense", .text r.relation.text), ("rhs", number r.bound), ("terms", terms r.expr),
    ("constant", number r.expr.constant), ("repr", .text r.shown)]

/-- Rows in short. -/
def rowTexts (rows : List (Row Float)) : Datum := .ofTexts (rows.map (·.shown))

/-- What a formula gave. -/
def quantity (q : Quantity Float) : Except (Fault Float) Datum := do
  match q with
  | .row r => return row r
  | .value (.flag b) => return .entries [("bool", .flag b)]
  | .value v => return .entries [("number", number (← v.toNumber))]
  | q => return expr (← q.toLinear)

/-- The coefficients of first-stage decisions in rows. -/
def masterTerms (ts : List (Int × Nat × Float)) : Datum :=
  .ofList (fun t => .list [.ofInt t.1, .ofNat t.2.1, number t.2.2]) ts

/-- A column in short. -/
def columnInShort (v : Variable Float) : Datum :=
  .list [.ofOption .text v.name, number v.lower, number v.upper, .ofOption .ofNat v.decision]

/-- A model. -/
def model (m : Model Float) : Datum :=
  .entries [("name", .text m.name), ("sense", .text m.goal.text), ("repr", .text m.shown),
    ("vars", .ofList columnInShort m.columns), ("rows", rowTexts m.rows),
    ("objective", .text m.objective.shown), ("masterterms", masterTerms m.masterTerms)]

/-- The size of a model. -/
def modelInShort (m : Model Float) : Datum :=
  .entries [("repr", .text m.shown), ("vars", .ofNat m.variableCount),
    ("constrs", .ofNat m.rowCount), ("decisions", .ofNat m.decisionCount),
    ("sense", .text m.goal.text), ("rows", rowTexts m.rows)]

/-- A model in matrix form. -/
def form (f : StandardForm Float) : Datum :=
  .entries [("c", numbers f.cost),
    ("A", .ofList (fun r => numbers (SparseRow.toDense r f.columns)) f.rows),
    ("b", numbers f.rightHandSide), ("senses", .ofTexts (f.relations.map (·.text))),
    ("lb", numbers f.lower), ("ub", numbers f.upper), ("constant", number f.constant),
    ("maximize", .flag (f.goal == .maximize)), ("sign", number f.sign),
    ("shape", .ofNats [f.rows.length, f.columns])]

/-- The result of a linear program. -/
def result (wanted : List String) (r : SolveResult Float) : Datum :=
  asked wanted [("status", .text r.status.text), ("objective", number r.objective)]
    [("x", numbers r.point), ("y", numbers r.duals), ("rc", .ofOption numbers r.reducedCosts)]

/-- An interval, and which of some numbers lie in it. -/
def interval (wanted : List String) (inside : List Float) (i : Interval Float) : Datum :=
  asked wanted
    [("lower", number i.lower), ("upper", number i.upper), ("confidence", number i.confidence),
      ("length", number i.length), ("midpoint", number i.midpoint)]
    [("repr", .text i.shown), ("contains", .ofList (fun x => .flag (i.contains x)) inside)]

end Recourse.Report
