/-
  Model/Text.lean --- models, rows and expressions written out.
-/
import Recourse.Model.Basic

set_option autoImplicit false

namespace Recourse

open Decimal

/-- A variable by name. -/
def Variable.shown (v : Variable Float) : String := "Variable(" ++ v.label ++ ")"

namespace LinearExpr

/-- The sign in front of a number. -/
def signText (x : Float) : String := if x < 0.0 then "-" else "+"

/-- A term without its sign; a coefficient of size one is left out. -/
def termText (e : LinearExpr Float) (t : Nat × Float) : String :=
  let label := (e.names.find? t.1).getD (columnName t.1)
  let size := Float.abs t.2
  if size == 1.0 then label else general 6 size ++ "*" ++ label

/-- Signs and bodies of the terms, the constant last where it is needed. -/
def parts (e : LinearExpr Float) : List (String × String) :=
  let terms := e.sortedTerms.map fun t => (signText t.2, termText e t)
  if e.constant != 0.0 || terms.isEmpty then
    terms ++ [(signText e.constant, general 6 (Float.abs e.constant))]
  else terms

/-- An expression written out, without a plus in front. -/
def shown (e : LinearExpr Float) : String :=
  match e.parts with
  | [] => ""
  | (sign, body) :: rest =>
      (if sign == "+" then body else "-" ++ body) ++
        String.join (rest.map fun p => " " ++ p.1 ++ " " ++ p.2)

end LinearExpr

/-- A row written out, with its name in front. -/
def Row.shown (r : Row Float) : String :=
  (match givenName? r.name with
    | some s => s ++ ": "
    | none => "") ++
    r.expr.shown ++ " " ++ r.relation.text ++ " " ++ general 6 r.bound

/-- The size of a model and its sense. -/
def Model.shown (m : Model Float) : String :=
  s!"Model(vars={m.variableCount}, constrs={m.rowCount}, decisions={m.decisionCount}, " ++
    "sense=" ++ m.goal.text ++ ")"

end Recourse
