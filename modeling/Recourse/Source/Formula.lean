/-
  Source/Formula.lean --- formulas and blueprints from plain data.

  A formula is a number, a reference under a tag, or a list that begins with an
  operator.  A blueprint is a list of named entries; what is not written has its
  usual value.
-/
import Recourse.Script.Blueprint
import Recourse.Source.Payload

set_option autoImplicit false

namespace Recourse.Source

variable {K : Type} [Scalar K]

/-! ## Formulas -/

/-- A step of a path. -/
def pathStep : Datum → Value.PathStep
  | .text key => .name key
  | d => .position d.toInt

/-- A path into a payload. -/
def path (d : Datum) : List Value.PathStep := d.items.map pathStep

/-- The operator with a sign. -/
def operator? : String → Option Operator
  | "+" => some .add
  | "-" => some .subtract
  | "*" => some .multiply
  | "/" => some .divide
  | "<=" => some .atMost
  | ">=" => some .atLeast
  | "==" => some .equal
  | "<" => some .less
  | _ => none

/-- A reference under a tag. -/
def reference (tag : String) (d : Datum) : Except (Fault K) (Formula K) :=
  match tag with
  | "int" => .ok (.number (.whole d.toInt))
  | "v" => .ok (.column d.toInt)
  | "x" => .ok (.placeholder d.toInt)
  | "d" => .ok (.data (path d))
  | "s" => .ok (.payload (path d))
  | "e" => .ok (.binding d.toText)
  | "u" => .ok .draw
  | _ => malformed

/-- An operation on operands. -/
def operation (sign : String) (operands : List (Formula K)) : Except (Fault K) (Formula K) :=
  match sign, operands with
  | "neg", [a] => .ok (.negate a)
  | "abs", [a] => .ok (.absolute a)
  | "if", [c, a, b] => .ok (.choose c a b)
  | sign, operands =>
      match operator? sign with
      | some op => .ok (.apply op operands)
      | none => malformed

mutual
/-- A formula. -/
def formula : Datum → Except (Fault K) (Formula K)
  | .number t => .ok (.number (.real (writtenNumber t)))
  | .text s => .ok (.numeral s)
  | .list (.text sign :: operands) => do operation sign (← formulas operands)
  | .entries [(tag, d)] => reference tag d
  | _ => malformed

/-- Formulas in order. -/
def formulas : List Datum → Except (Fault K) (List (Formula K))
  | [] => .ok []
  | d :: rest => do
      let f ← formula d
      return f :: (← formulas rest)
end

/-- The formula under a key, or another one where there is none. -/
def formulaOr (d : Datum) (key : String) (other : Formula K) : Except (Fault K) (Formula K) :=
  match d.given? key with
  | some f => formula f
  | none => .ok other

/-- The number zero as a formula. -/
def zero : Formula K := .number (.real 0)

/-- Infinity as a formula. -/
def infinity : Formula K := .number (.real Scalar.infinity)

/-! ## Blueprints -/

/-- A part of something that may be missing. -/
def optional {α : Type} (f : Datum → Except (Fault K) α) :
    Option Datum → Except (Fault K) (Option α)
  | some d => some <$> f d
  | none => .ok none

/-- When a blueprint fails; `raise` gives the fault for a kind and a message. -/
def failure (raise : String → String → Fault K) (d : Datum) : Except (Fault K) (Failure K) := do
  return { condition := ← formula (d.field "if")
           fault := raise (textOr d "kind" "") (textOr d "message" "failed")
           times := (d.field "times").int? }

/-- A column of a blueprint. -/
def columnPlan (d : Datum) : Except (Fault K) (ColumnPlan K) := do
  return { lower := ← formulaOr d "lb" zero
           upper := ← formulaOr d "ub" infinity
           name := name? d
           each := ← optional formula (d.given? "each") }

/-- A row of a blueprint. -/
def rowPlan (d : Datum) : Except (Fault K) (Formula K × Option String) := do
  return (← formula (d.field "e"), name? d)

/-- When placeholders are added, if that is said. -/
def placing? : Datum → Option Placing
  | .text "first" => some .first
  | .text "last" => some .last
  | .text "none" => some .never
  | .number t => (Datum.number t).int?.map .count
  | _ => none

/-- A goal by its short name. -/
def goal (s : String) : Goal := if s == "max" then .maximize else .minimize

/-- A blueprint; `raise` gives the faults it fails with. -/
def blueprint (raise : String → String → Fault K) (d : Datum) :
    Except (Fault K) (Blueprint K) := do
  let objective ← formulaOr d "obj" zero
  return { title := textOr d "fname" "recipe"
           name := textOr d "name" ""
           failure := ← optional (failure raise) (d.given? "fail")
           instead := ← optional payload (d.find? "returns")
           placing := placing? (d.field "dec")
           columns := ← (d.field "vars").items.mapM columnPlan
           rows := ← (d.field "rows").items.mapM rowPlan
           objective := (d.given? "sense").map fun s => (goal s.toText, objective) }

end Recourse.Source
