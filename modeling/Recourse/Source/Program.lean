/-
  Source/Program.lean --- setups, templates and results from plain data.
-/
import Recourse.Evaluation.Basic
import Recourse.Source.Solver

set_option autoImplicit false

namespace Recourse.Source

variable {K : Type} [Scalar K]

/-! ## Results made by hand -/

/-- The status with a word, optimal where nothing is written. -/
def status (d : Datum) : Except (Fault K) Status :=
  match d with
  | .null => .ok .optimal
  | d => match Status.ofText? d.toText with
      | some s => .ok s
      | none => .error (.misuse .value)

/-- A result. -/
def result (d : Datum) : Except (Fault K) (SolveResult K) := do
  return { status := ← status (d.field "status")
           objective := ← numberOr d "objective" 0
           point := (← numbers? d "x").getD []
           duals := (← numbers? d "y").getD []
           reducedCosts := ← numbers? d "rc"
           iterations := (d.field "iterations").toInt
           seconds := ← numberOr d "solve_time" 0
           gap := ← numberOr d "gap" 0 }

/-- A solution. -/
def solution (d : Datum) : Except (Fault K) (Solution K) := do
  return { decision := ← numberList (d.field "decision")
           objective := ← numberOr d "objective" 0
           reducedCosts := ← numberList (d.field "rc")
           duals := ← numberList (d.field "duals")
           status := ← status (d.field "status")
           solver := textOr d "solver" ""
           iterations := (d.field "iterations").toInt }

/-! ## Setups -/

/-- What payloads have to be, by a word. -/
def schema? : String → Option Schema
  | "int" => some (.kind .whole)
  | "float" => some (.kind .real)
  | "real" => some .number
  | "array" => some (.kind .array)
  | "list" => some (.kind .list)
  | "tuple" => some (.kind .tuple)
  | "dict" => some (.kind .mapping)
  | "str" => some (.kind .text)
  | "bool" => some (.kind .flag)
  | "object" => some .anything
  | _ => none

/-- A transport, sequential unless threads are named. -/
def transport (d : Datum) (key : String) : Except (Fault K) Transport :=
  match (d.field key).toText with
  | "thread" => Transport.ofThreads (d.field "max_workers").int?
  | _ => .ok .sequential

/-- How a program is set up, its data apart. -/
def setup (d : Datum) : Act (Bench K) K (Program.Setup (Bench K) K) := do
  let transport ← transport (K := K) d "transport"
  return { (Program.Setup.standard : Program.Setup (Bench K) K) with
           schema := schema? (d.field "scenario_type").toText
           workers := (setting? d "workers").getD (.ofInt 1)
           transport
           solver := ← solver? (d.field "solver")
           normalize := (d.field "normalize").isTrue }

/-- How a program is set up: its data under two keys, and its options. -/
def setupWith (d options : Datum) (first second : String) :
    Act (Bench K) K (Program.Setup (Bench K) K) := do
  let firstData ← payload (K := K) (d.field first)
  let secondData ← payload (K := K) (d.field second)
  return { ← setup options with firstData, secondData }

/-! ## Recipes -/

/-- A blueprint with an identity. -/
def identified (raise : String → String → Fault K) (d : Datum) :
    Act (Bench K) K (Blueprint K × Nat) := do
  let b ← blueprint raise d
  return (b, ← Act.freshIdentity)

/-- A blueprint with an identity, if one is written. -/
def identified? (raise : String → String → Fault K) (d : Datum) (key : String) :
    Act (Bench K) K (Option (Blueprint K × Nat)) := do
  match d.given? key with
  | some spec => return some (← identified raise spec)
  | none => return none

/-- The recipes of both stages, with their identities in order. -/
def template (raise : String → String → Fault K) (d : Datum) :
    Act (Bench K) K (Template (Bench K) K × List Nat) := do
  let first ← identified? raise d "first"
  let second ← identified? raise d "second"
  return ({ first := first.map fun b => b.1.first b.2 b.1.title
            second := second.map fun b => b.1.second b.2 b.1.title },
    (first.toList ++ second.toList).map (·.2))

/-- A model that a blueprint of the second stage describes, called once. -/
def model (raise : String → String → Fault K) (d : Datum) : Act (Bench K) K (Model K) := do
  let (b, id) ← identified raise d
  let data ← payload (K := K) (d.field "data")
  let s ← payload (K := K) (d.field "payload")
  match ← b.call id .second data (some ⟨(d.field "decisions").texts⟩) s with
  | .model m => return m
  | .value _ => Act.fail (.misuse .attribute)

/-! ## References -/

/-- A scenario on offer. -/
def offered (d : Datum) : Except (Fault K) (Offered K) := do return .scenario (← scenario d)

/-- The scenario that is referred to, by index or itself. -/
def scenarioRef (d : Datum) : Except (Fault K) (ScenarioRef K) :=
  match d.find? "i" with
  | some i => .ok (.index (setting i))
  | none => do return .scenario (← scenario (d.field "scenario"))

/-- A scenario with room for its subproblem, which may be there already. -/
def slot (d : Datum) : Except (Fault K) (Slot K) := do
  match d with
  | .list [s, built, epoch] =>
      return { scenario := ← scenario s
               built := if built.isTrue then some (Model.empty "given", epoch.toInt) else none }
  | _ => malformed

/-- A linear program with dense rows. -/
def linearProgram (d : Datum) : Except (Fault K) (LinearProgram K) := do
  let cost ← numbers (d.field "c")
  let dense ← (d.field "A").items.mapM (numbers (K := K))
  let lower ← numbers? d "cl"
  let upper ← numbers? d "cu"
  return { cost
           columns := (dense.head?.map List.length).getD cost.length
           rows := dense.map SparseRow.ofDense
           rightHandSide := ← numbers? d "b"
           lower := (← numbers? d "lb").getD (cost.map fun _ => 0)
           upper := (← numbers? d "ub").getD (cost.map fun _ => Scalar.infinity)
           limits := match d.given? "senses" with
             | some s => .senses (s.texts.map Relation.ofText)
             | none => .between lower upper }

end Recourse.Source
