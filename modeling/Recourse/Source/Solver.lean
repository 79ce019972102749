/-
  Source/Solver.lean --- configurations, solvers and samplers from plain data.
-/
import Recourse.Solver.Basic
import Recourse.Source.Formula

set_option autoImplicit false

namespace Recourse.Source

variable {K : Type} [Scalar K]

/-! ## Solvers -/

/-- The kind of configuration with a name. -/
def configKind (name : String) : ConfigKind :=
  if name == ConfigKind.lshaped.name then .lshaped else .shared

/-- What a structured solver is configured with: a configuration where its kind
is named, named options otherwise. -/
def givenConfig (d : Datum) : Except (Fault K) (GivenConfig K) :=
  match d.given? "config_obj" with
  | some kind => do
      let base : Config K := Config.default (configKind kind.toText)
      return .config (← base.withOptions (settings (d.field "config")))
  | none => .ok (.options (setting (d.field "config")))

/-- The statuses that a backend is told to report, by the number of the call. -/
def reports (d : Datum) : List (Nat × Status) :=
  d.items.filterMap fun e =>
    match e with
    | .list [k, s] => (Status.ofText? s.toText).map (k.toInt.toNat, ·)
    | _ => none

/-- A backend with the statuses it is told to report, if there are any. -/
def withReports (d : Datum) (b : Backend (Bench K) K) :
    Act (Bench K) K (Backend (Bench K) K) := do
  match d.given? "fake" with
  | some script => return Bench.scripted (← Act.freshIdentity) (reports script) b
  | none => return b

/-- A structured solver with a method. -/
def structured (method : Method) (d : Datum) :
    Act (Bench K) K (StructuredSolver (Bench K) K) := do
  let given : GivenConfig K ← Act.ofExcept (givenConfig d)
  let s : StructuredSolver (Bench K) K ←
    Act.ofExcept (StructuredSolver.make method given (settings (d.field "options")))
  return { s with backend := ← withReports d s.backend }

/-- A solver, if one is written. -/
def solver? (d : Datum) : Act (Bench K) K (Option (Solver (Bench K) K)) := do
  match (d.field "kind").toText with
  | "lp" => do
      let b : Backend (Bench K) K ← Act.ofExcept (Backend.ofParams (setting (d.field "params")))
      return some (.linear (← withReports d b))
  | "extensive" => return some (.structured (← structured .extensive d))
  | "lshaped" => return some (.structured (← structured .lshaped d))
  | _ => return none

/-! ## Samplers -/

/-- A distribution. -/
def distribution (d : Datum) : Except (Fault K) (Distribution K) := do
  match (d.field "kind").toText with
  | "discrete" => do
      let values ← payloads (d.field "values").items
      Distribution.ofValues values (← grid? d "p")
  | "uniform" => do Distribution.ofEnds (← grid (d.field "low")) (← grid (d.field "high"))
  | "lognormal" => do return .logNormal (← grid (d.field "mu")) (← grid (d.field "sigma"))
  | _ => do
      Distribution.ofMoments (← grid (d.field "mean")) (← grid? d "std") (← grid? d "cov")
        (← grid? d "lower")

/-- A sampler on a fresh stream, with its distribution if it has one. -/
def sampler {K : Type} [Analytic K] (d : Datum) :
    Act (Bench K) K (Sampler (Bench K) K × Option (Distribution K)) := do
  let stream ← numbers? (K := K) d "stream"
  Bench.startStream (stream.getD [Scalar.decimal 5 1])
  match (d.field "kind").toText with
  | "list" => return (Bench.listSampler (← payloads (K := K) (d.field "values").items), none)
  | "func" => return (Bench.formulaSampler (← formula (K := K) (d.field "expr")), none)
  | _ =>
      let known : Distribution K ← Act.ofExcept (distribution d)
      return (Bench.sampler known, some known)

end Recourse.Source
