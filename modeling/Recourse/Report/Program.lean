/-
  Report/Program.lean --- programs, their results and runs on them as plain data.
-/
import Recourse.Evaluation.Values
import Recourse.Report.Model
import Recourse.Sampled.Study

set_option autoImplicit false

namespace Recourse.Report

variable {σ : Type}

/-! ## Programs -/

/-- A program at a glance: how far its stages are built, how its scenarios are
spread, what is current, and how often its recipes were called. -/
def glance (p : Program σ Float) (calls : List Nat) : Datum :=
  .list [.text p.firstState.text, .text p.secondState.text, .ofNats p.partitionSizes,
    .ofNat p.subproblemCount, .flag p.solution.isSome, .ofNats calls]

/-- A program in full. -/
def program (p : Program σ Float) : Datum :=
  .entries [("repr", .text p.shown), ("n", .ofNat p.scenarioCount),
    ("len", .ofNat p.scenarioCount), ("workers", .ofNat p.partitions.length),
    ("partitions", .ofTexts (p.partitions.map (·.shown))),
    ("probabilities", numbers p.probabilities), ("total", number p.totalProbability),
    ("names", .ofList (fun s => .ofOption .text s.name) p.scenarios),
    ("type", .ofOption (fun s => .text s.name) p.schema),
    ("deferred", .flag p.isDeferred), ("well_formed", .flag p.isWellFormed)]

/-- A scenario and its subproblem in short. -/
def pairing (index : Int) (s : Scenario Float) (m : Datum) : Datum :=
  .list [.ofInt index, number s.probability, m]

/-- The deterministic equivalent of a program. -/
def extensiveForm (f : ExtensiveForm Float) : Except (Fault Float) Datum := do
  return .entries [("model", model f.model), ("nfirst", .ofNat f.firstColumns),
    ("nrows", .ofNat f.firstRows), ("columns", .ofList .ofNats f.columns),
    ("rows", .ofList .ofNats f.rows), ("p", numbers f.probabilities),
    ("form", form (← f.model.standardForm none))]

/-! ## Solutions and results -/

/-- The parts of a solution that are told when they are asked for. -/
def solutionParts (s : Solution Float) : List (String × Datum) :=
  [("decision", numbers s.decision), ("rc", numbers s.reducedCosts), ("duals", numbers s.duals),
    ("solver", .text s.solver)]

/-- A solution, behind some other entries. -/
def solution (wanted : List String) (before : List (String × Datum)) (s : Solution Float) : Datum :=
  asked wanted (before ++ [("objective", number s.objective)]) (solutionParts s)

/-- A part of the results loaded into models, if it is asked for; every model
must have one then. -/
def loadedPart (wanted : List String) (models : List (Model Float)) (key : String)
    (part : SolveResult Float → Datum) : Except (Fault Float) (List (String × Datum)) := do
  if !wanted.contains key then return []
  let parts ← models.mapM fun m => do return part (← m.solution)
  return [(key, .list parts)]

/-- The results loaded into models. -/
def loaded (wanted : List String) (models : List (Model Float)) : Except (Fault Float) Datum := do
  return .entries ([("status", Datum.ofTexts (models.map (·.status.text)))] ++
    (← loadedPart wanted models "objective" fun r => number r.objective) ++
    (← loadedPart wanted models "x" fun r => numbers r.point) ++
    (← loadedPart wanted models "y" fun r => numbers r.duals) ++
    (← loadedPart wanted models "rc" fun r => .ofOption numbers r.reducedCosts))

/-- What a decision is worth. -/
def evaluation (e : Evaluation Float) : Datum :=
  .entries [("objective", number e.objective), ("first_stage_cost", number e.firstStage),
    ("expected_recourse", number e.expectedRecourse), ("std_recourse", number e.deviation),
    ("worst_case", number e.worst), ("best_case", number e.best),
    ("n_scenarios", number (Float.ofNat e.scenarioCount))]

/-- What a sampled study found. -/
def estimate (wanted : List String) (evaluated : Int) (e : Estimate Float) : Datum :=
  asked wanted
    [("objective", number e.objective), ("lower_bound", number e.lowerBound),
      ("upper_bound", number e.upperBound), ("gap_estimate", number e.gap),
      ("ci_lower", number e.intervalLower), ("ci_upper", number e.intervalUpper),
      ("confidence_level", number e.confidence), ("n_samples", .ofInt e.samples),
      ("n_replications", .ofInt e.replications), ("n_evaluation", .ofInt evaluated)]
    [("x", numbers e.decision)]

/-! ## Runs -/

/-- Every subproblem at one decision. -/
def round (wanted : List String) (r : Round Float) : Datum :=
  asked wanted
    [("ok", .flag r.isComplete),
      ("failures", .ofList (fun f =>
        .list [.ofInt f.index, number f.probability, .text f.status.text]) r.failures),
      ("expected", number r.expectedRecourse),
      ("outcomes", .ofList (fun o =>
        .list [.ofInt o.index, number o.probability, number o.objective]) r.outcomes)]
    [("gradients", .ofList (fun o => numbers o.gradient) r.outcomes),
      ("x", .ofList (fun o => numbers o.result.point) r.outcomes)]

/-- A cut in a master problem. -/
def cut (c : LShaped.AddedCut Float) : Datum :=
  .list [.text c.cut.kind.text, numbers c.cut.gradient, number c.cut.constant,
    .ofInts c.cut.scenarios]

/-- A run that was set up. -/
def setUp (r : SolverRun Float) : Datum :=
  match r with
  | .extensive s =>
      .entries [("sign", number s.sign), ("status", .text s.status.text),
        ("model", .text s.form.model.shown)]
  | .lshaped s =>
      .entries [("phase", .text s.phase.text), ("nfirst", .ofNat s.firstColumns),
        ("ntheta", .ofNat s.active.length), ("sign", number s.sign),
        ("constant", number s.first.constant), ("c", numbers s.masterCost),
        ("lb", numbers (s.first.lower ++ s.recourseLower)),
        ("ub", numbers (s.first.upper ++ s.recourseUpper)),
        ("shape", .ofNats [s.first.rows.length, s.firstColumns + s.active.length]),
        ("status", .text s.status.text)]

/-- The states of a run after its steps, entry by entry. -/
def course (wanted : List String) (states : List (LShaped.State Float)) : Datum :=
  let along := fun (f : LShaped.State Float → Datum) => Datum.ofList f states
  if states.isEmpty then .entries []
  else
    asked wanted
      [("phase", along fun s => .text s.phase.text), ("status", along fun s => .text s.status.text)]
      [("iterations", along fun s => .ofInt s.iterations),
        ("lower", along fun s => number s.lowerBound),
        ("upper", along fun s => number s.upperBound), ("gap", along fun s => number s.gap),
        ("candidate", along fun s => .ofOption numbers s.candidate),
        ("ncuts", along fun s => .ofNat s.cuts.length),
        ("active", along fun s => .ofList .flag s.active),
        ("boxed", along fun s => .flag s.boxed), ("cuts", along fun s => .ofList cut s.cuts),
        ("rows", along fun s => .ofList (fun c =>
          .list [numbers (s.cutRow c), number (LShaped.State.cutBound c)]) s.cuts)]

/-- What a run knows. -/
def runState (wanted : List String) (s : RunState Float) : Datum :=
  asked wanted
    [("status", .text s.status.text), ("done", .flag s.isDone), ("objective", number s.objective)]
    [("decision", .ofOption numbers s.decision), ("duals", .ofOption numbers s.duals),
      ("rc", .ofOption numbers s.reducedCosts),
      ("second", numbers (s.secondStage.map (·.objective))),
      ("iterations", .ofInt s.iterations)]

end Recourse.Report
