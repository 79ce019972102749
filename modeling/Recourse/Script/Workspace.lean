/-
  Script/Workspace.lean --- several programs side by side.

  A workspace keeps programs under names, counts for each of them which recipes
  were registered with it, and keeps runs of solvers under names of their own.
  A run belongs to the program it was built from, also when another program has
  taken over the name.
-/
import Recourse.Evaluation.Values
import Recourse.Script.Blueprint

set_option autoImplicit false

namespace Recourse

/-- A run that is kept, with what it belongs to. -/
structure KeptRun (K : Type) where
  /-- The solver. -/
  solver : StructuredSolver (Bench K) K
  /-- The identity of the program. -/
  program : Nat
  /-- The run. -/
  run : SolverRun K

/-- Programs and runs under names. -/
structure Workspace (K : Type) where
  /-- The programs by identity. -/
  programs : Table Nat (Program (Bench K) K)
  /-- The program each name stands for. -/
  names : Table String Nat
  /-- The recipes registered with each program, in order. -/
  recipes : Table Nat (List Nat)
  /-- The runs by name. -/
  runs : Table String (KeptRun K)

namespace Workspace

variable {K : Type}

/-- A task in a workspace. -/
abbrev Task (K α : Type) : Type := Change (Workspace K) (Bench K) K α

/-- A workspace without programs. -/
def empty : Workspace K := { programs := [], names := [], recipes := [], runs := [] }

/-! ## Programs -/

/-- The program with a name. -/
def named? (w : Workspace K) (name : String) : Option (Program (Bench K) K) :=
  (w.names.find? name).bind w.programs.find?

/-- Give a name to a program, together with the recipes registered with it. -/
def keep (name : String) (p : Program (Bench K) K) (recipes : List Nat) : Task K Unit :=
  Change.update fun w =>
    { w with
      programs := w.programs.put p.id p
      names := w.names.put name p.id
      recipes := w.recipes.put p.id recipes }

/-- Change the program with an identity.  What was changed before a refusal stays
changed. -/
def onProgram {α : Type} (id : Nat) (edit : Edit (Bench K) K α) : Task K α := do
  match (← Change.state).programs.find? id with
  | none => Change.fail (.misuse .lookup)
  | some p =>
      let (r, p) ← Change.ofAct (monadLift (edit.runOn p))
      Change.update fun w => { w with programs := w.programs.put id p }
      Change.ofAct (Act.ofExcept r)

/-- Count a recipe among those registered with a program. -/
def list (id recipe : Nat) : Task K Unit :=
  Change.update fun w =>
    { w with recipes := w.recipes.alter id fun rs => rs.getD [] ++ [recipe] }

/-- How often each recipe registered with a program was called. -/
def callCounts (w : Workspace K) (b : Bench K) (id : Nat) : List Nat :=
  ((w.recipes.find? id).getD []).map (Bench.tally b.calls)

variable [Scalar K]

/-- A new program with a name. -/
def create (name : String) (s : Program.Setup (Bench K) K) (scenarios : List (Scenario K)) :
    Task K (Program (Bench K) K) := do
  let p ← Program.createWith s scenarios
  keep name p []
  return p

/-- A program from a template, with a name. -/
def instantiate (name : String) (t : Template (Bench K) K) (recipes : List Nat)
    (s : Program.Setup (Bench K) K) (scenarios : List (Scenario K)) (defer : Bool) :
    Task K (Program (Bench K) K) := do
  let p ← t.instantiate s scenarios defer
  keep name p recipes
  return p

/-- The program of the expected scenario, with a name. -/
def keepExpected (id : Nat) (name : String) : Task K (Program (Bench K) K) := do
  match (← Change.state).programs.find? id with
  | none => Change.fail (.misuse .lookup)
  | some p =>
      let e ← p.expectedProgram
      keep name e []
      return e

/-! ## Runs -/

/-- The run with a name. -/
def run (name : String) : Task K (KeptRun K) := do
  match (← Change.state).runs.find? name with
  | some r => return r
  | none => Change.fail (.misuse .lookup)

/-- Keep what became of a run. -/
def keepRun (name : String) (r : KeptRun K) : Task K Unit :=
  Change.update fun w => { w with runs := w.runs.put name r }

/-- Set up a run on a program. -/
def build (id : Nat) (name : String) (solver : Option (Solver (Bench K) K)) :
    Task K (SolverRun K) := do
  match solver with
  | some (.structured s) =>
      let r ← onProgram id s.build
      keepRun name { solver := s, program := id, run := r }
      return r
  | _ => Change.fail (.misuse .attribute)

/-- Change a run with a name.  What was changed before a refusal stays changed. -/
def onRun {α : Type} (name : String)
    (change : KeptRun K → Program (Bench K) K → Change (SolverRun K) (Bench K) K α) :
    Task K α := do
  let kept ← run name
  match (← Change.state).programs.find? kept.program with
  | none => Change.fail (.misuse .lookup)
  | some p =>
      let (r, after) ← Change.ofAct (monadLift ((change kept p).runOn kept.run))
      keepRun name { kept with run := after }
      Change.ofAct (Act.ofExcept r)

/-- Take a run to its end. -/
def runToEnd (name : String) : Task K Status := onRun name fun kept p => kept.solver.run p

/-- Ask a run to stop. -/
def cancel (name : String) : Task K Unit := onRun name fun _ _ => Change.update (·.cancel)

/-- Install on a program what a run found. -/
def commit (id : Nat) (name : String) : Task K Unit := do
  let kept ← run name
  onProgram id (kept.solver.commit kept.run)

/-- A step of a run of the L-shaped method; other methods have none. -/
def stepRun (kept : KeptRun K) (p : Program (Bench K) K) :
    Change (SolverRun K) (Bench K) K (LShaped.State K) := do
  match ← Change.state with
  | .extensive _ => Change.fail (.misuse .attribute)
  | .lshaped s =>
      let m ← kept.solver.lshaped
      let (r, s) ← Change.ofAct (monadLift ((m.step p).runOn s))
      Change.update fun _ => .lshaped s
      let _ ← Change.ofAct (Act.ofExcept r)
      return s

/-- The states after each of several steps. -/
def steps (kept : KeptRun K) (p : Program (Bench K) K) :
    Nat → Change (SolverRun K) (Bench K) K (List (LShaped.State K))
  | 0 => return []
  | n + 1 => do
      let s ← stepRun kept p
      return s :: (← steps kept p n)

/-- The states after each step up to the end.  The run is asked to stop where it
enters a phase that was named. -/
def stepsToEnd (kept : KeptRun K) (p : Program (Bench K) K) (stopAt : Option LShaped.Phase) :
    Nat → Change (SolverRun K) (Bench K) K (List (LShaped.State K))
  | 0 => return []
  | n + 1 => do
      if (← Change.state).common.isDone then return []
      let s ← stepRun kept p
      if stopAt = some s.phase then Change.update (·.cancel)
      return s :: (← stepsToEnd kept p stopAt n)

/-- Run several steps, with the state after each. -/
def advance (name : String) (n : Nat) : Task K (List (LShaped.State K)) :=
  onRun name fun kept p => steps kept p n

/-- Run to the end, with the state after each step. -/
def iterate (name : String) (stopAt : Option LShaped.Phase) : Task K (List (LShaped.State K)) :=
  onRun name fun kept p => do
    let m ← kept.solver.lshaped
    match ← Change.state with
    | .extensive _ => Change.fail (.misuse .attribute)
    | .lshaped _ => stepsToEnd kept p stopAt (LShaped.stepLimit m.rules)

end Workspace

end Recourse
