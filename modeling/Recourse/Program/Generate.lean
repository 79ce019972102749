/-
  Program/Generate.lean --- building the models of a program.

  `Program.generate` builds the first-stage model where it is missing or stale,
  and after that every subproblem that is.  What is current is left alone, so a
  second call builds only what failed in the first.
-/
import Recourse.Program.Basic

set_option autoImplicit false

namespace Recourse.Program

variable {σ K : Type}

/-! ## Data and recipes -/

/-- Replace the data of a stage; what was built from it becomes stale. -/
def setData (stage : Stage) (value : Value K) : Edit σ K Unit :=
  Change.update fun p =>
    match stage with
    | .first => { p with firstData := value, firstEpoch := p.firstEpoch + 1, solution := none }
    | .second => { p with secondData := value, secondEpoch := p.secondEpoch + 1, solution := none }

/-- Replace the recipe of the stage it belongs to; what was built with the one
before becomes stale. -/
def setRecipe (r : Recipe σ K) : Edit σ K Unit :=
  Change.update fun p =>
    match r with
    | .first r =>
        { p with firstRecipe := some r, firstEpoch := p.firstEpoch + 1, solution := none }
    | .second r =>
        { p with secondRecipe := some r, secondEpoch := p.secondEpoch + 1, solution := none }

/-! ## Generation -/

/-- A program with a new first-stage model.  Subproblems refer to the decisions
by name, so they are stale when the names changed. -/
def installMaster (m : Model K) (p : Program σ K) : Program σ K :=
  let renamed := p.decisions.isSome && p.decisions ≠ some m.decisions
  { p with
    secondEpoch := if renamed then p.secondEpoch + 1 else p.secondEpoch
    master := some (m, p.firstEpoch)
    decisions := some m.decisions }

/-- Build the first-stage model, unless it is current. -/
def generateMaster (r : FirstRecipe σ K) : Edit σ K Unit := do
  let p ← Change.state
  if p.currentMaster?.isSome then return
  let m ← r.generate p.firstData
  if m.variableCount = 0 then throw (.invalid .noDecisions)
  Change.update (installMaster m)

/-- Build every subproblem that is not current, and report all failures. -/
def generateSubproblems (r : SecondRecipe σ K) : Edit σ K Unit := do
  let p ← Change.state
  let decisions := p.decisions.getD ⟨[]⟩
  let build := fun (s : Scenario K) => r.generate p.secondData decisions s.data
  let results ← p.transport.map
    (fun (q : Partition K × Nat) => q.1.generate build p.secondEpoch q.2) p.placed
  Change.update fun p => { p with partitions := results.map (·.1) }
  let failed := results.flatMap (·.2)
  if !failed.isEmpty then throw (.generation failed)
  Change.update fun p => { p with generatedEpoch := some p.secondEpoch }

/-- Build whatever is missing or stale. -/
def generate : Edit σ K Unit := do
  match (← Change.state).firstRecipe with
  | none => throw (.undefinedRecipe .first)
  | some r => generateMaster r
  let p ← Change.state
  if p.scenarioCount = 0 then
    if p.secondRecipe.isSome then
      Change.update fun p => { p with generatedEpoch := some p.secondEpoch }
  else match p.secondRecipe with
    | none => throw (.undefinedRecipe .second)
    | some r => generateSubproblems r

/-- Whether the recipes that generation needs are there. -/
def canGenerate (p : Program σ K) : Bool :=
  p.firstRecipe.isSome && (p.secondRecipe.isSome || p.scenarioCount == 0)

/-- Whether both recipes are there. -/
def hasRecipes (p : Program σ K) : Bool := p.firstRecipe.isSome && p.secondRecipe.isSome

/-- Register a recipe under a stage key, and build the program right away unless
that is deferred or a recipe is missing. -/
def register [Scalar K] (key : Setting K) (c : Candidate σ K) (defer : Bool) :
    Edit σ K (Recipe σ K) := do
  let stage ← Stage.require key
  let r ← c.toRecipe stage
  setRecipe r
  if !defer && canGenerate (← Change.state) then generate
  return r

/-- Replace the data of the stage with a key. -/
def setStageData [Scalar K] (key : Setting K) (value : Value K) : Edit σ K Unit := do
  setData (← Stage.require key) value

/-! ## Work on every scenario -/

/-- Run a job on every scenario, partition by partition through the transport,
with the results in global order. -/
def collect {α : Type} (p : Program σ K) (withSubproblems : Bool)
    (job : Int → Scenario K → Option (Model K) → Act σ K α) : Act σ K (List α) := do
  let epoch := if withSubproblems then some p.secondEpoch else none
  let chunks ← p.transport.map
    (fun (q : Partition K × Nat) => q.1.visit epoch q.2 job) p.placed
  return chunks.flatten

end Recourse.Program
