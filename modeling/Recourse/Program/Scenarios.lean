/-
  Program/Scenarios.lean --- adding scenarios and weighing them.

  New scenarios go to a named partition, or are spread so that the partitions
  end up as even as they can.  A scenario of a type that does not fit is refused
  before anything is changed.
-/
import Recourse.Program.Generate
import Recourse.Partition.Policy
import Recourse.Sampler.Basic

set_option autoImplicit false

namespace Recourse

/-- What can be offered as a scenario. -/
inductive Offered (K : Type) where
  /-- A scenario. -/
  | scenario (s : Scenario K)
  /-- Anything else. -/
  | other (typeName : String)

namespace Program

variable {σ K : Type}

/-! ## Adding -/

/-- The scenarios on offer, with the schema after the last of them.  The first
misfit is refused. -/
def accept (schema : Option Schema) :
    List (Offered K) → Except (Fault K) (Option Schema × List (Scenario K))
  | [] => .ok (schema, [])
  | .other t :: _ => .error (.invalid (.notAScenario t))
  | .scenario s :: rest => do
      let schema ← Schema.check schema [s.data]
      let (schema, others) ← accept schema rest
      return (schema, s :: others)

/-- Append scenarios to a partition. -/
def extendAt (k : Nat) (scenarios : List (Scenario K)) (p : Program σ K) : Program σ K :=
  { p with partitions := p.partitions.modify k (·.extend scenarios) }

/-- Append chunks of scenarios to the partitions in order, each as long as its
count. -/
def extendEach : List (Partition K) → List Nat → List (Scenario K) → List (Partition K)
  | q :: rest, n :: counts, scenarios =>
      q.extend (scenarios.take n) :: extendEach rest counts (scenarios.drop n)
  | partitions, _, _ => partitions

variable [Scalar K]

/-- Refuse a worker outside the range. -/
def checkWorker (p : Program σ K) (worker : Setting K) : Except (Fault K) Unit :=
  match worker.number? with
  | none => .error (.misuse .kind)
  | some x =>
      if Scalar.atMost 0 x && Scalar.less x (Scalar.ofNat p.partitions.length) then .ok ()
      else .error (.indexOutOfRange worker p.partitions.length .worker)

/-- The position of a worker, which has to be an integer. -/
def workerPosition (worker : Setting K) : Except (Fault K) Nat :=
  match worker.integer? with
  | some n => .ok n.toNat
  | none => .error (.misuse .kind)

/-- Drop the solution, and build the new subproblems unless that is deferred or a
recipe is missing. -/
def finishAdding (defer : Bool) : Edit σ K Unit := do
  Change.update fun p => { p with solution := none }
  if !defer && hasRecipes (← Change.state) then generate

/-- Add one scenario to a worker, or else to the least loaded partition. -/
def add (offered : Offered K) (worker : Option (Setting K)) (defer : Bool) : Edit σ K Unit := do
  let p ← Change.state
  let least ← match worker with
    | none => Policy.leastLoaded (K := K) (p.partitionSizes.map Int.ofNat)
    | some w => do
        p.checkWorker w
        pure 0
  let (schema, accepted) ← accept p.schema [offered]
  Change.update fun p => { p with schema }
  let k ← match worker with
    | none => pure least
    | some w => workerPosition w
  Change.update (extendAt k accepted)
  finishAdding defer

/-- Add scenarios to a worker, or else spread them. -/
def addAll (offered : List (Offered K)) (worker : Option (Setting K)) (defer : Bool) :
    Edit σ K Unit := do
  if offered.isEmpty then return
  let p ← Change.state
  if let some w := worker then p.checkWorker w
  let (schema, accepted) ← accept p.schema offered
  Change.update fun p => { p with schema }
  match worker with
  | some w => do
      let k ← workerPosition w
      Change.update (extendAt k accepted)
  | none => do
      let counts ← Policy.fillCounts (K := K) (p.partitionSizes.map Int.ofNat) accepted.length
      Change.update fun p =>
        { p with partitions := extendEach p.partitions (counts.map Int.toNat) accepted }
  finishAdding defer

/-! ## Weighing -/

/-- Multiply every probability by a factor, partition by partition. -/
def rescale (factor : K) : Edit σ K Unit := do
  let rec go : List (Partition K) → List (Partition K) → Edit σ K Unit
    | _, [] => pure ()
    | done, q :: rest => do
        let q ← q.rescale factor
        Change.update fun p => { p with partitions := done ++ q :: rest }
        go (done ++ [q]) rest
  go [] (← Change.state).partitions

/-- Add a sample.  With `N` scenarios present and `n` drawn, each new one gets
`1 / (N + n)`, and the others share the rest in their old proportions. -/
def sample (sampler : Sampler σ K) (n : Setting K) (defer : Bool) : Edit σ K Unit := do
  let p ← Change.state
  let size ← Sampler.sampleSize n
  let total : K := Scalar.ofNat (p.scenarioCount + size)
  let fresh ← sampler.sample n
  let drawn : List (Scenario K) ← fresh.mapM fun s => s.withProbability (.real (1 / total))
  let offered := drawn.map Offered.scenario
  let _ ← accept (K := K) p.schema offered
  if p.scenarioCount ≠ 0 then rescale (Scalar.ofNat p.scenarioCount / total)
  addAll offered none defer

/-- Require the probabilities to sum to one.  Where rescaling is asked for, by the
argument or else by the program, they are rescaled instead, with a notice. -/
def validate (normalize : Option Bool) : Edit σ K Unit := do
  let p ← Change.state
  if p.scenarioCount = 0 then throw (.probability .noScenarios)
  let total := p.totalProbability
  if isTotal total then return
  if !normalize.getD p.normalize || Scalar.atMost total 0 then
    throw (.probability (.total total))
  Change.ofAct (Act.notify ⟨total⟩)
  rescale (1 / total)
  Change.update fun p => { p with solution := none }

/-- The scenario with the expected payload.  Each partition reduces its own
scenarios, and the results are weighed by their masses. -/
def expectedScenario (p : Program σ K) : Act σ K (Scenario K) := do
  if p.scenarioCount = 0 then Act.fail (.probability .noScenarios)
  let partials ← p.transport.map
    (fun (q : Partition K) => Act.ofExcept q.partialExpectation) p.partitions
  let parts := partials.filterMap fun r =>
    if Scalar.less 0 r.1 then r.2.map (r.1, ·) else none
  let total := Scalar.sum (parts.map (·.1))
  if Scalar.atMost total 0 then Act.fail (.probability .noMass)
  let data ← Act.ofExcept
    (Value.expectation (parts.map (·.2)) (parts.map (·.1 / total)))
  Act.ofExcept (Scenario.make (.real 1) data (some "expected"))

/-! ## Partitions -/

/-- Slots cut into chunks of the given sizes, numbered from `owner` on. -/
def chunks (owner : Nat) : List Nat → List (Slot K) → List (Partition K)
  | [], _ => []
  | n :: sizes, slots =>
      { owner, slots := slots.take n } :: chunks (owner + 1) sizes (slots.drop n)

/-- Spread the scenarios evenly over another number of partitions, in order and
with their subproblems. -/
def rebalance (workers : Setting K) : Edit σ K Unit := do
  let p ← Change.state
  let parts ← Setting.convert (K := K) workers.toInteger
  let sizes ← Policy.evenSplit (K := K) p.scenarioCount parts
  Change.update fun p => { p with partitions := chunks 0 (sizes.map Int.toNat) p.slots }

/-! ## New programs -/

/-- How a program is set up. -/
structure Setup (σ K : Type) where
  /-- Data of the first stage. -/
  firstData : Value K
  /-- Data of the second stage. -/
  secondData : Value K
  /-- What payloads have to be, if that is said. -/
  schema : Option Schema
  /-- Number of partitions. -/
  workers : Setting K
  /-- How work on the partitions is run. -/
  transport : Transport
  /-- The solver that is used when none is named. -/
  solver : Option (Solver σ K)
  /-- Whether probabilities are rescaled when they do not sum to one. -/
  normalize : Bool

/-- The setup of a program when nothing is said. -/
def Setup.standard : Setup σ K :=
  { firstData := .null, secondData := .null, schema := none, workers := .ofInt 1
    transport := .sequential, solver := none, normalize := false }

/-- A program without scenarios. -/
def create (s : Setup σ K) : Act σ K (Program σ K) := do
  let workers ← Setting.convert (K := K) s.workers.toInteger
  if workers < 1 then Act.fail (.invalid (.notPositive "workers" s.workers))
  return { id := ← Act.freshIdentity
           firstData := s.firstData
           secondData := s.secondData
           firstRecipe := none
           secondRecipe := none
           firstEpoch := 0
           secondEpoch := 0
           generatedEpoch := none
           master := none
           decisions := none
           partitions := (List.range workers.toNat).map fun (k : Nat) => { owner := k, slots := [] }
           transport := s.transport
           schema := s.schema
           solver := s.solver
           normalize := s.normalize
           solution := none }

/-- A program with scenarios. -/
def createWith (s : Setup σ K) (scenarios : List (Scenario K)) : Act σ K (Program σ K) := do
  let p ← create s
  let (_, p) ← (addAll (scenarios.map Offered.scenario) none true).apply p
  return p

end Program

/-! ## Stage recipes without data -/

/-- The recipes of both stages, without data and scenarios. -/
structure Template (σ K : Type) where
  /-- Recipe of the first stage. -/
  first : Option (FirstRecipe σ K)
  /-- Recipe of the second stage. -/
  second : Option (SecondRecipe σ K)

namespace Template

variable {σ K : Type}

/-- A recipe as a template shows it. -/
def shownRecipe (r : Option String) : String := r.getD "None"

/-- A template written out. -/
def shown (t : Template σ K) : String :=
  "StochasticModel(first_stage=" ++ shownRecipe (t.first.map (·.shown)) ++
    ", second_stage=" ++ shownRecipe (t.second.map (·.shown)) ++ ")"

/-- A program with the recipes of a template, built right away unless that is
deferred. -/
def instantiate [Scalar K] (t : Template σ K) (s : Program.Setup σ K)
    (scenarios : List (Scenario K)) (defer : Bool) : Act σ K (Program σ K) := do
  match t.first, t.second with
  | none, _ => Act.fail (.undefinedRecipe .first)
  | _, none => Act.fail (.undefinedRecipe .second)
  | some first, some second => do
      let p ← Program.create s
      let edit : Edit σ K Unit := do
        Program.setRecipe (.first first)
        Program.setRecipe (.second second)
        Program.addAll (scenarios.map Offered.scenario) none true
        if !defer then Program.generate
      let (_, p) ← edit.apply p
      return p

end Template

end Recourse
