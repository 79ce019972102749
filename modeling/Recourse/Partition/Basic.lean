/-
  Partition/Basic.lean --- the scenarios of one worker and their subproblems.

  Every scenario has a slot for its subproblem.  A slot remembers the epoch its
  subproblem was built in, so that being current is a comparison with the epoch
  of the program.
-/
import Recourse.Program.Recipe
import Recourse.Scenario

set_option autoImplicit false

namespace Recourse

/-- A scenario with room for its subproblem. -/
structure Slot (K : Type) where
  /-- The scenario. -/
  scenario : Scenario K
  /-- Its subproblem, with the epoch it was built in. -/
  built : Option (Model K × Int)
  deriving Inhabited

namespace Slot

variable {K : Type}

/-- A slot without a subproblem. -/
def ofScenario (s : Scenario K) : Slot K := ⟨s, none⟩

/-- Whether the subproblem was built in an epoch. -/
def isCurrent (s : Slot K) (epoch : Int) : Bool :=
  match s.built with
  | some b => b.2 == epoch
  | none => false

/-- Whether there is a subproblem of another epoch. -/
def isStale (s : Slot K) (epoch : Int) : Bool :=
  match s.built with
  | some b => b.2 != epoch
  | none => false

/-- The epoch of the subproblem, `-1` without one. -/
def epoch (s : Slot K) : Int :=
  match s.built with
  | some b => b.2
  | none => -1

/-- The subproblem. -/
def model? (s : Slot K) : Option (Model K) := s.built.map (·.1)

end Slot

/-- The scenarios of one worker. -/
structure Partition (K : Type) where
  /-- Number of the worker. -/
  owner : Int
  /-- Scenarios with their subproblems. -/
  slots : List (Slot K)
  deriving Inhabited

namespace Partition

variable {σ K : Type}

/-- Number of scenarios. -/
def size (p : Partition K) : Nat := p.slots.length

/-- The scenarios. -/
def scenarios (p : Partition K) : List (Scenario K) := p.slots.map (·.scenario)

/-- A partition written out. -/
def shown (p : Partition K) : String :=
  s!"ScenarioPartition(owner={p.owner}, scenarios={p.size}, " ++
    s!"generated={(p.slots.filter (·.built.isSome)).length})"

/-- A partition with more scenarios, not built yet. -/
def extend (p : Partition K) (scenarios : List (Scenario K)) : Partition K :=
  { p with slots := p.slots ++ scenarios.map Slot.ofScenario }

/-! ## Reading -/

/-- The slot at an index, refused outside the range. -/
def slot (p : Partition K) (i : Int) (what : Indexed) : Except (Fault K) (Slot K) :=
  match if 0 ≤ i then p.slots[i.toNat]? else none with
  | some s => .ok s
  | none => .error (.indexOutOfRange (.ofInt i) p.size what)

/-- The scenario at an index. -/
def scenario (p : Partition K) (i : Int) : Except (Fault K) (Scenario K) :=
  (p.slot i .scenario).map (·.scenario)

/-- The subproblem at an index, refused unless it is of this epoch. -/
def subproblem (p : Partition K) (i epoch : Int) : Except (Fault K) (Model K) := do
  let s ← p.slot i .subproblem
  match s.built with
  | some (m, e) =>
      if e = epoch then return m else throw (.stale (.subproblem i p.owner))
  | none => throw (.stale (.subproblem i p.owner))

/-- The positions of the slots with some property. -/
def positions (p : Partition K) (holds : Slot K → Bool) : List Nat :=
  (p.slots.zipIdx.filter fun s => holds s.1).map (·.2)

/-- The indices without a subproblem of this epoch. -/
def pending (p : Partition K) (epoch : Int) : List Nat := p.positions (!·.isCurrent epoch)

/-- The indices with a subproblem of another epoch. -/
def stale (p : Partition K) (epoch : Int) : List Nat := p.positions (·.isStale epoch)

/-- Whether every subproblem is of this epoch. -/
def isGenerated (p : Partition K) (epoch : Int) : Bool := p.slots.all (·.isCurrent epoch)

/-- How many subproblems are of this epoch. -/
def generated (p : Partition K) (epoch : Int) : Nat :=
  (p.slots.filter (·.isCurrent epoch)).length

/-! ## Generating -/

/-- Build the subproblem of a slot, unless it is current.  A slot that fails is
left empty. -/
def buildSlot (build : Scenario K → Act σ K (Model K)) (epoch : Int) (s : Slot K) :
    Act σ K (Slot K × Option (Fault K)) :=
  if s.isCurrent epoch then return (s, none)
  else do
    match ← Act.attempt (build s.scenario) with
    | .ok m => return ({ s with built := some (m, epoch) }, none)
    | .error f => return ({ s with built := none }, some f)

/-- Build every subproblem that is not current.  Failures are reported by index,
counted from `offset`, and do not stop the others. -/
def generate (build : Scenario K → Act σ K (Model K)) (epoch : Int) (offset : Int)
    (p : Partition K) : Act σ K (Partition K × List (Int × Fault K)) := do
  let results ← Act.forEach (buildSlot build epoch) p.slots
  let failed := results.zipIdx.filterMap fun r => r.1.2.map (offset + r.2, ·)
  return ({ p with slots := results.map (·.1) }, failed)

/-- Apply a job to every scenario, its index counted from `offset`, and its
subproblem.  With an epoch every subproblem has to be of that epoch; without one
the job gets no subproblem. -/
def visit {α : Type} (p : Partition K) (epoch : Option Int) (offset : Int)
    (job : Int → Scenario K → Option (Model K) → Act σ K α) : Act σ K (List α) := do
  match epoch with
  | none => Act.forEach (fun s => job (offset + s.2) s.1.scenario none) p.slots.zipIdx
  | some e =>
      if !p.isGenerated e then Act.fail (.stale (.partition p.owner))
      Act.forEach (fun s => job (offset + s.2) s.1.scenario s.1.model?) p.slots.zipIdx

/-! ## Probabilities -/

variable [Scalar K]

/-- The probability mass of a partition. -/
def mass (p : Partition K) : K := Scenario.mass p.scenarios

/-- Multiply every probability by a factor; subproblems stay. -/
def rescale (factor : K) (p : Partition K) : Except (Fault K) (Partition K) := do
  let slots ← p.slots.mapM fun s => do
    return { s with scenario := ← s.scenario.scaleProbability factor }
  return { p with slots }

/-- The mass of a partition and its expected payload, none without any mass. -/
def partialExpectation (p : Partition K) : Except (Fault K) (K × Option (Value K)) :=
  if p.slots.isEmpty || Scalar.atMost p.mass 0 then .ok (0, none)
  else do
    let e ← Scenario.expected p.scenarios (some "expected")
    return (p.mass, some e.data)

end Partition

end Recourse
