/-
  Proofs/Program/Transition.lean --- how a program can change.

  Everything that happens to a program is a sequence of a few kinds of transitions.  Each
  of them keeps the program consistent: what was built in the current epoch of a stage is
  what the recipe gives for the current data (`Transition.consistent`).  A solution goes
  with every transition that touches what it was computed from, so the one that is left
  was computed from what is there now (`Transition.invariant`).
-/
import Recourse.Proofs.Program.Meaning
import Recourse.Proofs.Program.Purity
import Recourse.Proofs.Program.Weighing
import Recourse.Solver.Run
import Mathlib.Logic.Relation

set_option autoImplicit false
set_option linter.unusedSectionVars false

namespace Recourse

variable {σ K : Type} [Scalar K]

/-! ## Solutions and where they come from -/

/-- Set up a run on a program and take it to its end. -/
def StructuredSolver.solve [Host σ K] (s : StructuredSolver σ K) :
    Edit σ K (Status × SolverRun K) := do
  let r ← s.build
  let p ← Change.state
  (s.run p).apply r

namespace Program

/-- Two programs have the same data, recipes, decisions and scenarios. -/
structure SameInputs (p q : Program σ K) : Prop where
  /-- The same data of the first stage. -/
  firstData : p.firstData = q.firstData
  /-- The same data of the second stage. -/
  secondData : p.secondData = q.secondData
  /-- The same recipe of the first stage. -/
  firstRecipe : p.firstRecipe = q.firstRecipe
  /-- The same recipe of the second stage. -/
  secondRecipe : p.secondRecipe = q.secondRecipe
  /-- The same handle on the decisions. -/
  decisions : p.decisions = q.decisions
  /-- The same payloads and probabilities, in the same order. -/
  scenarios : p.scenarios = q.scenarios

theorem SameInputs.trans {p q r : Program σ K} (h : p.SameInputs q) (h' : q.SameInputs r) :
    p.SameInputs r :=
  ⟨h.firstData.trans h'.firstData, h.secondData.trans h'.secondData,
    h.firstRecipe.trans h'.firstRecipe, h.secondRecipe.trans h'.secondRecipe,
    h.decisions.trans h'.decisions, h.scenarios.trans h'.scenarios⟩

/-- The models a program hands out are what its recipes give for what it holds now. -/
structure ModelsFresh (p : Program σ K) : Prop where
  /-- The first-stage model comes from the recipe and the data of the first stage. -/
  stageOneModel : ∀ m, p.stageOneModel = .ok m →
    ∃ r m₀, p.firstRecipe = some r ∧ r.Gives p.firstData m₀ ∧ m.LoadedFrom m₀
  /-- A subproblem comes from the recipe and the data of the second stage, the decisions and
  the payload of its scenario. -/
  subproblem : ∀ i m, p.subproblem i = .ok m → ∃ s r d m₀, p.scenario i = .ok s ∧
    p.secondRecipe = some r ∧ p.decisions = some d ∧ r.Gives p.secondData d s.data m₀ ∧
      m.LoadedFrom m₀

/-- A solver that is run on a program finds a solution: its decision and its value are
those of the run. -/
def Computes [Host σ K] (p : Program σ K) (solution : Solution K) : Prop :=
  ∃ (s : StructuredSolver σ K) (r : SolverRun K) (p' : Program σ K) (ledger ledger' : Ledger σ K),
    (s.solve.runOn p).run ledger = ((.ok (.optimal, r), p'), ledger') ∧
      r.common.decision = some solution.decision ∧ r.common.objective = solution.objective

/-- A solution that is current: the program is built, and the solution was computed from
what the program holds. -/
structure SolutionFresh [Host σ K] (p : Program σ K) (solution : Solution K) : Prop where
  /-- Both stages are built. -/
  current : p.isDeferred = false
  /-- There are scenarios. -/
  nonempty : 0 < p.scenarioCount
  /-- A program with the same inputs, whose models were fresh, was solved. -/
  origin : ∃ p₀ : Program σ K, p₀.SameInputs p ∧ p₀.isDeferred = false ∧ p₀.ModelsFresh ∧
    p₀.Computes solution

/-! ## Consistent programs -/

/-- A slot is in order: its model is of no later epoch, it is what the recipe gives where it
is of the current one, and the probability is a weight. -/
structure SlotConsistent (p : Program σ K) (s : Slot K) : Prop where
  /-- Its epoch has begun. -/
  epoch : ∀ m e, s.built = some (m, e) → e ≤ p.secondEpoch
  /-- A current model is what the recipe gives. -/
  current : ∀ m, s.built = some (m, p.secondEpoch) → ∃ r d m₀, p.secondRecipe = some r ∧
    p.decisions = some d ∧ r.Gives p.secondData d s.scenario.data m₀ ∧ m.LoadedFrom m₀
  /-- Its scenario has a weight. -/
  weight : Scalar.isWeight s.scenario.probability = true

/-- A program is in order, its solution apart. -/
structure Consistent (p : Program σ K) : Prop where
  /-- The recipe of the first stage is pure. -/
  firstPure : ∀ r, p.firstRecipe = some r → r.Pure
  /-- The recipe of the second stage is pure. -/
  secondPure : ∀ r, p.secondRecipe = some r → r.Pure
  /-- The epoch of the first-stage model has begun. -/
  masterEpoch : ∀ m e, p.master = some (m, e) → e ≤ p.firstEpoch
  /-- A current first-stage model is what the recipe gives. -/
  master : ∀ m, p.master = some (m, p.firstEpoch) →
    ∃ r m₀, p.firstRecipe = some r ∧ r.Gives p.firstData m₀ ∧ m.LoadedFrom m₀
  /-- The decisions are those of the first-stage model. -/
  handle : p.decisions = p.master.map (·.1.decisions)
  /-- There is a worker. -/
  workers : p.partitions ≠ []
  /-- Every slot is in order. -/
  slots : ∀ s ∈ p.slots, p.SlotConsistent s

theorem Consistent.weighted {p : Program σ K} (h : p.Consistent) : p.Weighted :=
  fun s hs => (h.slots s hs).weight

/-- A program is in order, and so is its solution. -/
structure Invariant [Host σ K] (p : Program σ K) : Prop extends p.Consistent where
  /-- A solution is current. -/
  solution : ∀ s, p.solution = some s → p.SolutionFresh s

variable {p : Program σ K}

theorem Consistent.invariant [Host σ K] (h : p.Consistent) (hnone : p.solution = none) :
    p.Invariant :=
  ⟨h, fun _ hs => nomatch hnone.symm.trans hs⟩

/-! ## What consistent programs hand out -/

theorem mem_of_locateIn {partitions : List (Partition K)} {i j : Nat} {q : Partition K}
    (h : locateIn partitions i = some (q, j)) : q ∈ partitions := by
  induction partitions generalizing i with
  | nil => cases h
  | cons q' rest ih =>
    unfold locateIn at h
    split at h
    · cases h
      exact List.mem_cons_self
    · exact List.mem_cons_of_mem _ (ih h)

/-- The partition a scenario is in is one of the program. -/
theorem mem_of_locate {i : Setting K} {q : Partition K} {j : Nat} (h : p.locate i = .ok (q, j)) :
    q ∈ p.partitions := by
  unfold locate at h
  dsimp only at h
  split at h
  · split at h
    · cases h
    · split at h
      · rename_i found hfound
        cases h
        exact mem_of_locateIn hfound
      · cases h
  · cases h

/-- A subproblem that a partition hands out stands in a slot, with its scenario. -/
theorem exists_slot_of_partition {q : Partition K} {i e : Int} {m : Model K}
    (h : q.subproblem i e = .ok m) :
    ∃ s ∈ q.slots, q.scenario i = .ok s.scenario ∧ s.built = some (m, e) := by
  obtain ⟨s, hslot, hbuilt⟩ := partition_subproblem_eq_ok.1 h
  obtain ⟨hi, hget⟩ := slot_eq_ok.1 hslot
  refine ⟨s, List.mem_of_getElem? hget, ?_, hbuilt⟩
  rw [Partition.scenario, slot_eq_ok.2 ⟨hi, hget⟩]
  rfl

/-- A subproblem that is handed out stands in a slot, with the scenario, and is current. -/
theorem exists_slot_of_subproblem {i : Setting K} {m : Model K} (h : p.subproblem i = .ok m) :
    ∃ s ∈ p.slots, p.scenario i = .ok s.scenario ∧ s.built = some (m, p.secondEpoch) := by
  unfold subproblem at h
  unfold scenario
  obtain ⟨⟨q, j⟩, hlocate, h⟩ := bind_eq_ok_iff.1 h
  rw [hlocate]
  obtain ⟨s, hs, hscenario, hbuilt⟩ := exists_slot_of_partition h
  exact ⟨s, List.mem_flatMap.2 ⟨q, mem_of_locate hlocate, hs⟩, hscenario, hbuilt⟩

theorem currentMaster?_eq_some {m : Model K} :
    p.currentMaster? = some m ↔ p.master = some (m, p.firstEpoch) := by
  unfold currentMaster?
  constructor
  · intro h
    split at h
    · rename_i m' e hm
      split at h
      · rename_i he
        cases h
        rw [hm, he]
      · cases h
    · cases h
  · intro h
    rw [h]
    exact if_pos rfl

theorem stageOneModel_eq_ok {m : Model K} :
    p.stageOneModel = .ok m ↔ p.master = some (m, p.firstEpoch) := by
  rw [← currentMaster?_eq_some, stageOneModel]
  cases p.currentMaster? <;> simp

/-- What a consistent program hands out is fresh. -/
theorem Consistent.modelsFresh (h : p.Consistent) : p.ModelsFresh where
  stageOneModel := fun m hm => h.master m (stageOneModel_eq_ok.1 hm)
  subproblem := by
    intro i m hm
    obtain ⟨s, hs, hscenario, hbuilt⟩ := exists_slot_of_subproblem hm
    obtain ⟨r, d, m₀, hr, hd, hgives, hloaded⟩ := (h.slots s hs).current m hbuilt
    exact ⟨s.scenario, r, d, m₀, hscenario, hr, hd, hgives, hloaded⟩

/-! ## Transitions -/

/-- A slot before and after its subproblem was built where it was not current.  A build
that fails leaves the slot empty. -/
inductive SlotBuilt (p : Program σ K) (r : SecondRecipe σ K) (d : Decisions) :
    Slot K → Slot K → Prop
  /-- Nothing was done. -/
  | kept (s : Slot K) : SlotBuilt p r d s s
  /-- The build failed. -/
  | emptied {s : Slot K} (hstale : s.isCurrent p.secondEpoch = false) :
      SlotBuilt p r d s { s with built := none }
  /-- The model was built. -/
  | filled {s : Slot K} {m : Model K} (hstale : s.isCurrent p.secondEpoch = false)
      (hm : r.Gives p.secondData d s.scenario.data m) :
      SlotBuilt p r d s { s with built := some (m, p.secondEpoch) }

/-- A slot of a changed set of scenarios: a new one, or one there was, perhaps with another
probability. -/
structure SlotKept (p : Program σ K) (s : Slot K) : Prop where
  /-- The scenario has a weight. -/
  weight : Scalar.isWeight s.scenario.probability = true
  /-- What is built was built for the payload. -/
  built : s.built = none ∨
    ∃ s' ∈ p.slots, s.built = s'.built ∧ s.scenario.data = s'.scenario.data

/-- A program with a solution, and with results loaded into its models. -/
def install (solution : Solution K) (results : List (SolveResult K))
    (master : Option (SolveResult K)) (p : Program σ K) : Program σ K :=
  { p with
    partitions := loadPartitions p.partitions results
    master := match master with
      | some r => p.master.map fun m => (m.1.load r, m.2)
      | none => p.master
    solution := some solution }

/-- The ways a program changes. -/
inductive Transition [Host σ K] : Program σ K → Program σ K → Prop
  /-- The first stage gets other data. -/
  | firstData (p : Program σ K) (value : Value K) :
      Transition p { p with firstData := value, firstEpoch := p.firstEpoch + 1, solution := none }
  /-- The second stage gets other data. -/
  | secondData (p : Program σ K) (value : Value K) :
      Transition p { p with
        secondData := value, secondEpoch := p.secondEpoch + 1, solution := none }
  /-- The first stage gets another recipe. -/
  | firstRecipe (p : Program σ K) {r : FirstRecipe σ K} (hr : r.Pure) :
      Transition p { p with
        firstRecipe := some r, firstEpoch := p.firstEpoch + 1, solution := none }
  /-- The second stage gets another recipe. -/
  | secondRecipe (p : Program σ K) {r : SecondRecipe σ K} (hr : r.Pure) :
      Transition p { p with
        secondRecipe := some r, secondEpoch := p.secondEpoch + 1, solution := none }
  /-- Notes that nothing is computed from. -/
  | noted (p : Program σ K) (schema : Option Schema) (generated : Option Int) :
      Transition p { p with schema, generatedEpoch := generated }
  /-- The first-stage model is built where it is not current. -/
  | master (p : Program σ K) {r : FirstRecipe σ K} {m : Model K} (hr : p.firstRecipe = some r)
      (hstale : p.currentMaster? = none) (hm : r.Gives p.firstData m) :
      Transition p (installMaster m p)
  /-- Subproblems are built where they are not current. -/
  | subproblems (p : Program σ K) {r : SecondRecipe σ K} {d : Decisions}
      {partitions : List (Partition K)} (hr : p.secondRecipe = some r) (hd : p.decisions = some d)
      (hworkers : partitions ≠ [])
      (hslots : List.Forall₂ (p.SlotBuilt r d) p.slots (partitions.flatMap (·.slots))) :
      Transition p { p with partitions }
  /-- The scenarios are spread over other partitions. -/
  | spread (p : Program σ K) {partitions : List (Partition K)} (hworkers : partitions ≠ [])
      (hslots : partitions.flatMap (·.slots) = p.slots) :
      Transition p { p with partitions }
  /-- Scenarios are added among the others, or the others are weighed anew, which happens
  where there are more of them or where their weights did not sum to one. -/
  | scenarios (p : Program σ K) {partitions : List (Partition K)} (hworkers : partitions ≠ [])
      (hslots : ∀ s ∈ partitions.flatMap (·.slots), p.SlotKept s)
      (hchange : p.slots.Sublist (partitions.flatMap (·.slots)) ∨
        p.scenarioCount < (partitions.flatMap (·.slots)).length ∨
        p.scenarioCount = (partitions.flatMap (·.slots)).length ∧
          isTotal p.totalProbability = false) :
      Transition p { p with partitions, solution := none }
  /-- A solution is installed that was computed before anything but notes changed. -/
  | solved (p : Program σ K) {solution : Solution K} (results : List (SolveResult K))
      (master : Option (SolveResult K)) (generated : Option Int) (hcurrent : p.isDeferred = false)
      (hnonempty : 0 < p.scenarioCount)
      (hcomputes : ({ p with generatedEpoch := generated } : Program σ K).Computes solution) :
      Transition p (p.install solution results master)

/-! ## Programs that are built -/

/-- Both stages have a recipe, and everything is built and current. -/
structure IsBuilt (p : Program σ K) : Prop where
  /-- There is a recipe of the first stage. -/
  firstRecipe : ∃ r, p.firstRecipe = some r
  /-- There is a recipe of the second stage. -/
  secondRecipe : ∃ r, p.secondRecipe = some r
  /-- The first-stage model is current. -/
  master : ∃ m, p.master = some (m, p.firstEpoch)
  /-- Every subproblem is current. -/
  slots : ∀ s ∈ p.slots, ∃ m, s.built = some (m, p.secondEpoch)

theorem isBuilt_of_not_isDeferred (h : p.isDeferred = false) : p.IsBuilt where
  firstRecipe := exists_firstRecipe_of_not_isDeferred h
  secondRecipe := exists_secondRecipe_of_not_isDeferred h
  master := by
    obtain ⟨m, hm⟩ := currentMaster?_of_not_isDeferred h
    exact ⟨m, currentMaster?_eq_some.1 hm⟩
  slots := fun s hs => exists_built_of_isCurrent (isCurrent_of_not_isDeferred h s hs)

/-- With scenarios there is nothing else to being built. -/
theorem IsBuilt.isDeferred_eq_false (h : p.IsBuilt) (hnonempty : 0 < p.scenarioCount) :
    p.isDeferred = false := by
  obtain ⟨r, hr⟩ := h.firstRecipe
  obtain ⟨r', hr'⟩ := h.secondRecipe
  obtain ⟨m, hm⟩ := h.master
  have hfirst : p.firstState = .generated := by
    simp [firstState, hr, hm]
  have hstale : p.slots.any (·.isStale p.secondEpoch) = false := by
    rw [List.any_eq_false]
    intro s hs
    obtain ⟨m, hb⟩ := h.slots s hs
    simp [Slot.isStale, hb]
  have hcurrent : p.slots.any (!·.isCurrent p.secondEpoch) = false := by
    rw [List.any_eq_false]
    intro s hs
    obtain ⟨m, hb⟩ := h.slots s hs
    simp [Slot.isCurrent, hb]
  have hsecond : p.secondState = .generated := by
    simp [secondState, hr', hstale, hcurrent, hnonempty.ne']
  simp [isDeferred, hfirst, hsecond]

theorem SolutionFresh.isBuilt [Host σ K] {s : Solution K} (h : p.SolutionFresh s) : p.IsBuilt :=
  isBuilt_of_not_isDeferred h.current

/-- A solution stays current where the inputs stay the same and everything is built. -/
theorem SolutionFresh.transfer [Host σ K] {q : Program σ K} {s : Solution K} (h : p.SolutionFresh s)
    (hinputs : p.SameInputs q) (hbuilt : q.IsBuilt) : q.SolutionFresh s := by
  have hnonempty : 0 < q.scenarioCount := by
    have hlength := congrArg List.length hinputs.scenarios
    simp only [scenarios, List.length_map] at hlength
    show 0 < q.slots.length
    rw [← hlength]
    exact h.nonempty
  obtain ⟨p₀, hsame, hcurrent, hfresh, hcomputes⟩ := h.origin
  exact ⟨hbuilt.isDeferred_eq_false hnonempty, hnonempty, p₀, hsame.trans hinputs, hcurrent, hfresh,
    hcomputes⟩

/-! ## Slots that are rewritten -/

/-- A slot before and after a result was loaded into its subproblem, if it has one. -/
inductive SlotLoaded : Slot K → Slot K → Prop
  /-- Nothing was loaded. -/
  | kept (s : Slot K) : SlotLoaded s s
  /-- A result was loaded. -/
  | loaded (s : Slot K) (r : SolveResult K) :
      SlotLoaded s { s with built := s.built.map fun b => (b.1.load r, b.2) }

theorem forall₂_loadSlots (slots : List (Slot K)) (results : List (SolveResult K)) :
    List.Forall₂ SlotLoaded slots (loadSlots slots results).1 := by
  induction slots generalizing results with
  | nil => cases results <;> exact .nil
  | cons s slots ih =>
    cases results with
    | nil => exact List.forall₂_same.2 fun s _ => .kept s
    | cons r results => exact .cons (.loaded s r) (ih results)

theorem forall₂_loadPartitions (partitions : List (Partition K)) (results : List (SolveResult K)) :
    List.Forall₂ SlotLoaded (partitions.flatMap (·.slots))
      ((loadPartitions partitions results).flatMap (·.slots)) := by
  induction partitions generalizing results with
  | nil => exact .nil
  | cons q partitions ih =>
    simp only [loadPartitions, List.flatMap_cons]
    exact List.rel_append (forall₂_loadSlots q.slots results) (ih _)

theorem length_loadPartitions (partitions : List (Partition K)) (results : List (SolveResult K)) :
    (loadPartitions partitions results).length = partitions.length := by
  induction partitions generalizing results with
  | nil => rfl
  | cons q partitions ih => simp [loadPartitions, ih]

theorem SlotLoaded.scenario_eq {s s' : Slot K} (h : SlotLoaded s s') : s'.scenario = s.scenario := by
  cases h <;> rfl

theorem SlotLoaded.consistent {s s' : Slot K} (h : SlotLoaded s s') (hs : p.SlotConsistent s) :
    p.SlotConsistent s' := by
  cases h with
  | kept => exact hs
  | loaded r =>
    cases hb : s.built with
    | none => exact ⟨fun m e h => by simp at h, fun m h => by simp at h, hs.weight⟩
    | some b =>
      obtain ⟨m, e⟩ := b
      refine ⟨?_, ?_, hs.weight⟩
      · intro m' e' h
        simp only [Option.map_some, Option.some.injEq, Prod.mk.injEq] at h
        exact h.2 ▸ hs.epoch m e hb
      · intro m' h
        simp only [Option.map_some, Option.some.injEq, Prod.mk.injEq] at h
        obtain ⟨rfl, rfl⟩ := h
        obtain ⟨r', d, m₀, hr, hd, hgives, hloaded⟩ := hs.current m hb
        exact ⟨r', d, m₀, hr, hd, hgives, hloaded.load r⟩

theorem SlotBuilt.scenario_eq {r : SecondRecipe σ K} {d : Decisions} {s s' : Slot K}
    (h : p.SlotBuilt r d s s') : s'.scenario = s.scenario := by
  cases h <;> rfl

/-- Building keeps a slot that is current. -/
theorem SlotBuilt.eq_of_current {r : SecondRecipe σ K} {d : Decisions} {s s' : Slot K}
    (h : p.SlotBuilt r d s s') {m : Model K} (hs : s.built = some (m, p.secondEpoch)) : s' = s := by
  cases h with
  | kept => rfl
  | emptied hstale => simp [Slot.isCurrent, hs] at hstale
  | filled hstale hm => simp [Slot.isCurrent, hs] at hstale

theorem SlotBuilt.consistent {r : SecondRecipe σ K} {d : Decisions} {s s' : Slot K}
    (hr : p.secondRecipe = some r) (hd : p.decisions = some d) (h : p.SlotBuilt r d s s')
    (hs : p.SlotConsistent s) : p.SlotConsistent s' := by
  cases h with
  | kept => exact hs
  | emptied => exact ⟨fun m e h => (nomatch h), fun m h => (nomatch h), hs.weight⟩
  | filled hstale hm =>
    refine ⟨?_, ?_, hs.weight⟩
    · rintro m e h
      cases h
      exact le_rfl
    · rintro m' h
      cases h
      exact ⟨r, d, _, hr, hd, hm, .refl _⟩

theorem SlotKept.consistent {s : Slot K} (hp : ∀ s ∈ p.slots, p.SlotConsistent s)
    (h : p.SlotKept s) : p.SlotConsistent s := by
  rcases h.built with hnone | ⟨s', hs', hbuilt, hdata⟩
  · exact ⟨fun m e hb => (nomatch hnone.symm.trans hb), fun m hb => (nomatch hnone.symm.trans hb),
      h.weight⟩
  · refine ⟨fun m e hb => (hp s' hs').epoch m e (hbuilt ▸ hb), fun m hb => ?_, h.weight⟩
    rw [hdata]
    exact (hp s' hs').current m (hbuilt ▸ hb)

/-- What holds of every slot carries over to slots that are related to them. -/
theorem forall_of_forall₂ {α β : Type} {R : α → β → Prop} {P : α → Prop} {Q : β → Prop}
    {xs : List α} {ys : List β} (h : List.Forall₂ R xs ys) (hx : ∀ x ∈ xs, P x)
    (hR : ∀ x y, R x y → P x → Q y) : ∀ y ∈ ys, Q y := by
  induction h with
  | nil => exact fun y hy => absurd hy List.not_mem_nil
  | cons hxy _ ih =>
    refine List.forall_mem_cons.2 ⟨hR _ _ hxy (hx _ List.mem_cons_self), ?_⟩
    exact ih fun x hx' => hx x (List.mem_cons_of_mem _ hx')

theorem map_scenario_eq {R : Slot K → Slot K → Prop} {xs ys : List (Slot K)}
    (h : List.Forall₂ R xs ys) (hR : ∀ x y, R x y → y.scenario = x.scenario) :
    ys.map (·.scenario) = xs.map (·.scenario) := by
  induction h with
  | nil => rfl
  | cons hxy _ ih => rw [List.map_cons, List.map_cons, hR _ _ hxy, ih]

/-! ## What transitions keep -/

/-- A new epoch of the second stage leaves nothing current. -/
theorem SlotConsistent.of_lt {q : Program σ K} {s : Slot K} (h : p.SlotConsistent s)
    (hlt : p.secondEpoch < q.secondEpoch) : q.SlotConsistent s :=
  ⟨fun m e hb => (h.epoch m e hb).trans hlt.le, fun m hb => absurd (h.epoch m _ hb) (not_le.2 hlt),
    h.weight⟩

/-- Building the first-stage model keeps a program in order: where the decisions change,
the second stage enters a new epoch. -/
theorem Consistent.installMaster (hp : p.Consistent) {r : FirstRecipe σ K} {m : Model K}
    (hr : p.firstRecipe = some r) (hm : r.Gives p.firstData m) :
    (installMaster m p).Consistent where
  firstPure := hp.firstPure
  secondPure := hp.secondPure
  masterEpoch := by
    intro m' e h
    cases h
    exact le_rfl
  master := by
    intro m' h
    cases h
    exact ⟨r, m, hr, hm, .refl m⟩
  handle := rfl
  workers := hp.workers
  slots := by
    intro s hs
    have hslot := hp.slots s hs
    by_cases hrenamed : (p.decisions.isSome && p.decisions ≠ some m.decisions) = true
    · refine hslot.of_lt ?_
      simp only [Program.installMaster, hrenamed, if_true]
      omega
    · have hepoch : (Program.installMaster m p).secondEpoch = p.secondEpoch := if_neg hrenamed
      refine ⟨fun m' e hb => hepoch ▸ hslot.epoch m' e hb, ?_, hslot.weight⟩
      intro m' hb
      rw [hepoch] at hb
      obtain ⟨r', d, m₀, hr', hd, hgives, hloaded⟩ := hslot.current m' hb
      -- A current subproblem knows the decisions, and they are the same as before.
      have hsame : d = m.decisions := by
        simpa [hd] using hrenamed
      exact ⟨r', m.decisions, m₀, hr', rfl, hsame ▸ hgives, hloaded⟩

/-- Loading results keeps a program in order. -/
theorem Consistent.install (hp : p.Consistent) (solution : Solution K)
    (results : List (SolveResult K)) (master : Option (SolveResult K)) :
    (p.install solution results master).Consistent := by
  have hslots : ∀ s ∈ (p.install solution results master).slots, p.SlotConsistent s :=
    forall_of_forall₂ (forall₂_loadPartitions p.partitions results) hp.slots
      fun s s' hloaded hs => hloaded.consistent hs
  have hworkers : loadPartitions p.partitions results ≠ [] := by
    intro hnil
    have hlength := length_loadPartitions p.partitions results
    rw [hnil] at hlength
    exact hp.workers (List.eq_nil_of_length_eq_zero hlength.symm)
  cases master with
  | none =>
    exact ⟨hp.firstPure, hp.secondPure, hp.masterEpoch, hp.master, hp.handle, hworkers,
      fun s hs => ⟨(hslots s hs).epoch, (hslots s hs).current, (hslots s hs).weight⟩⟩
  | some r =>
    refine ⟨hp.firstPure, hp.secondPure, ?_, ?_, ?_, hworkers,
      fun s hs => ⟨(hslots s hs).epoch, (hslots s hs).current, (hslots s hs).weight⟩⟩
    · intro m e hm
      obtain ⟨⟨m', e'⟩, hm', heq⟩ := Option.map_eq_some_iff.1 hm
      cases heq
      exact hp.masterEpoch m' _ hm'
    · intro m hm
      obtain ⟨⟨m', e'⟩, hm', heq⟩ := Option.map_eq_some_iff.1 hm
      cases heq
      obtain ⟨r', m₀, hr', hgives, hloaded⟩ := hp.master m' hm'
      exact ⟨r', m₀, hr', hgives, hloaded.load r⟩
    · show p.decisions = (p.master.map _).map _
      rw [hp.handle, Option.map_map]
      rfl

/-- Loading results keeps a program built. -/
theorem IsBuilt.install (hp : p.IsBuilt) (solution : Solution K)
    (results : List (SolveResult K)) (master : Option (SolveResult K)) :
    (p.install solution results master).IsBuilt where
  firstRecipe := hp.firstRecipe
  secondRecipe := hp.secondRecipe
  master := by
    obtain ⟨m, hm⟩ := hp.master
    cases master with
    | none => exact ⟨m, hm⟩
    | some r => exact ⟨m.load r, by simp [Program.install, hm]⟩
  slots := by
    refine forall_of_forall₂ (forall₂_loadPartitions p.partitions results) hp.slots ?_
    rintro s s' hloaded ⟨m, hm⟩
    cases hloaded with
    | kept => exact ⟨m, hm⟩
    | loaded r => exact ⟨m.load r, by rw [hm]; rfl⟩

theorem scenarios_install (p : Program σ K) (solution : Solution K)
    (results : List (SolveResult K)) (master : Option (SolveResult K)) :
    (p.install solution results master).scenarios = p.scenarios :=
  map_scenario_eq (forall₂_loadPartitions p.partitions results) fun _ _ h => h.scenario_eq

variable [Host σ K] {p' : Program σ K}

/-- Every transition keeps a program in order. -/
theorem Transition.consistent (h : Transition p p') (hp : p.Consistent) : p'.Consistent := by
  have hlater : ∀ (m : Model K), p.master ≠ some (m, p.firstEpoch + 1) := fun m hm => by
    have hle := hp.masterEpoch m _ hm
    omega
  -- What moves an epoch on leaves models of earlier epochs behind, none of which is current.
  cases h with
  | firstData value =>
    exact ⟨hp.firstPure, hp.secondPure, fun m e hm => (hp.masterEpoch m e hm).trans (by simp),
      fun m hm => absurd hm (hlater m), hp.handle, hp.workers, fun s hs =>
        ⟨(hp.slots s hs).epoch, (hp.slots s hs).current, (hp.slots s hs).weight⟩⟩
  | secondData value =>
    exact ⟨hp.firstPure, hp.secondPure, hp.masterEpoch, hp.master, hp.handle, hp.workers,
      fun s hs => (hp.slots s hs).of_lt (by simp)⟩
  | firstRecipe hr =>
    refine ⟨?_, hp.secondPure, fun m e hm => (hp.masterEpoch m e hm).trans (by simp),
      fun m hm => absurd hm (hlater m), hp.handle, hp.workers, fun s hs =>
        ⟨(hp.slots s hs).epoch, (hp.slots s hs).current, (hp.slots s hs).weight⟩⟩
    rintro r ⟨⟩
    exact hr
  | secondRecipe hr =>
    refine ⟨hp.firstPure, ?_, hp.masterEpoch, hp.master, hp.handle, hp.workers,
      fun s hs => (hp.slots s hs).of_lt (by simp)⟩
    rintro r ⟨⟩
    exact hr
  | noted schema generated =>
    exact ⟨hp.firstPure, hp.secondPure, hp.masterEpoch, hp.master, hp.handle, hp.workers,
      fun s hs => ⟨(hp.slots s hs).epoch, (hp.slots s hs).current, (hp.slots s hs).weight⟩⟩
  | master hr hstale hm => exact hp.installMaster hr hm
  | subproblems hr hd hworkers hslots =>
    refine ⟨hp.firstPure, hp.secondPure, hp.masterEpoch, hp.master, hp.handle, hworkers, ?_⟩
    refine forall_of_forall₂ hslots hp.slots fun s s' hbuilt hs => ?_
    have hs' := hbuilt.consistent hr hd hs
    exact ⟨hs'.epoch, hs'.current, hs'.weight⟩
  | spread hworkers hslots =>
    refine ⟨hp.firstPure, hp.secondPure, hp.masterEpoch, hp.master, hp.handle, hworkers, ?_⟩
    intro s hs
    have hs' := hp.slots s (hslots ▸ hs)
    exact ⟨hs'.epoch, hs'.current, hs'.weight⟩
  | scenarios hworkers hslots hchange =>
    refine ⟨hp.firstPure, hp.secondPure, hp.masterEpoch, hp.master, hp.handle, hworkers, ?_⟩
    intro s hs
    have hs' := (hslots s hs).consistent hp.slots
    exact ⟨hs'.epoch, hs'.current, hs'.weight⟩
  | solved results master generated hcurrent hnonempty hcomputes => exact hp.install _ results master

/-- Every transition keeps the solution current, or drops it. -/
theorem Transition.invariant (h : Transition p p') (hp : p.Invariant) : p'.Invariant := by
  refine ⟨h.consistent hp.toConsistent, fun s hs => ?_⟩
  cases h with
  | firstData | secondData | firstRecipe | secondRecipe | scenarios => cases hs
  | noted schema generated =>
    have hsolved := hp.solution s hs
    have hbuilt := hsolved.isBuilt
    exact hsolved.transfer ⟨rfl, rfl, rfl, rfl, rfl, rfl⟩
      ⟨hbuilt.firstRecipe, hbuilt.secondRecipe, hbuilt.master, hbuilt.slots⟩
  | master hr hstale hm =>
    obtain ⟨m, hm⟩ := (hp.solution s hs).isBuilt.master
    exact nomatch hstale.symm.trans (currentMaster?_eq_some.2 hm)
  | subproblems hr hd hworkers hslots =>
    -- Where everything is built already, no slot is touched.
    have hsolved := hp.solution s hs
    have hbuilt := hsolved.isBuilt
    refine hsolved.transfer ⟨rfl, rfl, rfl, rfl, rfl, ?_⟩
      ⟨hbuilt.firstRecipe, hbuilt.secondRecipe, hbuilt.master, ?_⟩
    · exact (map_scenario_eq hslots fun _ _ h => h.scenario_eq).symm
    · refine forall_of_forall₂ hslots hbuilt.slots ?_
      rintro s s' hslot ⟨m, hm⟩
      exact ⟨m, (hslot.eq_of_current hm).symm ▸ hm⟩
  | spread hworkers hslots =>
    have hsolved := hp.solution s hs
    have hbuilt := hsolved.isBuilt
    refine hsolved.transfer ⟨rfl, rfl, rfl, rfl, rfl, ?_⟩
      ⟨hbuilt.firstRecipe, hbuilt.secondRecipe, hbuilt.master, fun s hs => ?_⟩
    · exact (congrArg (List.map (·.scenario)) hslots).symm
    · exact hbuilt.slots s (hslots ▸ hs)
  | solved results master generated hcurrent hnonempty hcomputes =>
    cases hs
    have hbuilt := isBuilt_of_not_isDeferred hcurrent
    have hsolved : p.SolutionFresh s := by
      refine ⟨hcurrent, hnonempty, { p with generatedEpoch := generated },
        ⟨rfl, rfl, rfl, rfl, rfl, rfl⟩, ?_, ?_, hcomputes⟩
      · exact IsBuilt.isDeferred_eq_false
          ⟨hbuilt.firstRecipe, hbuilt.secondRecipe, hbuilt.master, hbuilt.slots⟩ hnonempty
      · exact ((Transition.noted p p.schema generated).consistent hp.toConsistent).modelsFresh
    exact hsolved.transfer ⟨rfl, rfl, rfl, rfl, rfl, (scenarios_install _ _ _ _).symm⟩
      (hbuilt.install _ results master)

/-! ## Sequences of transitions -/

/-- Any number of transitions. -/
def Transitions (p p' : Program σ K) : Prop := Relation.ReflTransGen Transition p p'

theorem Transitions.refl (p : Program σ K) : Transitions p p := Relation.ReflTransGen.refl

theorem Transitions.trans {p'' : Program σ K} (h : Transitions p p') (h' : Transitions p' p'') :
    Transitions p p'' := Relation.ReflTransGen.trans h h'

theorem Transition.single (h : Transition p p') : Transitions p p' := Relation.ReflTransGen.single h

theorem Transitions.consistent (h : Transitions p p') (hp : p.Consistent) : p'.Consistent := by
  induction h with
  | refl => exact hp
  | tail _ h ih => exact h.consistent ih

theorem Transitions.invariant (h : Transitions p p') (hp : p.Invariant) : p'.Invariant := by
  induction h with
  | refl => exact hp
  | tail _ h ih => exact h.invariant ih

end Program

end Recourse
