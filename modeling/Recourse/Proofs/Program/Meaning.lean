/-
  Proofs/Program/Meaning.lean --- what two-stage programs mean.

  A program weighs the recourse to every scenario.  A plan is a decision together with
  a point for every scenario; it is feasible when the decision fits the first stage and
  each point fits its recourse at the decision.  `Program.Coherent` and `Program.Proper`
  say that the models a program was built from are coherent and proper, which is what
  recipes give.
-/
import Recourse.Program.Generate
import Recourse.Proofs.Model.Form

set_option autoImplicit false
set_option linter.unusedSectionVars false

open scoped BigOperators

namespace Recourse

namespace Program

/-! ## What is current -/

section Current

variable {σ K : Type}

theorem exists_firstRecipe_of_not_isDeferred {p : Program σ K} (h : p.isDeferred = false) :
    ∃ r, p.firstRecipe = some r := by
  cases hr : p.firstRecipe with
  | some r => exact ⟨r, rfl⟩
  | none => simp [isDeferred, firstState, hr] at h

theorem exists_secondRecipe_of_not_isDeferred {p : Program σ K} (h : p.isDeferred = false) :
    ∃ r, p.secondRecipe = some r := by
  cases hr : p.secondRecipe with
  | some r => exact ⟨r, rfl⟩
  | none => simp [isDeferred, secondState, hr] at h

theorem currentMaster?_of_not_isDeferred {p : Program σ K} (h : p.isDeferred = false) :
    ∃ m, p.currentMaster? = some m := by
  have hfirst : p.firstState = .generated := by
    unfold isDeferred at h
    rw [Bool.not_eq_false', Bool.and_eq_true, beq_iff_eq] at h
    exact h.1
  unfold firstState at hfirst
  unfold currentMaster?
  split at hfirst
  · cases hfirst
  · cases hm : p.master with
    | none => simp [hm] at hfirst
    | some m =>
      obtain ⟨m, e⟩ := m
      rw [hm] at hfirst
      by_cases he : e = p.firstEpoch
      · exact ⟨m, by simp [he]⟩
      · simp [he] at hfirst

theorem isCurrent_of_not_isDeferred {p : Program σ K} (h : p.isDeferred = false) :
    ∀ s ∈ p.slots, s.isCurrent p.secondEpoch = true := by
  have hsecond : p.secondState = .generated := by
    unfold isDeferred at h
    rw [Bool.not_eq_false', Bool.and_eq_true, beq_iff_eq, beq_iff_eq] at h
    exact h.2
  unfold secondState at hsecond
  intro s hs
  by_contra hnot
  have hany : p.slots.any (!·.isCurrent p.secondEpoch) = true :=
    List.any_eq_true.2 ⟨s, hs, by simpa using hnot⟩
  split at hsecond
  · cases hsecond
  · split at hsecond
    · cases hsecond
    · cases hsecond

theorem exists_built_of_isCurrent {s : Slot K} {epoch : Int} (h : s.isCurrent epoch = true) :
    ∃ m, s.built = some (m, epoch) := by
  unfold Slot.isCurrent at h
  cases hb : s.built with
  | none => simp [hb] at h
  | some b =>
    rw [hb] at h
    exact ⟨b.1, congrArg some (Prod.ext rfl (eq_of_beq h))⟩

/-- The partition and the local index of a global one. -/
theorem locateIn_spec (partitions : List (Partition K)) {i : Nat}
    (h : i < (partitions.flatMap (·.slots)).length) :
    ∃ q j, locateIn partitions i = some (q, j) ∧ q.slots[j]? = (partitions.flatMap (·.slots))[i]? := by
  induction partitions generalizing i with
  | nil => exact absurd h (Nat.not_lt_zero i)
  | cons q rest ih =>
    unfold locateIn
    by_cases hi : i < q.size
    · refine ⟨q, i, if_pos hi, ?_⟩
      rw [List.flatMap_cons, List.getElem?_append_left hi]
    · have hle : q.slots.length ≤ i := not_lt.1 hi
      rw [List.flatMap_cons, List.length_append] at h
      obtain ⟨q', j, hlocate, hslot⟩ := ih (i := i - q.slots.length) (by omega)
      refine ⟨q', j, (if_neg hi).trans hlocate, ?_⟩
      rw [hslot, List.flatMap_cons, List.getElem?_append_right hle]

theorem slot_eq_ok {q : Partition K} {i : Int} {what : Indexed} {s : Slot K} :
    q.slot i what = .ok s ↔ 0 ≤ i ∧ q.slots[i.toNat]? = some s := by
  unfold Partition.slot
  by_cases hi : 0 ≤ i
  · rw [if_pos hi]
    cases q.slots[i.toNat]? <;> simp [hi]
  · simp [hi]

/-- A partition hands out the model in a slot, where it is of the epoch asked for. -/
theorem partition_subproblem_eq_ok {q : Partition K} {i epoch : Int} {m : Model K} :
    q.subproblem i epoch = .ok m ↔
      ∃ s, q.slot i .subproblem = .ok s ∧ s.built = some (m, epoch) := by
  unfold Partition.subproblem
  cases hslot : q.slot i .subproblem with
  | error f => simp [bind, Except.bind]
  | ok s =>
    rcases hbuilt : s.built with _ | ⟨m', e⟩
    · simp [bind, Except.bind, hbuilt, throw, throwThe, MonadExceptOf.throw]
    · by_cases he : e = epoch <;>
        simp [bind, Except.bind, hbuilt, he, pure, Except.pure, throw, throwThe, MonadExceptOf.throw]

variable [Scalar K] {p : Program σ K}

/-- A scenario is located in a partition that has its slot. -/
theorem exists_locate {i : Nat} (hi : i < p.slots.length) :
    ∃ q j, p.locate (.ofInt i) = .ok (q, j) ∧ q.slots[j]? = some p.slots[i] := by
  obtain ⟨q, j, hlocate, hslot⟩ := locateIn_spec p.partitions hi
  have hindex : (Setting.ofInt (i : Int) : Setting K).integer? = some (i : Int) := rfl
  have hnonneg : ¬ (i : Int) < 0 := not_lt.2 (Int.natCast_nonneg i)
  refine ⟨q, j, ?_, hslot.trans (List.getElem?_eq_getElem hi)⟩
  simp only [locate, hindex, if_neg hnonneg, Int.toNat_natCast, hlocate]

/-- The subproblem of a scenario is handed out where the one in its slot is current. -/
theorem subproblemAt_eq_ok {i : Nat} (hi : i < p.slots.length) {m : Model K} :
    p.subproblemAt i = .ok m ↔ p.slots[i].built = some (m, p.secondEpoch) := by
  obtain ⟨q, j, hlocate, hslot⟩ := exists_locate hi
  unfold subproblemAt subproblem
  rw [hlocate]
  show q.subproblem j p.secondEpoch = .ok m ↔ _
  rw [partition_subproblem_eq_ok]
  constructor
  · rintro ⟨s, hs, hbuilt⟩
    obtain ⟨-, hs⟩ := slot_eq_ok.1 hs
    rw [Int.toNat_natCast, hslot] at hs
    rw [Option.some.inj hs, hbuilt]
  · exact fun hbuilt => ⟨_, slot_eq_ok.2 ⟨Int.natCast_nonneg j, hslot⟩, hbuilt⟩

end Current

/-! ## Stages -/

variable {F : Type} [Field F] [LinearOrder F] [IsStrictOrderedRing F] [FloorRing F]

section Stages

variable {σ : Type} (p : Program σ (Exact F))

/-- The first-stage model, an empty one where it is not current. -/
def firstStage : Model (Exact F) := p.currentMaster?.getD default

/-- The model of a scenario, an empty one where there is none. -/
def recourse (i : Nat) : Model (Exact F) := (p.slots[i]?.bind (·.model?)).getD default

/-- The weight of a scenario. -/
def weight (i : Nat) : F := coord p.probabilities i

/-- A decision that fits the first stage, with a point for every scenario that fits its
recourse there. -/
@[mk_iff]
structure Feasible (x : Nat → F) (y : Nat → Nat → F) : Prop where
  /-- The decision fits the first stage. -/
  first : p.firstStage.Fits x x
  /-- The points fit the recourse. -/
  second : ∀ i < p.scenarioCount, (p.recourse i).Fits x (y i)

instance decidableFeasible (x : Nat → F) (y : Nat → Nat → F) : Decidable (p.Feasible x y) :=
  decidable_of_iff _ (feasible_iff p x y).symm

/-- The value of a plan: that of the decision and the expected one of the recourse. -/
def valueAt (x : Nat → F) (y : Nat → Nat → F) : F :=
  p.firstStage.objectiveAt x +
    ∑ i ∈ Finset.range p.scenarioCount, p.weight i * (p.recourse i).objectiveAt (y i)

/-- The value of a plan, turned into minimization. -/
def lossAt (x : Nat → F) (y : Nat → Nat → F) : F := p.firstStage.goal.factor * p.valueAt x y

/-- The models of a program mention their own columns only, the first stage has no
placeholders, every recourse has one for each decision or none, and the probabilities
are numbers. -/
@[mk_iff]
structure Coherent : Prop where
  /-- The first stage is coherent. -/
  first : p.firstStage.Coherent
  /-- It refers to no decisions but its own columns. -/
  own : p.firstStage.decisionCount = 0
  /-- Every recourse is coherent. -/
  second : ∀ i < p.scenarioCount, (p.recourse i).Coherent
  /-- It refers to all decisions or to none. -/
  placeholders : ∀ i < p.scenarioCount, (p.recourse i).decisionCount = 0 ∨
    (p.recourse i).decisionCount = p.firstStage.columns.length
  /-- Every probability is a number. -/
  probabilities : ∀ s ∈ p.scenarios, Scalar.isFinite s.probability = true

instance decidableCoherent : Decidable p.Coherent := decidable_of_iff _ (coherent_iff p).symm

/-- The models of a program are proper, the first stage has no placeholders, every
recourse has one for each decision or none, and the weights are not negative. -/
@[mk_iff]
structure Proper : Prop where
  /-- The first stage is proper. -/
  first : p.firstStage.Proper
  /-- It refers to no decisions but its own columns. -/
  own : p.firstStage.decisionCount = 0
  /-- Every recourse is proper. -/
  second : ∀ i < p.scenarioCount, (p.recourse i).Proper
  /-- It refers to all decisions or to none. -/
  placeholders : ∀ i < p.scenarioCount, (p.recourse i).decisionCount = 0 ∨
    (p.recourse i).decisionCount = p.firstStage.columns.length
  /-- Every probability is a number, and not negative. -/
  probabilities : ∀ s ∈ p.scenarios, Scalar.isFinite s.probability = true ∧
    0 ≤ s.probability.value

instance decidableProper : Decidable p.Proper := decidable_of_iff _ (proper_iff p).symm

/-- What solvers require of a program: everything is built, there are scenarios, and all
objectives run the same way. -/
structure Solvable : Prop where
  /-- Everything is built. -/
  current : p.isDeferred = false
  /-- There is a scenario. -/
  nonempty : 0 < p.scenarioCount
  /-- The probabilities sum to one. -/
  total : isTotal p.totalProbability = true
  /-- All objectives have the sense of the first stage. -/
  goals : ∀ i < p.scenarioCount, (p.recourse i).goal = p.firstStage.goal

end Stages

variable {σ : Type} {p : Program σ (Exact F)}

theorem stageOneModel_eq (h : p.isDeferred = false) : p.stageOneModel = .ok p.firstStage := by
  obtain ⟨m, hm⟩ := currentMaster?_of_not_isDeferred h
  rw [stageOneModel, firstStage, hm]
  rfl

/-- The slot of a scenario of a program that is built. -/
theorem exists_slot (h : p.isDeferred = false) {i : Nat} (hi : i < p.scenarioCount) :
    ∃ s, p.slots[i]? = some s ∧ s.built = some (p.recourse i, p.secondEpoch) := by
  have hi : i < p.slots.length := hi
  obtain ⟨m, hm⟩ := exists_built_of_isCurrent
    (isCurrent_of_not_isDeferred h _ (List.getElem_mem hi))
  refine ⟨p.slots[i], List.getElem?_eq_getElem hi, ?_⟩
  have hrecourse : p.recourse i = m := by
    simp [recourse, List.getElem?_eq_getElem hi, Slot.model?, hm]
  rw [hm, hrecourse]

theorem subproblemAt_eq (h : p.isDeferred = false) {i : Nat} (hi : i < p.scenarioCount) :
    p.subproblemAt i = .ok (p.recourse i) := by
  obtain ⟨s, hs, hbuilt⟩ := exists_slot h hi
  obtain ⟨hi', rfl⟩ := List.getElem?_eq_some_iff.1 hs
  exact (subproblemAt_eq_ok hi').2 hbuilt

theorem subproblems_eq (h : p.isDeferred = false) :
    p.subproblems = .ok ((List.range p.scenarioCount).map p.recourse) :=
  mapM_eq_ok _ fun _ hi => subproblemAt_eq h (List.mem_range.1 hi)

theorem length_probabilities (p : Program σ (Exact F)) :
    p.probabilities.length = p.scenarioCount := by
  simp [probabilities, scenarios, scenarioCount]

theorem Proper.coherent (hp : p.Proper) : p.Coherent :=
  ⟨hp.first.coherent, hp.own, fun i hi => (hp.second i hi).coherent, hp.placeholders,
    fun s hs => (hp.probabilities s hs).1⟩

/-- The placeholders of a recourse stand for decisions there are. -/
theorem Coherent.decisionCount_le (hp : p.Coherent) {i : Nat} (hi : i < p.scenarioCount) :
    (p.recourse i).decisionCount ≤ p.firstStage.columns.length := by
  rcases hp.placeholders i hi with h | h <;> omega

theorem Proper.weight_nonneg (hp : p.Proper) (i : Nat) : 0 ≤ p.weight i := by
  by_cases hi : i < p.probabilities.length
  · rw [weight, coord, List.getD_eq_getElem _ _ hi]
    obtain ⟨s, hs, hprobability⟩ := List.mem_map.1 (List.getElem_mem hi)
    rw [← hprobability]
    exact (hp.probabilities s hs).2
  · rw [weight, coord_of_length_le (not_lt.1 hi)]

/-- The probability of the scenario in a slot. -/
theorem Proper.probability_eq (hp : p.Proper) {i : Nat} {s : Slot (Exact F)}
    (hs : p.slots[i]? = some s) : s.scenario.probability = .finite (p.weight i) := by
  have hget : p.probabilities[i]? = some s.scenario.probability := by
    rw [Program.probabilities, Program.scenarios, List.getElem?_map, List.getElem?_map, hs]
    rfl
  have hmem : s.scenario ∈ p.scenarios :=
    List.mem_map.2 ⟨s, List.mem_of_getElem? hs, rfl⟩
  rw [weight, coord, List.getD_eq_getElem?_getD, hget, Option.getD_some,
    Exact.finite_value (hp.probabilities _ hmem).1]

/-- The loss of a plan is that of the decision and the expected one of the recourse. -/
theorem Solvable.lossAt_eq (h : p.Solvable) (x : Nat → F) (y : Nat → Nat → F) :
    p.lossAt x y = p.firstStage.lossAt x +
      ∑ i ∈ Finset.range p.scenarioCount, p.weight i * (p.recourse i).lossAt (y i) := by
  rw [lossAt, valueAt, mul_add, Finset.mul_sum]
  refine congrArg _ (Finset.sum_congr rfl ?_)
  intro i hi
  rw [Model.lossAt, h.goals i (Finset.mem_range.1 hi)]
  ring

/-- Fitting the first stage depends on the decisions there are. -/
theorem Coherent.fits_congr (hp : p.Coherent) {x x' : Nat → F}
    (hx : ∀ j < p.firstStage.columns.length, x j = x' j) (h : p.firstStage.Fits x x) :
    p.firstStage.Fits x' x' :=
  hp.first.fits_congr (fun j hj => absurd hj (by rw [hp.own]; exact Nat.not_lt_zero j)) hx h

theorem Proper.fits_congr (hp : p.Proper) {x x' : Nat → F}
    (hx : ∀ j < p.firstStage.columns.length, x j = x' j) (h : p.firstStage.Fits x x) :
    p.firstStage.Fits x' x' := hp.coherent.fits_congr hx h

/-! ## Programs given by their models -/

/-- A program whose recipes have built a first stage and weighed second stages. -/
def ofModels {K : Type} (first : Model K) (second : List (K × Model K)) : Program σ K where
  id := 0
  firstData := .null
  secondData := .null
  firstRecipe := some ⟨"first", fun _ => return .model first⟩
  secondRecipe := some ⟨"second", fun _ _ payload => return match payload with
    | .whole i => (second[i.toNat]?.map (.model ·.2)).getD (.value .null)
    | _ => .value .null⟩
  firstEpoch := 1
  secondEpoch := 1
  generatedEpoch := some 1
  master := some (first, 1)
  decisions := some first.decisions
  partitions := [⟨0, second.zipIdx.map fun s => ⟨⟨s.1.1, .whole s.2, none⟩, some (s.1.2, 1)⟩⟩]
  transport := .sequential
  schema := none
  solver := none
  normalize := false
  solution := none

end Program

end Recourse
