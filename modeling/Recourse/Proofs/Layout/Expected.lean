/-
  Proofs/Layout/Expected.lean --- the expected scenario in every layout.

  Each partition reduces its own scenarios, and the results are reduced again, weighed by
  the masses of the partitions.  Partitions without mass are passed over, so that it is the
  scenarios of the others that count.  What the two reductions come to is what these
  scenarios fold to (`expectedPayload_folds`).  Hence two distributions of the same scenarios
  give the same expected scenario, unless one of them passes over what would make a
  difference (`expectedScenario_regrouped`).
-/
import Recourse.Evaluation.Values
import Recourse.Proofs.Layout.Relaid
import Recourse.Proofs.Payload.Folding
import Recourse.Proofs.Program.Purity
import Mathlib.Data.Rat.Floor

set_option autoImplicit false
set_option linter.unusedSectionVars false

namespace Recourse

variable {σ : Type}

section Reduction

variable {K : Type} [Scalar K]

namespace Program

/-- The partitions that have a mass. -/
def heavyPartitions (p : Program σ K) : List (Partition K) :=
  p.partitions.filter fun q => !Scalar.atMost q.mass 0

/-- The scenarios that count. -/
def counted (p : Program σ K) : List (Scenario K) := p.heavyPartitions.flatMap (·.scenarios)

/-- The scenarios that are passed over, with their partitions. -/
def passedOver (p : Program σ K) : List (Scenario K) :=
  (p.partitions.filter fun q => Scalar.atMost q.mass 0).flatMap (·.scenarios)

/-- The masses and the payloads of the partitions that have a mass. -/
def reduced (partials : List (K × Option (Value K))) : List (K × Value K) :=
  partials.filterMap fun r => if Scalar.less 0 r.1 then r.2.map (r.1, ·) else none

theorem reduced_none (x : K) (rs : List (K × Option (Value K))) :
    reduced ((x, none) :: rs) = reduced rs := by
  rw [reduced, List.filterMap_cons_none (by exact ite_self _), reduced]

theorem reduced_some {x : K} (h : Scalar.less 0 x = true) (v : Value K)
    (rs : List (K × Option (Value K))) : reduced ((x, some v) :: rs) = (x, v) :: reduced rs := by
  rw [reduced, List.filterMap_cons_some (by exact if_pos h), reduced]

/-- The payload of the expected scenario. -/
def expectedPayload (p : Program σ K) : Except (Fault K) (Value K) := do
  if p.scenarioCount = 0 then throw (.probability .noScenarios)
  let parts := reduced (← p.partitions.mapM (·.partialExpectation))
  let total := Scalar.sum (parts.map (·.1))
  if Scalar.atMost total 0 then throw (.probability .noMass)
  Value.expectation (parts.map (·.2)) (parts.map (·.1 / total))

/-- The scenario with an expected payload. -/
def expectedAs (data : Value K) : Scenario K := ⟨1, data, some "expected"⟩

end Program

end Reduction

variable {F : Type} [Field F] [LinearOrder F] [IsStrictOrderedRing F] [FloorRing F]

theorem Exact.isWeight_one : Scalar.isWeight (1 : Exact F) = true :=
  (Exact.isWeight_iff _).2 ⟨1, rfl, zero_le_one, le_rfl⟩

theorem Scenario.make_expected (data : Value (Exact F)) :
    make (.real 1) data (some "expected") = .ok (Program.expectedAs data) :=
  make_eq (p := .real 1) Exact.isWeight_one data _

theorem Scenario.ofExcept_make_expected (r : Except (Fault (Exact F)) (Value (Exact F))) :
    (Act.ofExcept r >>= fun data => Act.ofExcept (make (.real 1) data (some "expected")) :
      Act σ (Exact F) (Scenario (Exact F))) = .ofExcept (r.map Program.expectedAs) := by
  cases r with
  | error f => rfl
  | ok data => rw [Except.map, ← make_expected]; rfl

/-- Scenarios with a mass are folded with their shares in it. -/
theorem Scenario.expected_eq {L : List (Scenario (Exact F))} (h : Heavy L) :
    expected L (some "expected") =
      (Value.expectation (payloads L) (shares L)).map Program.expectedAs := by
  have hne : ¬L.isEmpty = true := by rw [List.isEmpty_iff]; exact h.ne_nil
  have hmass : ¬Scalar.atMost (mass L) 0 = true := by rw [h]; exact Bool.false_ne_true
  unfold expected
  rw [if_neg hne]
  dsimp only
  rw [if_neg hmass]
  show (Value.expectation (payloads L) (shares L) >>= fun data =>
    make (.real 1) data (some "expected")) = _
  cases Value.expectation (payloads L) (shares L) with
  | error f => rfl
  | ok data => exact make_expected data

namespace Program

variable {p q : Program σ (Exact F)}

/-- The expected scenario has the expected payload, and finding it has no effects. -/
theorem expectedScenario_eq (p : Program σ (Exact F)) :
    p.expectedScenario = .ofExcept (p.expectedPayload.map expectedAs) := by
  unfold expectedScenario expectedPayload
  rw [Transport.map_ofExcept]
  split
  · rfl
  · cases p.partitions.mapM (·.partialExpectation) with
    | error f => rfl
    | ok partials =>
      show (if Scalar.atMost (Scalar.sum ((reduced partials).map (·.1))) 0 = true then _ else _) =
        Act.ofExcept (Except.map expectedAs (if Scalar.atMost (Scalar.sum
          ((reduced partials).map (·.1))) 0 = true then _ else _))
      split
      · rfl
      · exact Scenario.ofExcept_make_expected _

/-! ## What the reductions come to -/

theorem Weighted.scenarios (hp : p.Weighted) {q : Partition (Exact F)} (hq : q ∈ p.partitions) :
    Scenario.Weighted q.scenarios := by
  intro s hs
  obtain ⟨slot, hslot, rfl⟩ := List.mem_map.1 hs
  exact hp slot (List.mem_flatMap.2 ⟨q, hq, hslot⟩)

theorem Weighted.counted (hp : p.Weighted) : Scenario.Weighted p.counted := by
  intro s hs
  obtain ⟨q, hq, hs⟩ := List.mem_flatMap.1 hs
  exact hp.scenarios (List.mem_filter.1 hq).1 s hs

theorem mem_heavyPartitions {q : Partition (Exact F)} :
    q ∈ p.heavyPartitions ↔ q ∈ p.partitions ∧ Scenario.Heavy q.scenarios := by
  rw [heavyPartitions, List.mem_filter, Bool.not_eq_true']
  rfl

/-- Every scenario counts or is passed over. -/
theorem counted_append_passedOver (p : Program σ (Exact F)) :
    (p.counted ++ p.passedOver).Perm p.scenarios := by
  have hsplit := List.filter_append_perm (fun q : Partition (Exact F) => !Scalar.atMost q.mass 0)
    p.partitions
  simp only [Bool.not_not] at hsplit
  have hall : p.scenarios = p.partitions.flatMap (·.scenarios) := by
    rw [Program.scenarios, slots, List.map_flatMap]
    rfl
  rw [counted, passedOver, ← List.flatMap_append, hall]
  exact hsplit.flatMap_right _

theorem mem_scenarios_of_counted {s : Scenario (Exact F)} (hs : s ∈ p.counted) :
    s ∈ p.scenarios := p.counted_append_passedOver.mem_iff.1 (List.mem_append_left _ hs)

theorem massless_of_passedOver (hp : p.Weighted) {s : Scenario (Exact F)}
    (hs : s ∈ p.passedOver) : s.probability = 0 := by
  obtain ⟨q, hq, hs⟩ := List.mem_flatMap.1 hs
  obtain ⟨hq, hmass⟩ := List.mem_filter.1 hq
  have hlight : ¬Scenario.Heavy q.scenarios := fun h => Bool.false_ne_true (h.symm.trans hmass)
  exact Scenario.massless_of_light (hp.scenarios hq) hlight hs

/-- A partition without mass is passed over. -/
theorem partialExpectation_light {q : Partition (Exact F)} (h : ¬Scenario.Heavy q.scenarios) :
    q.partialExpectation = .ok (0, none) := by
  rw [Scenario.Heavy, Bool.not_eq_false] at h
  have hmass : Scalar.atMost q.mass 0 = true := h
  rw [Partition.partialExpectation, hmass, Bool.or_true, if_pos rfl]

/-- What a partition comes to: nothing without a mass, and otherwise its mass and what its
scenarios fold to. -/
def Reduces (q : Partition (Exact F)) (r : Exact F × Option (Value (Exact F))) : Prop :=
  (¬Scenario.Heavy q.scenarios ∧ r.2 = none) ∨
    (Scenario.Heavy q.scenarios ∧ ∃ e, r = (q.mass, some e) ∧ Scenario.FoldsTo q.scenarios e)

theorem partialExpectation_settles {q : Partition (Exact F)}
    (h : Scenario.Heavy q.scenarios → Scenario.Compatible q.scenarios) :
    Settles q.partialExpectation (Reduces q) fun f => Scenario.Heavy q.scenarios ∧
      ¬Value.Uniform (Scenario.payloads q.scenarios) ∧ ∃ t, f = .notExpectable t := by
  by_cases hheavy : Scenario.Heavy q.scenarios
  · have hne : q.scenarios ≠ [] := hheavy.ne_nil
    have hslots : ¬(q.slots.isEmpty || Scalar.atMost q.mass 0) = true := by
      have hmass : Scalar.atMost q.mass 0 = false := hheavy
      rw [hmass, Bool.or_false, List.isEmpty_iff]
      exact fun h => hne (by rw [Partition.scenarios, h]; rfl)
    have houtcome := (h hheavy).folds hheavy
    unfold Partition.partialExpectation
    rw [if_neg hslots, Scenario.expected_eq hheavy]
    generalize Value.expectation (Scenario.payloads q.scenarios) (Scenario.shares q.scenarios) = r
      at houtcome ⊢
    cases r with
    | error f => exact ⟨hheavy, houtcome⟩
    | ok e => exact .inr ⟨hheavy, e, rfl, houtcome⟩
  · rw [partialExpectation_light hheavy]
    exact .inl ⟨hheavy, rfl⟩

/-- The partitions that are not passed over, each with what its scenarios fold to. -/
theorem exists_parts {partitions : List (Partition (Exact F))}
    {partials : List (Exact F × Option (Value (Exact F)))}
    (h : List.Forall₂ Reduces partitions partials)
    (hweighted : ∀ q ∈ partitions, Scenario.Weighted q.scenarios) :
    ∃ parts : List (List (Scenario (Exact F)) × Value (Exact F)),
      reduced partials = parts.map (fun t => (Scenario.mass t.1, t.2)) ∧
      parts.map (·.1) =
        (partitions.filter fun q => !Scalar.atMost q.mass 0).map (·.scenarios) ∧
      ∀ t ∈ parts, Scenario.Heavy t.1 ∧ Scenario.FoldsTo t.1 t.2 := by
  induction h with
  | nil => exact ⟨[], rfl, rfl, fun _ h => (List.not_mem_nil h).elim⟩
  | @cons q r partitions partials hq _ ih =>
    rw [List.forall_mem_cons] at hweighted
    obtain ⟨parts, hreduced, hgroups, hparts⟩ := ih hweighted.2
    obtain ⟨hlight, hnone⟩ | ⟨hheavy, e, rfl, hfolds⟩ := hq
    · have hmass : Scalar.atMost q.mass 0 = true := by
        rwa [Scenario.Heavy, Bool.not_eq_false] at hlight
      refine ⟨parts, ?_, ?_, hparts⟩
      · obtain ⟨x, v⟩ := r
        obtain rfl : v = none := hnone
        rw [reduced_none, hreduced]
      · rw [hgroups, List.filter_cons_of_neg (by rw [hmass]; exact Bool.false_ne_true)]
    · have hmass : Scalar.atMost q.mass 0 = false := hheavy
      obtain ⟨m, hm, hm'⟩ := hheavy.exists_mass hweighted.1
      have hless : Scalar.less 0 q.mass = true := by
        rw [Partition.mass, hm', Exact.zero_eq, Exact.less_finite]
        exact decide_eq_true hm
      refine ⟨(q.scenarios, e) :: parts, ?_, ?_, List.forall_mem_cons.2 ⟨⟨hheavy, hfolds⟩, hparts⟩⟩
      · rw [reduced_some hless, hreduced]
        rfl
      · rw [List.map_cons, hgroups, List.filter_cons_of_pos (by rw [hmass]; rfl), List.map_cons]

/-- What the reductions come to is what the scenarios that count fold to. -/
theorem expectedPayload_folds (hp : p.Weighted) (hheavy : Scenario.Heavy p.counted)
    (hcompatible : Scenario.Compatible p.counted) : Scenario.Folds p.counted p.expectedPayload := by
  have hcounted {q : Partition (Exact F)} (hq : q ∈ p.partitions)
      (h : Scenario.Heavy q.scenarios) {s : Scenario (Exact F)} (hs : s ∈ q.scenarios) :
      s ∈ p.counted := List.mem_flatMap.2 ⟨q, mem_heavyPartitions.2 ⟨hq, h⟩, hs⟩
  have hcount : ¬p.scenarioCount = 0 := by
    obtain ⟨s, hs⟩ := List.exists_mem_of_ne_nil _ hheavy.ne_nil
    have hs := mem_scenarios_of_counted hs
    intro h
    rw [Program.scenarios, List.length_eq_zero_iff.1 h] at hs
    cases hs
  -- Where a partition refuses its payloads, those of all do not go together either.
  have hpartials := Settles.mapM p.partitions fun q hq =>
    (partialExpectation_settles fun h => hcompatible.of_subset fun _ => hcounted hq h).mono
      (fun _ h => h)
      (fun f hf => show ¬Value.Uniform (Scenario.payloads p.counted) ∧
          ∃ t, f = .notExpectable t from ⟨fun huniform => hf.2.1 (huniform.of_subset ?_), hf.2.2⟩)
  · unfold expectedPayload
    rw [if_neg hcount]
    refine Settles.bind (hpartials.mono (fun partials hreduces => ?_) fun _ h => h)
    obtain ⟨parts, hreduced, hgroups, hparts⟩ := exists_parts hreduces fun q hq => hp.scenarios hq
    have hall : parts.flatMap (·.1) = p.counted := by
      rw [List.flatMap_def, hgroups, ← List.flatMap_def]
      rfl
    have htotal : Scalar.sum ((reduced partials).map (·.1)) = Scenario.mass p.counted := by
      rw [hreduced, List.map_map, ← hall, Scenario.mass, List.map_flatMap, Exact.sum_flatMap]
      rfl
    have hpositive : ¬Scalar.atMost (Scalar.sum ((reduced partials).map (·.1))) 0 = true := by
      rw [htotal, hheavy]
      exact Bool.false_ne_true
    have hfolds := Scenario.folds_of_groups hparts (by rw [hall]; exact hp.counted)
      (by rw [hall]; exact hheavy) (by rw [hall]; exact hcompatible)
    dsimp only
    rw [if_neg hpositive, htotal, hreduced, List.map_map, List.map_map]
    rw [hall] at hfolds
    exact hfolds
  · intro v hv
    obtain ⟨s, hs, rfl⟩ := List.mem_map.1 hv
    exact List.mem_map.2 ⟨s, hcounted hq hf.1 hs, rfl⟩

/-- Without a mass there is nothing to fold. -/
theorem expectedPayload_refused (hp : p.Weighted) (hlight : ¬Scenario.Heavy p.counted) :
    ∃ cause, p.expectedPayload = .error (.probability cause) := by
  have hall : ∀ q ∈ p.partitions, ¬Scenario.Heavy q.scenarios := fun q hq h =>
    hlight (h.flatMap (mem_heavyPartitions.2 ⟨hq, h⟩) hp.counted)
  have hpartials : p.partitions.mapM (·.partialExpectation) =
      .ok (p.partitions.map fun _ => ((0 : Exact F), (none : Option (Value (Exact F))))) :=
    mapM_eq_ok _ fun q hq => partialExpectation_light (hall q hq)
  have hreduced : reduced (p.partitions.map fun _ =>
      ((0 : Exact F), (none : Option (Value (Exact F))))) = [] := by
    rw [reduced, List.filterMap_map, List.filterMap_eq_nil_iff]
    exact fun _ _ => ite_self _
  have hzero : Scalar.atMost (Scalar.sum ([] : List (Exact F))) 0 = true := by
    rw [Exact.sum_nil, Exact.zero_eq, Exact.atMost_finite]
    exact decide_eq_true le_rfl
  unfold expectedPayload
  split
  · exact ⟨.noScenarios, rfl⟩
  · rw [hpartials]
    show ∃ cause, (if Scalar.atMost (Scalar.sum ((reduced _).map (·.1))) 0 = true then _ else _) = _
    rw [hreduced, List.map_nil, if_pos hzero]
    exact ⟨.noMass, rfl⟩

/-! ## Two layouts -/

/-- Two expected scenarios with the same data, or two refusals of the same kind. -/
def SameExpected (r r' : Except (Fault (Exact F)) (Scenario (Exact F))) : Prop :=
  (∃ e e', r = .ok (expectedAs e) ∧ r' = .ok (expectedAs e') ∧ e.Same e') ∨
    (∃ t t', r = .error (.notExpectable t) ∧ r' = .error (.notExpectable t')) ∨
    ∃ cause cause', r = .error (.probability cause) ∧ r' = .error (.probability cause')

theorem Weighted.of_perm (hp : p.Weighted) (hperm : q.scenarios.Perm p.scenarios) :
    q.Weighted := by
  intro s hs
  obtain ⟨s', hs', heq⟩ := List.mem_map.1 (hperm.mem_iff.1 (List.mem_map.2 ⟨s, hs, rfl⟩))
  rw [← heq]
  exact hp s' hs'

/-- Nothing that makes a difference is passed over where every scenario without a probability
is harmless among those with one. -/
theorem regrouped_of_harmless (hp : p.Weighted) (hperm : q.scenarios.Perm p.scenarios)
    (h : ∀ s ∈ p.scenarios, s.probability = 0 →
      Scenario.Harmless (p.scenarios.filter fun s' => s'.probability ≠ 0) s) :
    Scenario.Regrouped p.counted q.counted := by
  have hharmless {r : Program σ (Exact F)} (hr : r.Weighted)
      (hrp : r.scenarios.Perm p.scenarios) : ∀ s ∈ r.passedOver, Scenario.Harmless r.counted s := by
    intro s hs
    have hmem := r.counted_append_passedOver.mem_iff.1 (List.mem_append_right _ hs)
    have hs' := h s (hrp.mem_iff.1 hmem) (massless_of_passedOver hr hs)
    obtain ⟨s', hkept, hlike⟩ := hs'.sameForm
    obtain ⟨hkept, hprobability⟩ := List.mem_filter.1 hkept
    have hkept := (r.counted_append_passedOver.trans hrp).mem_iff.2 hkept
    refine ⟨hs'.massless, hs'.finite, s', (List.mem_append.1 hkept).resolve_right fun hover => ?_,
      hlike⟩
    exact of_decide_eq_true hprobability (massless_of_passedOver hr hover)
  exact ⟨p.passedOver, q.passedOver, (p.counted_append_passedOver.trans hperm.symm).trans
    q.counted_append_passedOver.symm, hharmless hp (.refl _), hharmless (hp.of_perm hperm) hperm⟩

theorem expectedPayload_regrouped (hp : p.Weighted) (hq : q.Weighted)
    (hcompatible : Scenario.Compatible p.counted) (hcompatible' : Scenario.Compatible q.counted)
    (hcounted : Scenario.Regrouped p.counted q.counted) :
    SameExpected (p.expectedPayload.map expectedAs) (q.expectedPayload.map expectedAs) := by
  have hmass : Scenario.mass q.counted = Scenario.mass p.counted := hcounted.mass_eq
  by_cases hheavy : Scenario.Heavy p.counted
  · have hheavy' : Scenario.Heavy q.counted := by rwa [Scenario.Heavy, hmass]
    obtain ⟨e, e', he, he', hsame⟩ | ⟨t, t', ht, ht'⟩ := hcounted.alike hp.counted hheavy
      (expectedPayload_folds hp hheavy hcompatible) (expectedPayload_folds hq hheavy' hcompatible')
    · exact .inl ⟨e, e', by rw [he]; rfl, by rw [he']; rfl, hsame⟩
    · exact .inr (.inl ⟨t, t', by rw [ht]; rfl, by rw [ht']; rfl⟩)
  · obtain ⟨cause, hcause⟩ := expectedPayload_refused hp hheavy
    obtain ⟨cause', hcause'⟩ := expectedPayload_refused hq (by rwa [Scenario.Heavy, hmass])
    exact .inr (.inr ⟨cause, cause', by rw [hcause]; rfl, by rw [hcause']; rfl⟩)

/-- The expected scenario does not depend on the layout, and neither does the program that
holds it alone, unless one layout passes over what the other one counts and what is not
harmless there. -/
theorem expectedScenario_regrouped (hp : p.Weighted)
    (hrest : q = { p with partitions := q.partitions }) (hperm : q.scenarios.Perm p.scenarios)
    (hcompatible : Scenario.Compatible p.counted) (hcompatible' : Scenario.Compatible q.counted)
    (hcounted : Scenario.Regrouped p.counted q.counted) :
    ∃ r r', p.expectedScenario = .ofExcept r ∧ q.expectedScenario = .ofExcept r' ∧
      SameExpected r r' ∧ p.expectedProgram = (Act.ofExcept r >>= p.restricted) ∧
      q.expectedProgram = (Act.ofExcept r' >>= p.restricted) := by
  have hrestricted : q.restricted = p.restricted := by rw [hrest]; rfl
  refine ⟨_, _, p.expectedScenario_eq, q.expectedScenario_eq,
    expectedPayload_regrouped hp (hp.of_perm hperm) hcompatible hcompatible' hcounted, ?_, ?_⟩
  · rw [expectedProgram, expectedScenario_eq]
  · rw [expectedProgram, expectedScenario_eq, hrestricted]

/-! ### Examples -/

/-- Scenarios on workers. -/
def holding (schema : Schema) (workers : List (List (Scenario (Exact ℚ)))) :
    Program Unit (Exact ℚ) :=
  { ofModels default [] with
    schema := some schema
    partitions := workers.zipIdx.map fun w => ⟨w.2, w.1.map .ofScenario⟩ }

/-- A scenario with a probability. -/
def chance (probability : ℚ) (data : Value (Exact ℚ)) : Scenario (Exact ℚ) :=
  ⟨.finite probability, data, none⟩

/-- Prices on two workers, the second of which holds one that cannot occur. -/
def pricesApart : Program Unit (Exact ℚ) :=
  holding .number [[chance (1 / 4) (.real (.finite 1)), chance (3 / 4) (.real (.finite 2))],
    [chance 0 (.real (.finite 5))]]

/-- The same prices on two of three workers, where all of them count. -/
def pricesMixed : Program Unit (Exact ℚ) :=
  holding .number [[chance 0 (.real (.finite 5)), chance (3 / 4) (.real (.finite 2))], [],
    [chance (1 / 4) (.real (.finite 1))]]

theorem real_member? (x : Exact ℚ) (l : Value.Label) : (Value.real x).member? l = none :=
  Value.member?_of_empty rfl rfl l

theorem real_aligned (x y : Exact ℚ) : (Value.real x).Aligned (.real y) := by
  intro path a b ha hb
  obtain ⟨-, rfl⟩ := Value.part?_of_leaf (real_member? x) ha
  obtain ⟨-, rfl⟩ := Value.part?_of_leaf (real_member? y) hb
  exact ⟨⟨fun h => (by cases h), fun h => (by cases h)⟩, fun h => (by cases h), fun h => by cases h⟩

theorem real_sameForm (x y : Exact ℚ) : (Value.real x).SameForm (.real y) := by
  intro path
  cases path with
  | nil => rfl
  | cons l path => rw [Value.formAt_cons, Value.formAt_cons, real_member?, real_member?]

theorem compatible_of_real {L : List (Scenario (Exact ℚ))} (h : ∀ s ∈ L, ∃ x, s.data = .real x) :
    Scenario.Compatible L := by
  refine ⟨fun s hs => ?_, fun s hs s' hs' => ?_⟩
  · obtain ⟨x, hx⟩ := h s hs
    rw [hx]
    exact Value.proper_of_leaf trivial (real_member? x)
  · obtain ⟨x, hx⟩ := h s hs
    obtain ⟨y, hy⟩ := h s' hs'
    rw [hx, hy]
    exact real_aligned x y

theorem prices_scenarios : pricesApart.scenarios = [chance (1 / 4) (.real (.finite 1)),
    chance (3 / 4) (.real (.finite 2)), chance 0 (.real (.finite 5))] := rfl

theorem prices_perm : pricesMixed.scenarios.Perm pricesApart.scenarios :=
  List.reverse_perm pricesApart.scenarios

theorem prices_compatible : Scenario.Compatible pricesApart.scenarios := by
  rw [prices_scenarios]
  refine compatible_of_real ?_
  simp [chance]

theorem pricesApart_weighted : pricesApart.Weighted := by
  have hall : ∀ x ∈ pricesApart.slots.map (·.scenario.probability), Scalar.isWeight x = true := by
    decide +kernel
  exact List.forall_mem_map.1 hall

theorem prices_harmless : ∀ s ∈ pricesApart.scenarios, s.probability = 0 →
    Scenario.Harmless (pricesApart.scenarios.filter fun s' => s'.probability ≠ 0) s := by
  have hkept : pricesApart.scenarios.filter (fun s' => s'.probability ≠ 0) =
      [chance (1 / 4) (.real (.finite 1)), chance (3 / 4) (.real (.finite 2))] := by
    with_unfolding_all rfl
  rw [hkept, prices_scenarios]
  simp only [List.forall_mem_cons]
  refine ⟨fun h => absurd h (by decide +kernel), fun h => absurd h (by decide +kernel),
    fun _ => ⟨rfl, fun path x hx => ?_, _, List.mem_cons_self, real_sameForm _ _⟩,
    fun _ h => (List.not_mem_nil h).elim⟩
  cases path with
  | nil =>
    obtain rfl := List.mem_singleton.1 hx
    exact Exact.isFinite_finite 5
  | cons l path =>
    rw [chance, Value.numbersAt_of_not_member (real_member? _ l)] at hx
    cases hx

/-- Both layouts come to the same price. -/
theorem prices_expected : ∃ e,
    pricesApart.expectedScenario = .ofExcept (.ok (expectedAs (.real (.finite (7 / 4))))) ∧
    pricesMixed.expectedScenario = .ofExcept (.ok (expectedAs e)) ∧
    (Value.real (.finite (7 / 4))).Same e := by
  obtain ⟨r, r', hr, hr', hsame, -⟩ := expectedScenario_regrouped (q := pricesMixed)
    pricesApart_weighted rfl prices_perm
    (prices_compatible.of_subset fun _ => mem_scenarios_of_counted)
    (prices_compatible.of_subset fun _ hs => prices_perm.mem_iff.1 (mem_scenarios_of_counted hs))
    (regrouped_of_harmless pricesApart_weighted prices_perm prices_harmless)
  have hpayload : pricesApart.expectedPayload = .ok (.real (.finite (7 / 4))) := by
    with_unfolding_all rfl
  obtain rfl : r = .ok (expectedAs (.real (.finite (7 / 4)))) := by
    rw [expectedScenario_eq, hpayload] at hr
    exact (Act.ofExcept_injective ⟨(), [], 0⟩ hr).symm
  obtain ⟨e, e', he, rfl, hsame⟩ | ⟨_, _, h, -⟩ | ⟨_, _, h, -⟩ := hsame
  · cases he
    exact ⟨e', hr, hr', hsame⟩
  · cases h
  · cases h

/-- Two layouts of scenarios that a program accepts give different expected scenarios. -/
structure Disagree (p q : Program σ (Exact F))
    (r r' : Except (Fault (Exact F)) (Value (Exact F))) : Prop where
  /-- The scenarios are the same, in the same order. -/
  relaid : p.Relaid q
  /-- The probabilities are weights. -/
  weighted : p.Weighted
  /-- The payloads are well made and fit. -/
  accepted : ∀ s ∈ p.scenarios,
    s.data.Proper ∧ ∃ schema, p.schema = some schema ∧ schema.accepts s.data = true
  /-- What one layout comes to. -/
  outcome : p.expectedScenario = .ofExcept (r.map expectedAs)
  /-- What the other layout comes to. -/
  outcome' : q.expectedScenario = .ofExcept (r'.map expectedAs)
  /-- This is neither the same data nor an error of the same kind. -/
  differ : ¬SameExpected (r.map expectedAs) (r'.map expectedAs)

theorem not_sameExpected_of_error {cause : Fault (Exact F)} {e : Value (Exact F)} :
    ¬SameExpected (.error cause) (.ok (expectedAs e)) ∧
      ¬SameExpected (.ok (expectedAs e)) (.error cause) := by
  constructor
  · rintro (⟨_, _, h, -⟩ | ⟨_, _, -, h⟩ | ⟨_, _, -, h⟩) <;> cases h
  · rintro (⟨_, _, -, h, -⟩ | ⟨_, _, h, -⟩ | ⟨_, _, h, -⟩) <;> cases h

/-- A payload without members fits. -/
def FitsAlone (schema : Schema) (v : Value (Exact ℚ)) : Prop :=
  v.WellMade ∧ v.items = [] ∧ v.entries = [] ∧ schema.accepts v = true

/-- Two scenarios on one worker or on two. -/
theorem disagree_of_pair {schema : Schema} {s s' : Scenario (Exact ℚ)}
    {r r' : Except (Fault (Exact ℚ)) (Value (Exact ℚ))}
    (hs : Scalar.isWeight s.probability = true ∧ FitsAlone schema s.data)
    (hs' : Scalar.isWeight s'.probability = true ∧ FitsAlone schema s'.data)
    (hr : (holding schema [[s, s']]).expectedPayload = r)
    (hr' : (holding schema [[s], [s']]).expectedPayload = r')
    (hdiffer : ¬SameExpected (r.map expectedAs) (r'.map expectedAs)) :
    Disagree (holding schema [[s, s']]) (holding schema [[s], [s']]) r r' where
  relaid := ⟨rfl, rfl⟩
  weighted := by
    have hslots : (holding schema [[s, s']]).slots = [.ofScenario s, .ofScenario s'] := rfl
    rw [Program.Weighted, hslots]
    exact List.forall_mem_cons.2 ⟨hs.1, List.forall_mem_singleton.2 hs'.1⟩
  accepted := by
    have hall : (holding schema [[s, s']]).scenarios = [s, s'] := rfl
    have haccepted {v : Value (Exact ℚ)} (h : FitsAlone schema v) : v.Proper ∧
        ∃ schema', (holding schema [[s, s']]).schema = some schema' ∧ schema'.accepts v = true :=
      ⟨Value.proper_of_leaf h.1 (Value.member?_of_empty h.2.1 h.2.2.1), schema, rfl, h.2.2.2⟩
    rw [hall]
    exact List.forall_mem_cons.2
      ⟨haccepted hs.2, List.forall_mem_singleton.2 (haccepted hs'.2)⟩
  outcome := by rw [expectedScenario_eq, hr]
  outcome' := by rw [expectedScenario_eq, hr']
  differ := hdiffer

/-- A truth value that cannot occur is refused where it counts.  An array of texts is read as
numbers where it comes after an array of numbers, and refused on its own.  An infinity that
cannot occur leaves nothing defined where it counts. -/
theorem expectedScenario_disagree :
    Disagree (holding .number [[chance 1 (.real (.finite 1)), chance 0 (.flag true)]])
        (holding .number [[chance 1 (.real (.finite 1))], [chance 0 (.flag true)]])
        (.error (.notExpectable "float")) (.ok (.real (.finite 1))) ∧
      Disagree
        (holding (.kind .array)
          [[chance (1 / 2) (.array [1] [.finite 1]), chance (1 / 2) (.textArray ["3"])]])
        (holding (.kind .array)
          [[chance (1 / 2) (.array [1] [.finite 1])], [chance (1 / 2) (.textArray ["3"])]])
        (.ok (.array [1] [.finite 2])) (.error (.notExpectable "ndarray")) ∧
      Disagree (holding .number [[chance 1 (.real (.finite 1)), chance 0 (.real .plusInfinity)]])
        (holding .number [[chance 1 (.real (.finite 1))], [chance 0 (.real .plusInfinity)]])
        (.ok (.real .undefined)) (.ok (.real (.finite 1))) := by
  have hweight : Scalar.isWeight (chance 1 .null).probability = true ∧
      Scalar.isWeight (chance 0 .null).probability = true ∧
      Scalar.isWeight (chance (1 / 2) .null).probability = true := by decide +kernel
  obtain ⟨hone, hzero, hhalf⟩ := hweight
  refine ⟨disagree_of_pair ⟨hone, trivial, rfl, rfl, rfl⟩ ⟨hzero, trivial, rfl, rfl, rfl⟩
      (by with_unfolding_all rfl) (by with_unfolding_all rfl) not_sameExpected_of_error.1,
    disagree_of_pair ⟨hhalf, rfl, rfl, rfl, rfl⟩ ⟨hhalf, trivial, rfl, rfl, rfl⟩
      (by with_unfolding_all rfl) (by with_unfolding_all rfl) not_sameExpected_of_error.2,
    disagree_of_pair ⟨hone, trivial, rfl, rfl, rfl⟩ ⟨hzero, trivial, rfl, rfl, rfl⟩
      (by with_unfolding_all rfl) (by with_unfolding_all rfl) ?_⟩
  rintro (⟨e, e', he, he', hsame⟩ | ⟨_, _, h, -⟩ | ⟨_, _, h, -⟩)
  · cases he
    cases he'
    cases (hsame []).2
  · cases h
  · cases h

end Program

end Recourse
