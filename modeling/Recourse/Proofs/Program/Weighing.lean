/-
  Proofs/Program/Weighing.lean --- rescaling the probabilities of a program.

  Rescaling goes partition by partition and stops at the first probability that leaves the
  unit interval.  `Weighing` collects what arithmetic has to offer so that the factors that
  sampling and normalizing use stop it at once or not at all; exact arithmetic does.  Then
  a rescaled program is the old one with every probability multiplied.
-/
import Recourse.Proofs.Effect
import Recourse.Proofs.Number.Exact
import Recourse.Program.Scenarios
import Mathlib.Algebra.Order.BigOperators.Group.List

set_option autoImplicit false

namespace Recourse

variable {σ K : Type} [Scalar K]

/-! ## Weights -/

/-- A number that can be the probability of a scenario. -/
def Scalar.isWeight (x : K) : Bool := isFinite x && !less x 0 && !less 1 x

namespace Scenario

theorem make_eq {p : Numeral K} (h : Scalar.isWeight p.value = true) (data : Value K)
    (name : Option String) : make p data name = .ok ⟨p.value, data, name⟩ := by
  simp only [Scalar.isWeight, Bool.and_eq_true, Bool.not_eq_true'] at h
  simp [make, h.1.1, h.1.2, h.2]

/-- A scenario that is made has a weight. -/
theorem make_settles (p : Numeral K) (data : Value K) (name : Option String) :
    Settles (make p data name) (fun s => Scalar.isWeight s.probability = true) fun _ => True := by
  by_cases h : Scalar.isWeight p.value = true
  · rw [make_eq h]
    exact h
  · refine (Settles.self _).mono ?_ fun _ h => h
    intro s hs
    simp only [make] at hs
    split at hs
    · cases hs
    · rename_i hcheck
      cases hs
      simpa [Scalar.isWeight] using hcheck

/-- A scenario with its probability multiplied. -/
def scaled (factor : K) (s : Scenario K) : Scenario K :=
  { s with probability := s.probability * factor }

end Scenario

/-- A partition with its probabilities multiplied. -/
def Partition.scaled (factor : K) (q : Partition K) : Partition K :=
  { q with slots := q.slots.map fun s => { s with scenario := s.scenario.scaled factor } }

theorem Partition.scaled_of_nil {q : Partition K} (h : q.slots = []) (factor : K) :
    q.scaled factor = q := by
  obtain ⟨owner, slots⟩ := q
  cases h
  rfl

/-! ## Arithmetic for weights -/

/-- A factor that keeps all of some weights, or none of them. -/
def Scalar.Uniform (factor : K) (xs : List K) : Prop :=
  (∀ x ∈ xs, isWeight (x * factor) = true) ∨ ∀ x ∈ xs, isWeight (x * factor) = false

/-- Arithmetic in which the factors of samples and of normalization keep all weights or
none.  They keep them all unless they overflow. -/
structure Weighing (K : Type) [Scalar K] : Prop where
  /-- Making room for new scenarios. -/
  shrink : ∀ (xs : List K) (n new : Nat), (∀ x ∈ xs, Scalar.isWeight x = true) → n ≠ 0 →
    Scalar.Uniform (Scalar.ofNat n / Scalar.ofNat (n + new)) xs
  /-- Dividing by the sum of all weights, which are summed group by group. -/
  share : ∀ (groups : List (List K)), (∀ x ∈ groups.flatten, Scalar.isWeight x = true) →
    Scalar.atMost (Scalar.sum (groups.map Scalar.sum)) 0 = false →
    Scalar.Uniform (1 / Scalar.sum (groups.map Scalar.sum)) groups.flatten
  /-- Integers that are not below one are positive. -/
  positive : ∀ n : Int, Scalar.less (Scalar.ofInt n : K) 1 = false → 0 < n
  /-- Zero is below one. -/
  zero_less : Scalar.less (0 : K) 1 = true

section Exact

variable {F : Type} [Field F] [LinearOrder F] [IsStrictOrderedRing F] [FloorRing F]

theorem Exact.isWeight_iff (e : Exact F) :
    Scalar.isWeight e = true ↔ ∃ x, e = .finite x ∧ 0 ≤ x ∧ x ≤ 1 := by
  constructor
  · intro h
    simp only [Scalar.isWeight, Bool.and_eq_true, Bool.not_eq_true'] at h
    obtain ⟨x, rfl⟩ := (Exact.isFinite_iff e).1 h.1.1
    refine ⟨x, rfl, ?_, ?_⟩
    · simpa [Exact.zero_eq] using h.1.2
    · simpa [Exact.one_eq] using h.2
  · rintro ⟨x, rfl, h0, h1⟩
    simp [Scalar.isWeight, Exact.zero_eq, Exact.one_eq, h0, h1]

/-- Weights are numbers between zero and one. -/
theorem Exact.exists_weights {xs : List (Exact F)} (h : ∀ x ∈ xs, Scalar.isWeight x = true) :
    ∃ ys : List F, xs = ys.map .finite ∧ ∀ y ∈ ys, 0 ≤ y ∧ y ≤ 1 := by
  induction xs with
  | nil => exact ⟨[], rfl, fun y hy => absurd hy List.not_mem_nil⟩
  | cons x xs ih =>
    obtain ⟨ys, rfl, hys⟩ := ih fun x hx => h x (List.mem_cons_of_mem _ hx)
    obtain ⟨y, rfl, hy⟩ := (Exact.isWeight_iff x).1 (h x List.mem_cons_self)
    refine ⟨y :: ys, rfl, ?_⟩
    intro z hz
    rcases List.mem_cons.1 hz with rfl | hz
    · exact hy
    · exact hys z hz

theorem Exact.exists_groups {groups : List (List (Exact F))}
    (h : ∀ x ∈ groups.flatten, Scalar.isWeight x = true) :
    ∃ gs : List (List F), groups = gs.map (·.map .finite) ∧ ∀ ys ∈ gs, ∀ y ∈ ys, 0 ≤ y ∧ y ≤ 1 := by
  induction groups with
  | nil => exact ⟨[], rfl, fun y hy => absurd hy List.not_mem_nil⟩
  | cons xs groups ih =>
    rw [List.flatten_cons, List.forall_mem_append] at h
    obtain ⟨gs, rfl, hgs⟩ := ih h.2
    obtain ⟨ys, rfl, hys⟩ := Exact.exists_weights h.1
    refine ⟨ys :: gs, rfl, ?_⟩
    intro zs hzs
    rcases List.mem_cons.1 hzs with rfl | hzs
    · exact hys
    · exact hgs zs hzs

/-- A number and a factor that are not negative make a weight where their product is at most
one. -/
theorem Exact.isWeight_scaled {x factor : F} (hx : 0 ≤ x) (hfactor : 0 ≤ factor)
    (h : x * factor ≤ 1) : Scalar.isWeight (Exact.finite x * .finite factor) = true := by
  rw [Exact.finite_mul, Exact.isWeight_iff]
  exact ⟨_, rfl, mul_nonneg hx hfactor, h⟩

/-- Weights stay weights where room is made for others. -/
theorem Exact.uniform_shrink {xs : List (Exact F)} {n : Nat} (new : Nat)
    (hxs : ∀ x ∈ xs, Scalar.isWeight x = true) (hn : n ≠ 0) :
    Scalar.Uniform (Scalar.ofNat n / Scalar.ofNat (n + new)) xs := by
  refine Or.inl fun e he => ?_
  obtain ⟨x, rfl, h0, h1⟩ := (Exact.isWeight_iff e).1 (hxs e he)
  have hn : (0 : F) < n := by exact_mod_cast Nat.pos_of_ne_zero hn
  have hsum : (0 : F) < ((n + new : Nat) : F) := by
    push_cast
    positivity
  have hle : (n : F) / ((n + new : Nat) : F) ≤ 1 := by
    rw [div_le_one hsum]
    exact_mod_cast Nat.le_add_right n new
  have hquotient : (Scalar.ofNat n : Exact F) / Scalar.ofNat (n + new) =
      .finite ((n : F) / ((n + new : Nat) : F)) := by
    show Exact.finite (((n : Int) : F)) / Exact.finite ((((n + new : Nat) : Int) : F)) = _
    rw [Int.cast_natCast, Int.cast_natCast, Exact.finite_div hsum.ne']
  have hfactor := div_nonneg hn.le hsum.le
  rw [hquotient]
  exact Exact.isWeight_scaled h0 hfactor (mul_le_one₀ h1 hfactor hle)

omit [FloorRing F] in
/-- A number in a group is at most the sum of all groups. -/
theorem le_sum_groups {gs : List (List F)} (h : ∀ ys ∈ gs, ∀ y ∈ ys, 0 ≤ y) {ys : List F}
    (hys : ys ∈ gs) {y : F} (hy : y ∈ ys) : y ≤ (gs.map List.sum).sum := by
  have hinner : y ≤ ys.sum := List.single_le_sum (h ys hys) y hy
  refine hinner.trans (List.single_le_sum ?_ _ (List.mem_map.2 ⟨ys, hys, rfl⟩))
  intro z hz
  obtain ⟨zs, hzs, rfl⟩ := List.mem_map.1 hz
  exact List.sum_nonneg (h zs hzs)

/-- Weights stay weights where they are divided by their sum. -/
theorem Exact.uniform_share {groups : List (List (Exact F))}
    (hgroups : ∀ x ∈ groups.flatten, Scalar.isWeight x = true)
    (hpositive : Scalar.atMost (Scalar.sum (groups.map Scalar.sum)) 0 = false) :
    Scalar.Uniform (1 / Scalar.sum (groups.map Scalar.sum)) groups.flatten := by
  refine Or.inl fun e he => ?_
  obtain ⟨xs, hxs, he⟩ := List.mem_flatten.1 he
  obtain ⟨gs, rfl, hgs⟩ := Exact.exists_groups hgroups
  obtain ⟨ys, hys, rfl⟩ := List.mem_map.1 hxs
  obtain ⟨y, hy, rfl⟩ := List.mem_map.1 he
  have hsum : Scalar.sum ((gs.map (·.map Exact.finite)).map Scalar.sum) =
      Exact.finite (gs.map List.sum).sum := by
    rw [List.map_map, ← Exact.sum_finite, List.map_map]
    exact congrArg Scalar.sum (List.map_congr_left fun zs _ => Exact.sum_finite zs)
  rw [hsum] at hpositive ⊢
  have htotal : 0 < (gs.map List.sum).sum := by
    simpa [Exact.zero_eq] using hpositive
  have hle := le_sum_groups (fun zs hzs z hz => (hgs zs hzs z hz).1) hys hy
  rw [Exact.one_eq, Exact.finite_div htotal.ne']
  refine Exact.isWeight_scaled (hgs ys hys y hy).1 (one_div_nonneg.2 htotal.le) ?_
  rwa [mul_one_div, div_le_one htotal]

/-- Exact arithmetic keeps weights. -/
theorem Exact.weighing : Weighing (Exact F) where
  shrink := fun _ _ new hxs hn => Exact.uniform_shrink new hxs hn
  share := fun _ hgroups hpositive => Exact.uniform_share hgroups hpositive
  positive := by
    intro n hn
    have hn : ¬ (n : F) < 1 := by
      simpa using (Exact.less_finite (n : F) 1).symm.trans hn
    have hcast : ((1 : Int) : F) ≤ n := by simpa using hn
    exact Int.lt_of_lt_of_le Int.zero_lt_one (Int.cast_le.1 hcast)
  zero_less := by simp [Exact.zero_eq, Exact.one_eq]

end Exact

/-! ## Rescaling -/

theorem Partition.rescale_eq {factor : K} {q : Partition K}
    (h : ∀ s ∈ q.slots, Scalar.isWeight (s.scenario.probability * factor) = true) :
    q.rescale factor = .ok (q.scaled factor) := by
  have hslots : (q.slots.mapM fun (s : Slot K) => do
      return { s with scenario := ← s.scenario.scaleProbability factor } :
        Except (Fault K) (List (Slot K))) =
      .ok (q.slots.map fun s => { s with scenario := s.scenario.scaled factor }) := by
    refine mapM_eq_ok _ fun s hs => ?_
    have hmake : s.scenario.scaleProbability factor = .ok (s.scenario.scaled factor) :=
      Scenario.make_eq (p := .real _) (h s hs) _ _
    rw [hmake]
    rfl
  unfold rescale
  rw [hslots]
  rfl

/-- A partition whose first probability does not stay a weight is not rescaled. -/
theorem Partition.rescale_refused {factor : K} {q : Partition K} {s : Slot K} {slots : List (Slot K)}
    (h : Scalar.isWeight (s.scenario.probability * factor) = false) (hq : q.slots = s :: slots) :
    ∃ f, q.rescale factor = .error f := by
  have hmake : ∃ f, s.scenario.scaleProbability factor = .error f := by
    have hcheck : (!Scalar.isFinite (s.scenario.probability * factor) ||
        Scalar.less (s.scenario.probability * factor) 0 ||
          Scalar.less 1 (s.scenario.probability * factor)) = true := by
      simp only [Scalar.isWeight, Bool.and_eq_false_iff, Bool.not_eq_false'] at h
      simp only [Bool.or_eq_true, Bool.not_eq_true']
      exact h
    exact ⟨_, if_pos hcheck⟩
  obtain ⟨f, hf⟩ := hmake
  refine ⟨f, ?_⟩
  unfold rescale
  rw [hq, List.mapM_cons, hf]
  rfl

namespace Program

/-- A program with its probabilities multiplied. -/
def scaled (factor : K) (p : Program σ K) : Program σ K :=
  { p with partitions := p.partitions.map (Partition.scaled factor) }

/-- Where all probabilities stay weights, rescaling goes through. -/
theorem rescale_go_run {factor : K} {rest : List (Partition K)}
    (h : ∀ q ∈ rest, ∀ s ∈ q.slots, Scalar.isWeight (s.scenario.probability * factor) = true)
    (done : List (Partition K)) {p : Program σ K} (hp : p.partitions = done ++ rest)
    (ledger : Ledger σ K) :
    (rescale.go factor done rest : Edit σ K Unit).run.run (p, ledger) =
      (.ok (), { p with partitions := done ++ rest.map (Partition.scaled factor) }, ledger) := by
  induction rest generalizing done p with
  | nil =>
    rw [List.map_nil, ← hp]
    rfl
  | cons q rest ih =>
    unfold rescale.go
    rw [Partition.rescale_eq (h q List.mem_cons_self)]
    refine (ih (fun q hq => h q (List.mem_cons_of_mem _ hq)) (done ++ [q.scaled factor])
      (p := { p with partitions := done ++ q.scaled factor :: rest }) (by simp)).trans ?_
    rw [List.append_assoc, List.singleton_append, List.map_cons]

theorem rescale_run {factor : K} {p : Program σ K}
    (h : ∀ s ∈ p.slots, Scalar.isWeight (s.scenario.probability * factor) = true)
    (ledger : Ledger σ K) : (rescale factor : Edit σ K Unit).run.run (p, ledger) =
      (.ok (), p.scaled factor, ledger) :=
  rescale_go_run (fun q hq s hs => h s (List.mem_flatMap.2 ⟨q, hq, hs⟩)) [] rfl ledger

theorem rescale_go_ensures {factor : K} {rest : List (Partition K)}
    (h : ∀ q ∈ rest, ∀ s ∈ q.slots, Scalar.isWeight (s.scenario.probability * factor) = true)
    (done : List (Partition K)) {p : Program σ K} (hp : p.partitions = done ++ rest) :
    (rescale.go factor done rest : Edit σ K Unit).Ensures p
      (fun _ p' => p' = { p with partitions := done ++ rest.map (Partition.scaled factor) })
      (fun _ _ => False) := by
  intro ledger
  rw [rescale_go_run h done hp]
  exact rfl

/-- Where no probability stays a weight, rescaling stops before the first one. -/
theorem rescale_go_refused {factor : K} {rest : List (Partition K)}
    (h : ∀ q ∈ rest, ∀ s ∈ q.slots, Scalar.isWeight (s.scenario.probability * factor) = false)
    (done : List (Partition K)) {p : Program σ K} (hp : p.partitions = done ++ rest) :
    (rescale.go factor done rest : Edit σ K Unit).Ensures p
      (fun _ p' => p' = p ∧ ∀ q ∈ rest, q.slots = []) (fun _ p' => p' = p) := by
  induction rest generalizing done with
  | nil => exact Change.ensures_pure ⟨rfl, fun q hq => absurd hq List.not_mem_nil⟩
  | cons q rest ih =>
    unfold rescale.go
    cases hslots : q.slots with
    | nil =>
      rw [Partition.rescale_eq (by simp [hslots]), Partition.scaled_of_nil hslots]
      have hsame : { p with partitions := done ++ q :: rest } = p := by rw [← hp]
      refine Change.ensures_bind (Change.ensures_pure (Change.ensures_bind
        (Change.ensures_update ?_)))
      rw [hsame]
      refine (ih (fun q hq => h q (List.mem_cons_of_mem _ hq)) (done ++ [q]) ?_).mono ?_
        fun _ _ h => h
      · rw [hp, List.append_assoc, List.singleton_append]
      · rintro _ _ ⟨rfl, hrest⟩
        exact ⟨rfl, List.forall_mem_cons.2 ⟨hslots, hrest⟩⟩
    | cons s slots =>
      obtain ⟨f, hf⟩ := Partition.rescale_refused
        (h q List.mem_cons_self s (by rw [hslots]; exact List.mem_cons_self)) hslots
      rw [hf]
      exact Change.ensures_bind (Change.ensures_fail rfl)

/-- Rescaling multiplies every probability, or it is refused and nothing is changed. -/
theorem rescale_ensures {factor : K} {p : Program σ K}
    (h : Scalar.Uniform factor (p.slots.map (·.scenario.probability))) :
    (rescale factor : Edit σ K Unit).Ensures p
      (fun _ p' => p' = p.scaled factor ∧
        ∀ s ∈ p.slots, Scalar.isWeight (s.scenario.probability * factor) = true)
      (fun _ p' => p' = p) := by
  have hmem : ∀ q ∈ p.partitions, ∀ s ∈ q.slots, s ∈ p.slots := fun q hq s hs =>
    List.mem_flatMap.2 ⟨q, hq, hs⟩
  unfold rescale
  refine Change.ensures_bind (Change.ensures_state ?_)
  simp only [Scalar.Uniform, List.forall_mem_map] at h
  rcases h with h | h
  · refine (rescale_go_ensures (fun q hq s hs => h s (hmem q hq s hs)) [] rfl).mono ?_
      fun _ _ h => h.elim
    exact fun _ _ hp' => ⟨hp', h⟩
  · refine (rescale_go_refused (fun q hq s hs => h s (hmem q hq s hs)) [] rfl).mono ?_
      fun _ _ h => h
    rintro _ p' ⟨hp', hempty⟩
    have hscaled : p.partitions.map (Partition.scaled factor) = p.partitions := by
      exact (List.map_congr_left fun q hq => Partition.scaled_of_nil (hempty q hq) factor).trans
        (List.map_id _)
    have hnone : p.slots = [] := List.flatMap_eq_nil_iff.2 hempty
    refine ⟨?_, by simp [hnone]⟩
    rw [scaled, hscaled, hp']

theorem slots_scaled (factor : K) (p : Program σ K) : (p.scaled factor).slots =
    p.slots.map fun s => { s with scenario := s.scenario.scaled factor } := by
  simp only [slots, scaled, List.flatMap_map, List.map_flatMap]
  rfl

/-- Every probability is a weight. -/
def Weighted (p : Program σ K) : Prop :=
  ∀ s ∈ p.slots, Scalar.isWeight s.scenario.probability = true

/-- Dividing the probabilities by their total keeps all of them weights, or none. -/
theorem Weighted.uniform_share (hK : Weighing K) {p : Program σ K} (hp : p.Weighted)
    (hpositive : Scalar.atMost p.totalProbability 0 = false) :
    Scalar.Uniform (1 / p.totalProbability) (p.slots.map (·.scenario.probability)) := by
  have hgroups : (p.partitions.map fun q => q.scenarios.map (·.probability)).map Scalar.sum =
      p.partitions.map (·.mass) := by
    rw [List.map_map]
    rfl
  have hflat : (p.partitions.map fun q => q.scenarios.map (·.probability)).flatten =
      p.slots.map (·.scenario.probability) := by
    simp [slots, List.flatMap_def, List.map_flatten, Partition.scenarios, Function.comp_def]
  have hshare := hK.share (p.partitions.map fun q => q.scenarios.map (·.probability))
  rw [hgroups, hflat] at hshare
  exact hshare (List.forall_mem_map.2 hp) hpositive

end Program

section Total

variable {F : Type} [Field F] [LinearOrder F] [IsStrictOrderedRing F] [FloorRing F]

/-- The total is that of the probabilities in global order, whatever the partitions. -/
theorem Program.Weighted.totalProbability_eq {p : Program σ (Exact F)} (hp : p.Weighted) :
    p.totalProbability = .finite (p.scenarios.map (·.probability.value)).sum := by
  have hmass : ∀ q ∈ p.partitions,
      q.mass = .finite (q.scenarios.map (·.probability.value)).sum := by
    intro q hq
    have hvalues : q.scenarios.map (·.probability) =
        (q.scenarios.map (·.probability.value)).map .finite := by
      rw [List.map_map]
      refine List.map_congr_left fun c hc => ?_
      obtain ⟨s, hs, rfl⟩ := List.mem_map.1 hc
      obtain ⟨x, hx, -⟩ := (Exact.isWeight_iff _).1 (hp s (List.mem_flatMap.2 ⟨q, hq, hs⟩))
      simp [hx]
    rw [Partition.mass, Scenario.mass, hvalues, Exact.sum_finite]
  have hmasses : p.partitions.map (·.mass) =
      (p.partitions.map fun q => (q.scenarios.map (·.probability.value)).sum).map .finite := by
    rw [List.map_map]
    exact List.map_congr_left hmass
  rw [Program.totalProbability, hmasses, Exact.sum_finite, Program.scenarios, Program.slots,
    List.map_flatMap, List.map_flatMap, List.flatMap_def, List.sum_flatten, List.map_map]
  rfl

/-- Where the probabilities are divided by their total, all stay weights. -/
theorem Program.Weighted.share {p : Program σ (Exact F)} (hp : p.Weighted)
    (htotal : Scalar.atMost p.totalProbability 0 = false) : ∀ s ∈ p.slots,
      Scalar.isWeight (s.scenario.probability * (1 / p.totalProbability)) = true := by
  intro s hs
  obtain ⟨x, hx, h0, -⟩ := (Exact.isWeight_iff _).1 (hp s hs)
  have hle : x ≤ (p.scenarios.map (·.probability.value)).sum := by
    refine List.single_le_sum ?_ _ (List.mem_map.2 ⟨s.scenario, List.mem_map.2 ⟨s, hs, rfl⟩, ?_⟩)
    · intro y hy
      obtain ⟨c, hc, rfl⟩ := List.mem_map.1 hy
      obtain ⟨s', hs', rfl⟩ := List.mem_map.1 hc
      obtain ⟨y, hy, h0, -⟩ := (Exact.isWeight_iff _).1 (hp s' hs')
      simpa [hy] using h0
    · rw [hx, Exact.value_finite]
  rw [hp.totalProbability_eq] at htotal ⊢
  have hpos : 0 < (p.scenarios.map (·.probability.value)).sum := by
    simpa [Exact.zero_eq] using htotal
  rw [hx, Exact.one_eq, Exact.finite_div hpos.ne']
  refine Exact.isWeight_scaled h0 (one_div_nonneg.2 hpos.le) ?_
  rwa [mul_one_div, div_le_one hpos]

end Total

end Recourse
