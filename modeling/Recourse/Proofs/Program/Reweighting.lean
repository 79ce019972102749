/-
  Proofs/Program/Reweighting.lean --- samples and normalization keep the distribution.

  In exact arithmetic no factor that a sample or a normalization multiplies with takes a
  probability out of the unit interval, so all partitions are rescaled or none.  A sample
  that is accepted takes its share from all scenarios in proportion (`sample_dilutes`), one
  that is not leaves the program as it is, and a program that is only sampled is weighted
  equally (`perform_equally`).  Normalization divides by the total and leaves every
  subproblem (`validate_normalizes`).
-/
import Recourse.Proofs.Program.Calls
import Recourse.Proofs.Program.Insertion

set_option autoImplicit false
set_option linter.unusedSectionVars false

namespace Recourse

variable {F : Type} [Field F] [LinearOrder F] [IsStrictOrderedRing F] [FloorRing F] {σ : Type}

/-! ## Scenarios in any order -/

namespace Program

theorem joined_perm {α : Type} (xss : List (List α)) (chunks : List (List α))
    (h : chunks.length = xss.length) :
    (joined xss chunks).flatten.Perm (xss.flatten ++ chunks.flatten) := by
  induction xss generalizing chunks with
  | nil =>
    rw [List.eq_nil_of_length_eq_zero h]
    rfl
  | cons xs xss ih =>
    cases chunks with
    | nil => cases h
    | cons chunk chunks =>
      have hrest := ih chunks (Nat.succ.inj h)
      show ((xs ++ chunk) ++ (joined xss chunks).flatten).Perm
        (xs ++ xss.flatten ++ (chunk ++ chunks.flatten))
      refine (hrest.append_left (xs ++ chunk)).trans ?_
      rw [List.append_assoc, List.append_assoc, ← List.append_assoc chunk,
        ← List.append_assoc xss.flatten]
      exact (List.perm_append_comm.append_right chunks.flatten).append_left xs

/-- The scenarios of a program and the new ones. -/
theorem Receives.scenarios_perm {K : Type} {p p' : Program σ K}
    {chunks : List (List (Scenario K))} (h : p.Receives p' chunks) :
    p'.scenarios.Perm (p.scenarios ++ chunks.flatten) := by
  rw [← flatten_placement, ← flatten_placement, h.placement]
  exact joined_perm p.placement chunks (by rw [h.length, length_placement])

theorem weighted_iff {K : Type} [Scalar K] {p : Program σ K} :
    p.Weighted ↔ ∀ c ∈ p.scenarios, Scalar.isWeight c.probability = true := by
  rw [scenarios, List.forall_mem_map]
  rfl

theorem scenarioCount_eq_length {K : Type} (p : Program σ K) :
    p.scenarioCount = p.scenarios.length := by
  rw [scenarios, List.length_map, scenarioCount]

/-- A program with a scenario has scenarios. -/
theorem scenarioCount_pos_of_mem {K : Type} {p : Program σ K} {c : Scenario K}
    (hc : c ∈ p.scenarios) : 0 < p.scenarioCount := by
  rw [scenarioCount_eq_length]
  exact List.length_pos_iff.2 (List.ne_nil_of_mem hc)

/-- The total is that of the scenarios, in any order. -/
theorem totalProbability_eq_of_perm {p : Program σ (Exact F)} (hp : p.Weighted)
    {scenarios : List (Scenario (Exact F))} (h : p.scenarios.Perm scenarios) :
    p.totalProbability = .finite (scenarios.map (·.probability.value)).sum := by
  rw [hp.totalProbability_eq, (h.map _).sum_eq]

end Program

/-! ## Weights of a sample -/

/-- The same scenario with another weight. -/
def Scenario.weighing (x : F) (s : Scenario (Exact F)) : Scenario (Exact F) :=
  { s with probability := .finite x }

theorem Exact.isWeight_finite {x : F} :
    Scalar.isWeight (Exact.finite x) = true ↔ 0 ≤ x ∧ x ≤ 1 := by
  rw [Exact.isWeight_iff]
  constructor
  · rintro ⟨y, hy, h⟩
    cases hy
    exact h
  · exact fun h => ⟨x, rfl, h⟩

namespace Program

variable {p p' : Program σ (Exact F)}

/-- The factor that makes room for `n` new scenarios. -/
def dilution (p : Program σ (Exact F)) (n : Nat) : F :=
  (p.scenarioCount : F) / (p.scenarioCount + n)

/-- The weight of each of `n` new scenarios. -/
def quota (p : Program σ (Exact F)) (n : Nat) : F := 1 / (p.scenarioCount + n)

/-- New scenarios as a sample adds them. -/
def drawn (p : Program σ (Exact F)) (fresh : List (Scenario (Exact F))) :
    List (Scenario (Exact F)) :=
  fresh.map (Scenario.weighing (p.quota fresh.length))

theorem size_pos (p : Program σ (Exact F)) {n : Nat} (hn : 0 < n) :
    (0 : F) < p.scenarioCount + n := by
  have hnew : (0 : F) < n := Nat.cast_pos.2 hn
  positivity

theorem dilution_mem (p : Program σ (Exact F)) {n : Nat} (hn : 0 < n) :
    0 ≤ p.dilution n ∧ p.dilution n ≤ 1 := by
  have hsize := p.size_pos hn
  refine ⟨div_nonneg (Nat.cast_nonneg _) hsize.le, ?_⟩
  rw [dilution, div_le_one hsize]
  exact le_add_of_nonneg_right (Nat.cast_nonneg n)

theorem quota_mem (p : Program σ (Exact F)) {n : Nat} (hn : 0 < n) :
    0 ≤ p.quota n ∧ p.quota n ≤ 1 := by
  have hsize := p.size_pos hn
  refine ⟨one_div_nonneg.2 hsize.le, ?_⟩
  rw [quota, div_le_one hsize]
  have hone : (1 : F) ≤ n := Nat.one_le_cast.2 hn
  have hold : (0 : F) ≤ p.scenarioCount := Nat.cast_nonneg _
  linarith

/-- The numbers that the program divides. -/
theorem ofNat_div (p : Program σ (Exact F)) {n : Nat} (hn : 0 < n) (k : Nat) :
    (Scalar.ofNat k : Exact F) / Scalar.ofNat (p.scenarioCount + n) =
      .finite ((k : F) / (p.scenarioCount + n)) := by
  have hcast : ∀ m : Nat, (Scalar.ofNat m : Exact F) = .finite (m : F) := fun m =>
    congrArg Exact.finite (Int.cast_natCast m)
  have hsize := (p.size_pos hn).ne'
  rw [hcast, hcast, Nat.cast_add, Exact.finite_div hsize]

/-- Probabilities that make room stay probabilities. -/
theorem Weighted.dilute (hp : p.Weighted) {n : Nat} (hn : 0 < n) : ∀ s ∈ p.slots,
    Scalar.isWeight (s.scenario.probability * .finite (p.dilution n)) = true := by
  intro s hs
  obtain ⟨x, hx, h0, h1⟩ := (Exact.isWeight_iff _).1 (hp s hs)
  obtain ⟨hd0, hd1⟩ := p.dilution_mem hn
  rw [hx]
  exact Exact.isWeight_scaled h0 hd0 (mul_le_one₀ h1 hd0 hd1)

/-- There is nothing to rescale in a program without scenarios. -/
theorem scaled_of_empty {K : Type} [Scalar K] (p : Program σ K) (h : p.scenarioCount = 0)
    (factor : K) : p.scaled factor = p := by
  have hnone : ∀ q ∈ p.partitions, q.slots = [] :=
    List.flatMap_eq_nil_iff.1 (List.eq_nil_of_length_eq_zero h)
  have hsame : p.partitions.map (Partition.scaled factor) = p.partitions :=
    (List.map_congr_left fun q hq => Partition.scaled_of_nil (hnone q hq) factor).trans
      (List.map_id _)
  rw [scaled, hsame]

theorem weighted_scaled {factor : Exact F}
    (h : ∀ s ∈ p.slots, Scalar.isWeight (s.scenario.probability * factor) = true) :
    (p.scaled factor).Weighted := by
  intro s hs
  rw [slots_scaled] at hs
  obtain ⟨s', hs', rfl⟩ := List.mem_map.1 hs
  exact h s' hs'

theorem weighted_drawn (p : Program σ (Exact F)) {fresh : List (Scenario (Exact F))}
    (hn : 0 < fresh.length) :
    ∀ c ∈ p.drawn fresh, Scalar.isWeight c.probability = true := by
  intro c hc
  obtain ⟨s, -, rfl⟩ := List.mem_map.1 hc
  exact Exact.isWeight_finite.2 (p.quota_mem hn)

/-! ## Running a sample -/

variable [Host σ (Exact F)]

/-- Results that are looked up one by one, none of them refused. -/
theorem mapM_run {K α β : Type} {f : α → Except (Fault K) β} {g : α → β} (xs : List α)
    (h : ∀ x ∈ xs, f x = .ok (g x)) (s : Program σ K × Ledger σ K) :
    (xs.mapM fun x => liftM (f x) : Edit σ K (List β)).run.run s = (.ok (xs.map g), s) := by
  induction xs with
  | nil => rfl
  | cons x xs ih =>
    rw [List.mapM_cons, h x List.mem_cons_self]
    show (((xs.mapM fun x => liftM (f x) : Edit σ K (List β)) >>= fun ys =>
      pure (g x :: ys)) : Edit σ K (List β)).run.run s = _
    rw [Change.run_bind, ih fun x hx => h x (List.mem_cons_of_mem _ hx)]
    rfl

/-- A sample that is drawn has a size. -/
theorem sampleSize_eq {sampler : Sampler σ (Exact F)} {n : Setting (Exact F)}
    {ledger ledger' : Ledger σ (Exact F)} {fresh : List (Scenario (Exact F))}
    (h : (sampler.sample n).run.run ledger = (.ok fresh, ledger')) :
    Sampler.sampleSize n = .ok fresh.length ∧ 0 < fresh.length := by
  unfold Sampler.sample at h
  have hpositive := sampleSize_settles Exact.weighing n
  cases hsize : Sampler.sampleSize n with
  | error f =>
    rw [hsize] at h
    cases h
  | ok size =>
    rw [hsize] at h hpositive
    have hlength := (drawMany_ensures sampler (1 / Scalar.ofNat size) size ledger).of_ok
      (congrArg Prod.fst h)
    exact ⟨by rw [hlength], hlength ▸ hpositive⟩

theorem prepare_run (hp : p.Weighted) {sampler : Sampler σ (Exact F)} {n : Setting (Exact F)}
    {ledger ledger' : Ledger σ (Exact F)} {fresh : List (Scenario (Exact F))}
    (hdraw : (sampler.sample n).run.run ledger = (.ok fresh, ledger'))
    {r : Except (Fault (Exact F)) (Option Schema × List (Scenario (Exact F)))}
    (haccept : accept p.schema ((p.drawn fresh).map Offered.scenario) = r) :
    (prepare sampler n).run.run (p, ledger) = match r with
      | .ok _ => (.ok (p.drawn fresh), p.scaled (.finite (p.dilution fresh.length)), ledger')
      | .error f => (.error f, p, ledger') := by
  obtain ⟨hsize, hpos⟩ := sampleSize_eq hdraw
  -- Every scenario that was drawn gets the share of one among all.
  have hweights : ∀ s ∈ fresh, s.withProbability
      (.real (1 / Scalar.ofNat (p.scenarioCount + fresh.length))) =
        .ok (s.weighing (p.quota fresh.length)) := by
    intro s _
    have hquota : (1 : Exact F) / Scalar.ofNat (p.scenarioCount + fresh.length) =
        .finite (p.quota fresh.length) := by
      have hone := p.ofNat_div hpos 1
      rw [Nat.cast_one] at hone
      rw [quota, ← hone]
      exact congrArg (· / _) (congrArg Exact.finite (Int.cast_one (R := F)).symm)
    rw [hquota]
    exact Scenario.make_eq (p := .real _) (Exact.isWeight_finite.2 (p.quota_mem hpos)) _ _
  unfold prepare
  rw [Change.run_state_bind, hsize]
  show (Change.ofAct (sampler.sample n) >>= _ : Edit σ (Exact F) _).run.run (p, ledger) = _
  rw [Change.run_bind, Change.run_ofAct, hdraw]
  dsimp only
  rw [Change.run_bind, mapM_run fresh hweights]
  dsimp only
  change accept p.schema ((fresh.map _).map Offered.scenario) = r at haccept
  rw [haccept]
  cases r with
  | error f => rfl
  | ok a =>
    rw [Change.run_bind]
    dsimp only
    by_cases hcount : p.scenarioCount = 0
    · -- Nobody has to make room, and the factor is multiplied with nothing.
      rw [if_neg (not_not.2 hcount), p.scaled_of_empty hcount]
      rfl
    · rw [if_pos hcount, p.ofNat_div hpos]
      show (rescale (.finite (p.dilution fresh.length)) >>= _ :
        Edit σ (Exact F) _).run.run (p, ledger') = _
      rw [Change.run_bind, rescale_run (hp.dilute hpos)]
      rfl

/-! ## Samples -/

/-- A sample is added: the scenarios that were there make room in proportion, and each new one
gets the same weight. -/
structure Diluted (p p' : Program σ (Exact F)) (fresh : List (Scenario (Exact F))) : Prop where
  /-- All partitions are rescaled, and the new scenarios are cut into chunks behind them. -/
  receives : ∃ chunks, (p.scaled (.finite (p.dilution fresh.length))).Receives p' chunks ∧
    chunks.flatten = p.drawn fresh
  /-- Every probability is one. -/
  weighted : p'.Weighted
  /-- What the total becomes. -/
  total : ∀ S : F, p.totalProbability = .finite S → p'.totalProbability =
    .finite ((S * p.scenarioCount + fresh.length) / (p.scenarioCount + fresh.length))
  /-- A program that sums to one still does. -/
  one : p.totalProbability = 1 → p'.totalProbability = 1
  /-- The old weights keep their ratios. -/
  ratio : ∀ c ∈ p.scenarios, ∀ c' ∈ p.scenarios,
    (c.scaled (.finite (p.dilution fresh.length))).probability.value /
        (c'.scaled (.finite (p.dilution fresh.length))).probability.value =
      c.probability.value / c'.probability.value

/-- The scenarios after a sample: the old ones with less weight, and the new ones. -/
theorem scenarios_perm_of_receives {fresh : List (Scenario (Exact F))}
    {chunks : List (List (Scenario (Exact F)))}
    (h : (p.scaled (.finite (p.dilution fresh.length))).Receives p' chunks)
    (hchunks : chunks.flatten = p.drawn fresh) :
    p'.scenarios.Perm (p.scenarios.map (·.scaled (.finite (p.dilution fresh.length))) ++
      p.drawn fresh) := by
  have hperm := h.scenarios_perm
  rwa [hchunks, scenarios_scaled] at hperm

theorem value_scaled {c : Scenario (Exact F)} (hc : Scalar.isWeight c.probability = true)
    (factor : F) : (c.scaled (.finite factor)).probability =
      .finite (c.probability.value * factor) := by
  obtain ⟨x, hx, -⟩ := (Exact.isWeight_iff _).1 hc
  show c.probability * _ = _
  rw [hx, Exact.finite_mul, Exact.value_finite]

/-- Rescaled probabilities are the old ones times the factor. -/
theorem Weighted.values_scaled (hp : p.Weighted) (factor : F) :
    (p.scenarios.map (·.scaled (.finite factor))).map (·.probability.value) =
      p.scenarios.map fun c => c.probability.value * factor := by
  rw [List.map_map]
  refine List.map_congr_left fun c hc => ?_
  rw [Function.comp_apply, value_scaled (weighted_iff.1 hp c hc), Exact.value_finite]

theorem diluted_of_receives (hp : p.Weighted) {fresh : List (Scenario (Exact F))}
    (hn : 0 < fresh.length) {chunks : List (List (Scenario (Exact F)))}
    (h : (p.scaled (.finite (p.dilution fresh.length))).Receives p' chunks)
    (hchunks : chunks.flatten = p.drawn fresh) : p.Diluted p' fresh := by
  have hperm := scenarios_perm_of_receives h hchunks
  have hsize := (p.size_pos hn).ne'
  have hweights := weighted_iff.1 hp
  have hweighted : p'.Weighted := by
    refine weighted_iff.2 fun c hc => ?_
    rcases List.mem_append.1 (hperm.mem_iff.1 hc) with hold | hnew
    · have hscaled := weighted_iff.1 (weighted_scaled (hp.dilute hn))
      rw [scenarios_scaled] at hscaled
      exact hscaled c hold
    · exact p.weighted_drawn hn c hnew
  -- The old weights make room for the new ones, each of which has the share of one among all.
  have htotal : ∀ S : F, p.totalProbability = .finite S → p'.totalProbability =
      .finite ((S * p.scenarioCount + fresh.length) / (p.scenarioCount + fresh.length)) := by
    intro S hS
    rw [hp.totalProbability_eq] at hS
    obtain rfl := Exact.finite.inj hS
    have hnew : ((p.drawn fresh).map (·.probability.value)).sum =
        fresh.length * p.quota fresh.length := by
      rw [drawn, List.map_map]
      show (fresh.map fun _ => p.quota fresh.length).sum = _
      rw [List.map_const', List.sum_replicate, nsmul_eq_mul]
    rw [totalProbability_eq_of_perm hweighted hperm, List.map_append, List.sum_append,
      hp.values_scaled, hnew, List.sum_map_mul_right, dilution, quota]
    congr 1
    field_simp
  refine ⟨⟨chunks, h, hchunks⟩, hweighted, htotal, fun hone => ?_, fun c hc c' hc' => ?_⟩
  · rw [htotal 1 hone, one_mul, div_self hsize]
    rfl
  · have hcount : (p.scenarioCount : F) ≠ 0 :=
      Nat.cast_ne_zero.2 (scenarioCount_pos_of_mem hc).ne'
    rw [value_scaled (hweights c hc), value_scaled (hweights c' hc'), Exact.value_finite,
      Exact.value_finite]
    exact mul_div_mul_right _ _ (div_ne_zero hcount hsize)

/-- A sample whose draws are accepted is added, whatever becomes of the call. -/
theorem sample_dilutes (hp : p.Weighted) (hworkers : p.partitions ≠ [])
    {sampler : Sampler σ (Exact F)} {n : Setting (Exact F)}
    {ledger ledger' : Ledger σ (Exact F)} {fresh : List (Scenario (Exact F))}
    (hdraw : (sampler.sample n).run.run ledger = (.ok fresh, ledger'))
    {a : Option Schema × List (Scenario (Exact F))}
    (haccept : accept p.schema ((p.drawn fresh).map Offered.scenario) = .ok a) (defer : Bool) :
    p.Diluted (((sample sampler n defer).runOn p).run ledger).1.2 fresh := by
  obtain ⟨-, hpos⟩ := sampleSize_eq hdraw
  rw [sample_eq, after_bind, prepare_run hp hdraw haccept]
  have hworkers' : (p.scaled (.finite (p.dilution fresh.length))).partitions ≠ [] := by
    simpa [scaled] using hworkers
  have hfills := ((addAll_fills hworkers' ((p.drawn fresh).map Offered.scenario) defer).mono
    (fun _ _ h => h.1.receives) fun _ _ h => h.receives).after ledger'
  obtain ⟨schema, accepted⟩ := a
  -- Rescaling leaves the schema, so the draws are admitted as they were accepted.
  have hadmitted : (p.scaled (.finite (p.dilution fresh.length))).admitted
      ((p.drawn fresh).map Offered.scenario) none = p.drawn fresh :=
    (admitted_eq (p := p.scaled _) rfl haccept).trans (accept_scenarios haccept)
  rw [hadmitted] at hfills
  obtain ⟨chunks, hreceives, hchunks⟩ := hfills
  exact diluted_of_receives hp hpos hreceives hchunks

/-- A sample whose draws do not fit leaves the program as it is. -/
theorem sample_misfit (hp : p.Weighted) {sampler : Sampler σ (Exact F)} {n : Setting (Exact F)}
    {ledger ledger' : Ledger σ (Exact F)} {fresh : List (Scenario (Exact F))}
    (hdraw : (sampler.sample n).run.run ledger = (.ok fresh, ledger')) {f : Fault (Exact F)}
    (haccept : accept p.schema ((p.drawn fresh).map Offered.scenario) = .error f) (defer : Bool) :
    ((sample sampler n defer).runOn p).run ledger = ((.error f, p), ledger') := by
  rw [sample_eq, Change.runOn_run, Change.run_bind, prepare_run hp hdraw haccept]

theorem prepare_failed {sampler : Sampler σ (Exact F)} {n : Setting (Exact F)}
    {ledger ledger' : Ledger σ (Exact F)} {f : Fault (Exact F)}
    (hdraw : (sampler.sample n).run.run ledger = (.error f, ledger')) (p : Program σ (Exact F)) :
    (prepare sampler n).run.run (p, ledger) = (.error f, p, ledger') := by
  unfold prepare
  rw [Change.run_state_bind]
  cases hsize : Sampler.sampleSize n with
  | error g =>
    have hsample := hdraw
    rw [Sampler.sample, hsize] at hsample
    cases hsample
    rfl
  | ok size =>
    show (Change.ofAct (sampler.sample n) >>= _ : Edit σ (Exact F) _).run.run (p, ledger) = _
    rw [Change.run_bind, Change.run_ofAct, hdraw]

/-- So does a sample that is not drawn. -/
theorem sample_failed {sampler : Sampler σ (Exact F)} {n : Setting (Exact F)}
    {ledger ledger' : Ledger σ (Exact F)} {f : Fault (Exact F)}
    (hdraw : (sampler.sample n).run.run ledger = (.error f, ledger')) (p : Program σ (Exact F))
    (defer : Bool) : ((sample sampler n defer).runOn p).run ledger = ((.error f, p), ledger') := by
  rw [sample_eq, Change.runOn_run, Change.run_bind, prepare_failed hdraw p]

/-! ## Programs that are only sampled -/

/-- Scenarios come from samples only. -/
def Operation.Samples : Operation σ (Exact F) → Prop
  | .add _ _ _ => False
  | .addAll _ _ _ => False
  | _ => True

/-- All scenarios have the same weight, and there are partitions. -/
structure Equally (p : Program σ (Exact F)) : Prop where
  /-- There are partitions. -/
  workers : p.partitions ≠ []
  /-- Every scenario has its share of one. -/
  share : ∀ c ∈ p.scenarios, c.probability = .finite (1 / p.scenarioCount)

theorem Equally.weighted (h : p.Equally) : p.Weighted := by
  refine weighted_iff.2 fun c hc => ?_
  have hcount : (1 : F) ≤ p.scenarioCount := Nat.one_le_cast.2 (scenarioCount_pos_of_mem hc)
  rw [h.share c hc, Exact.isWeight_finite, div_le_one (by linarith)]
  exact ⟨one_div_nonneg.2 (by linarith), hcount⟩

theorem Equally.of_scenarios (h : p.Equally) (hworkers : p'.partitions ≠ [])
    (hscenarios : p'.scenarios = p.scenarios) : p'.Equally := by
  refine ⟨hworkers, fun c hc => ?_⟩
  rw [hscenarios] at hc
  rw [h.share c hc, scenarioCount_eq_length, scenarioCount_eq_length, hscenarios]

theorem Equally.of_placement (h : p.Equally) (hplacement : p'.placement = p.placement) :
    p'.Equally := by
  refine h.of_scenarios (partitions_ne_nil h.workers ?_)
    (by rw [← flatten_placement, hplacement, flatten_placement])
  rw [← length_placement, hplacement, length_placement]

/-- Scenarios of the same weight sum to one. -/
theorem Equally.totalProbability_eq (h : p.Equally) (hcount : p.scenarioCount ≠ 0) :
    p.totalProbability = .finite 1 := by
  have hvalues : p.scenarios.map (·.probability.value) =
      p.scenarios.map fun _ => (1 : F) / p.scenarioCount :=
    List.map_congr_left fun c hc => by rw [h.share c hc, Exact.value_finite]
  have hcast : (p.scenarioCount : F) ≠ 0 := Nat.cast_ne_zero.2 hcount
  rw [h.weighted.totalProbability_eq, hvalues, List.map_const', List.sum_replicate, nsmul_eq_mul,
    ← scenarioCount_eq_length, mul_one_div, div_self hcast]

/-- A sample keeps the weights equal. -/
theorem Diluted.equally (h : p.Equally) {fresh : List (Scenario (Exact F))}
    (hn : 0 < fresh.length) (hdiluted : p.Diluted p' fresh) : p'.Equally := by
  obtain ⟨chunks, hreceives, hchunks⟩ := hdiluted.receives
  have hperm := scenarios_perm_of_receives hreceives hchunks
  have hcount : (p'.scenarioCount : F) = p.scenarioCount + fresh.length := by
    rw [scenarioCount_eq_length, hperm.length_eq, List.length_append, List.length_map, drawn,
      List.length_map, ← scenarioCount_eq_length, Nat.cast_add]
  refine ⟨partitions_ne_nil h.workers ?_, fun c hc => ?_⟩
  · rw [hreceives.partitions_length, scaled, List.length_map]
  · rw [hcount]
    rcases List.mem_append.1 (hperm.mem_iff.1 hc) with hold | hnew
    · obtain ⟨s, hs, rfl⟩ := List.mem_map.1 hold
      have hpos : (p.scenarioCount : F) ≠ 0 :=
        Nat.cast_ne_zero.2 (scenarioCount_pos_of_mem hs).ne'
      have hsize := (p.size_pos hn).ne'
      rw [value_scaled (weighted_iff.1 h.weighted s hs), h.share s hs, Exact.value_finite, dilution]
      congr 1
      field_simp
    · obtain ⟨s, -, rfl⟩ := List.mem_map.1 hnew
      rfl

/-! ## Totals -/

/-- A sum counts as one within a billionth. -/
theorem isTotal_finite_iff (S : F) :
    isTotal (Exact.finite S) = true ↔ |S - 1| ≤ 1 / 10 ^ 9 := by
  have habs : Scalar.abs (Exact.finite S - 1) = .finite |S - 1| := by
    rw [Exact.one_eq, Exact.finite_sub, Scalar.abs, Exact.zero_eq, Exact.less_finite]
    by_cases hneg : S - 1 < 0
    · rw [if_pos (decide_eq_true hneg), Exact.neg_finite, abs_of_neg hneg]
    · rw [if_neg (by simpa using hneg), abs_of_nonneg (not_lt.1 hneg)]
  have htolerance : (probabilityTolerance : Exact F) = .finite (1 / 10 ^ 9) := by
    show Exact.finite (((1 : Nat) : F) / 10 ^ 9) = _
    rw [Nat.cast_one]
  rw [isTotal, habs, htolerance, Exact.atMost_finite, decide_eq_true_iff]

/-- Equal weights are left as they are. -/
theorem Equally.validate_leaves (h : p.Equally) (normalize : Option Bool) :
    (validate normalize : Edit σ (Exact F) Unit).Ensures p (fun _ p' => p' = p)
      fun _ p' => p' = p := by
  unfold validate
  refine Change.ensures_bind (Change.ensures_state ?_)
  split
  · exact Change.ensures_bind (Change.ensures_fail rfl)
  rename_i hcount
  have htotal : isTotal p.totalProbability = true := by
    rw [h.totalProbability_eq hcount, isTotal_finite_iff, sub_self, abs_zero]
    positivity
  dsimp only
  rw [if_pos htotal]
  exact Change.ensures_pure rfl

theorem Equally.optimize_ensures (h : p.Equally) (solver : Option (Solver σ (Exact F))) :
    (optimize solver).Ensures p (fun _ p' => p'.Equally) fun _ p' => p'.Equally := by
  unfold optimize
  refine Change.ensures_bind (Change.ensures_state (Change.ensures_bind
    ((generate_preserves_placement p).mono (fun _ p₁ hp₁ => ?_) fun _ _ hp₁ => h.of_placement hp₁)))
  have h₁ := h.of_placement hp₁
  refine Change.ensures_bind ((h₁.validate_leaves none).mono (fun _ p₂ hp₂ => ?_)
    fun _ _ hp₂ => hp₂ ▸ h₁)
  subst hp₂
  split
  · exact Change.ensures_fail h₁
  · rename_i s hs
    have hsolve := (solve_commit_preserves_placement s p₂).mono
      (fun _ _ hp' => h₁.of_placement hp') fun _ _ hp' => h₁.of_placement hp'
    unfold StructuredSolver.solve at hsolve
    simpa only [bind_assoc] using hsolve

/-- Spreading the scenarios keeps them in order. -/
theorem rebalance_preserves_scenarios {K : Type} [Scalar K] (workers : Setting K)
    (p : Program σ K) : Preserves scenarios (rebalance workers) p := by
  unfold rebalance
  refine preserves_state (preserves_lift fun parts => ?_)
  refine Change.ensures_bind (Change.ensures_lift ((Policy.evenSplit_settles p.scenarioCount
    parts).mono ?_ fun _ _ => rfl))
  rintro sizes ⟨-, hplaces⟩
  exact Change.ensures_update (congrArg (List.map _) (flatMap_chunks 0 hplaces.sum_toNat))

theorem Equally.sample (h : p.Equally) (sampler : Sampler σ (Exact F)) (n : Setting (Exact F))
    (defer : Bool) (ledger : Ledger σ (Exact F)) :
    (((sample sampler n defer).runOn p).run ledger).1.2.Equally := by
  generalize hdraw : (sampler.sample n).run.run ledger = drawing
  obtain ⟨r, ledger'⟩ := drawing
  cases r with
  | error f =>
    rw [sample_failed hdraw]
    exact h
  | ok fresh =>
    generalize haccept : accept p.schema ((p.drawn fresh).map Offered.scenario) = a
    cases a with
    | error f =>
      rw [sample_misfit h.weighted hdraw haccept]
      exact h
    | ok a =>
      have hdiluted := sample_dilutes h.weighted h.workers hdraw haccept defer
      exact hdiluted.equally h (sampleSize_eq hdraw).2

/-- Equal weights stay equal, whatever becomes of an operation that adds nothing but samples. -/
theorem Operation.edit_equally (h : p.Equally) {op : Operation σ (Exact F)} (hop : op.Samples)
    (ledger : Ledger σ (Exact F)) : ((op.edit.runOn p).run ledger).1.2.Equally := by
  have hplacement : ∀ {α : Type} {c : Edit σ (Exact F) α}, Preserves placement c p →
      ((c.runOn p).run ledger).1.2.Equally := fun hc => h.of_placement (hc.after ledger)
  cases op with
  | setStageData key value => exact hplacement (setStageData_preserves_placement key value p)
  | register key c defer =>
    exact hplacement (preserves_bind (register_preserves_placement key c defer p) fun _ _ =>
      preserves_pure ())
  | add => exact hop.elim
  | addAll => exact hop.elim
  | sample sampler n defer => exact h.sample sampler n defer ledger
  | validate normalize =>
    have hsame := (h.validate_leaves normalize).after ledger
    show (((Program.validate normalize).runOn p).run ledger).1.2.Equally
    rwa [hsame]
  | rebalance workers =>
    exact h.of_scenarios ((rebalance_tends h.workers workers).after ledger).workers
      ((rebalance_preserves_scenarios workers p).after ledger)
  | generate => exact hplacement (generate_preserves_placement p)
  | optimize solver =>
    refine Change.Ensures.after (Change.ensures_bind ((h.optimize_ensures solver).mono ?_
      fun _ _ h' => h')) ledger
    exact fun _ _ h' => Change.ensures_pure h'

/-- A program whose scenarios come from samples only weighs all of them equally. -/
theorem perform_equally {ops : List (Operation σ (Exact F))} (hops : ∀ op ∈ ops, op.Samples)
    (h : p.Equally) (ledger : Ledger σ (Exact F)) : (perform ops p ledger).Equally := by
  induction ops generalizing p ledger with
  | nil => exact h
  | cons op ops ih =>
    obtain ⟨hop, hops⟩ := List.forall_mem_cons.1 hops
    exact ih hops (Operation.edit_equally h hop ledger) _

/-- A new program without scenarios. -/
theorem Constructed.equally (h : Constructed p []) : p.Equally := by
  have heven := h.evenly
  refine ⟨heven.workers, fun c hc => ?_⟩
  have hnone : p.scenarios.length = 0 := by rw [← scenarioCount_eq_length, heven.count]; rfl
  rw [List.eq_nil_of_length_eq_zero hnone] at hc
  cases hc

/-! ## Normalization -/

theorem locateIn_scaled {K : Type} [Scalar K] (factor : K) (partitions : List (Partition K))
    (i : Nat) : locateIn (partitions.map (Partition.scaled factor)) i =
      (locateIn partitions i).map fun a => (a.1.scaled factor, a.2) := by
  induction partitions generalizing i with
  | nil => rfl
  | cons q rest ih =>
    have hsize : (q.scaled factor).size = q.size := List.length_map _
    rw [List.map_cons, locateIn, locateIn, hsize, ih]
    split <;> rfl

theorem partition_subproblem_scaled {K : Type} [Scalar K] (factor : K) (q : Partition K)
    (i epoch : Int) : (q.scaled factor).subproblem i epoch = q.subproblem i epoch := by
  have hsize : (q.scaled factor).size = q.size := List.length_map _
  have hslot : (q.scaled factor).slot i .subproblem = (q.slot i .subproblem).map
      fun s => { s with scenario := s.scenario.scaled factor } := by
    unfold Partition.slot
    rw [hsize]
    by_cases hi : 0 ≤ i
    · rw [if_pos hi, if_pos hi]
      simp only [Partition.scaled, List.getElem?_map]
      cases q.slots[i.toNat]? <;> rfl
    · rw [if_neg hi, if_neg hi]
      rfl
  unfold Partition.subproblem
  rw [hslot]
  cases q.slot i .subproblem <;> rfl

/-- Rescaling leaves the subproblem of every index, and refuses the same ones. -/
theorem subproblem_scaled {K : Type} [Scalar K] (factor : K) (p : Program σ K) (i : Setting K) :
    (p.scaled factor).subproblem i = p.subproblem i := by
  have hcount : (p.scaled factor).scenarioCount = p.scenarioCount := by
    rw [scenarioCount, slots_scaled, List.length_map, scenarioCount]
  have hlocate : (p.scaled factor).locate i =
      (p.locate i).map fun a => (a.1.scaled factor, a.2) := by
    unfold locate
    rw [hcount]
    cases i.integer? with
    | none => rfl
    | some n =>
      dsimp only
      split
      · rfl
      · rw [show (p.scaled factor).partitions = p.partitions.map (Partition.scaled factor) from rfl,
          locateIn_scaled]
        cases locateIn p.partitions n.toNat <;> rfl
  unfold subproblem
  rw [hlocate]
  cases p.locate i with
  | error f => rfl
  | ok a => exact partition_subproblem_scaled factor a.1 a.2 p.secondEpoch

/-- All weights were divided by their total `S`, and everything that is built stayed. -/
structure Renormalized (p p' : Program σ (Exact F)) (S : F) : Prop where
  /-- Every partition is rescaled, and the solution is dropped. -/
  eq : p' = { p.scaled (.finite (1 / S)) with solution := none }
  /-- Every probability is one. -/
  weighted : p'.Weighted
  /-- The total is one. -/
  total : p'.totalProbability = 1
  /-- Every subproblem that was current is. -/
  subproblem : ∀ i, p'.subproblem i = p.subproblem i

theorem normalized_scaled (hp : p.Weighted) {S : F} (hS : p.totalProbability = .finite S)
    (hpos : 0 < S) : p.Renormalized { p.scaled (.finite (1 / S)) with solution := none } S := by
  have hshare : ∀ s ∈ p.slots,
      Scalar.isWeight (s.scenario.probability * .finite (1 / S)) = true := by
    have hall := hp.share (by rw [hS, Exact.zero_eq, Exact.atMost_finite]; simpa using hpos)
    rwa [hS, Exact.one_eq, Exact.finite_div hpos.ne'] at hall
  have hweighted : (p.scaled (.finite (1 / S))).Weighted := weighted_scaled hshare
  have htotal : (p.scaled (.finite (1 / S))).totalProbability = 1 := by
    have hvalues := hp.values_scaled (1 / S)
    rw [hp.totalProbability_eq] at hS
    rw [hweighted.totalProbability_eq, scenarios_scaled, hvalues, List.sum_map_mul_right,
      Exact.finite.inj hS, mul_one_div, div_self hpos.ne', Exact.one_eq]
  exact ⟨rfl, hweighted, htotal, subproblem_scaled _ p⟩

theorem scenarioCount_ne_zero_of_total (hp : p.Weighted) {S : F}
    (hS : p.totalProbability = .finite S) (hpos : 0 < S) : p.scenarioCount ≠ 0 := by
  intro hnone
  rw [scenarioCount_eq_length] at hnone
  rw [hp.totalProbability_eq, List.eq_nil_of_length_eq_zero hnone] at hS
  exact hpos.ne (Exact.finite.inj hS)

/-- A total that counts as one is left. -/
theorem validate_run_of_total {S : F} (hS : p.totalProbability = .finite S)
    (hcount : p.scenarioCount ≠ 0) (htotal : |S - 1| ≤ 1 / 10 ^ 9) (normalize : Option Bool)
    (ledger : Ledger σ (Exact F)) :
    (validate normalize : Edit σ (Exact F) Unit).run.run (p, ledger) = (.ok (), p, ledger) := by
  unfold validate
  rw [Change.run_state_bind, if_neg hcount, hS]
  dsimp only
  rw [if_pos ((isTotal_finite_iff S).2 htotal)]
  rfl

/-- Any other positive total is divided by, with a notice. -/
theorem validate_run_of_positive (hp : p.Weighted) {S : F} (hS : p.totalProbability = .finite S)
    (hpos : 0 < S) (htotal : ¬|S - 1| ≤ 1 / 10 ^ 9) (ledger : Ledger σ (Exact F)) :
    (validate (some true) : Edit σ (Exact F) Unit).run.run (p, ledger) =
      (.ok (), { p.scaled (.finite (1 / S)) with solution := none },
        { ledger with notices := ledger.notices ++ [⟨.finite S⟩] }) := by
  have hnonzero : Scalar.atMost (Exact.finite S) 0 = false := by
    rw [Exact.zero_eq, Exact.atMost_finite]
    simpa using hpos
  have hshare := hp.share (by rw [hS]; exact hnonzero)
  rw [hS, Exact.one_eq, Exact.finite_div hpos.ne'] at hshare
  unfold validate
  rw [Change.run_state_bind, if_neg (scenarioCount_ne_zero_of_total hp hS hpos), hS]
  dsimp only
  rw [if_neg (mt (isTotal_finite_iff S).1 htotal), hnonzero, if_neg (by simp), Exact.one_eq,
    Exact.finite_div hpos.ne', Change.run_bind, Change.run_ofAct]
  show (rescale (.finite (1 / S)) >>= _ : Edit σ (Exact F) Unit).run.run (p, _) = _
  rw [Change.run_bind, rescale_run hshare]
  rfl

/-- Normalization of a positive total is not refused: a total that counts as one is left, and
any other one becomes one. -/
theorem validate_normalizes (hp : p.Weighted) {S : F} (hS : p.totalProbability = .finite S)
    (hpos : 0 < S) (ledger : Ledger σ (Exact F)) :
    ∃ p' ledger', ((validate (some true)).runOn p).run ledger = ((.ok (), p'), ledger') ∧
      (|S - 1| ≤ 1 / 10 ^ 9 → p' = p) ∧ (¬|S - 1| ≤ 1 / 10 ^ 9 → p.Renormalized p' S) := by
  rw [Change.runOn_run]
  by_cases htotal : |S - 1| ≤ 1 / 10 ^ 9
  · rw [validate_run_of_total hS (scenarioCount_ne_zero_of_total hp hS hpos) htotal]
    exact ⟨p, ledger, rfl, fun _ => rfl, fun h => absurd htotal h⟩
  · rw [validate_run_of_positive hp hS hpos htotal]
    exact ⟨_, _, rfl, fun h => absurd h htotal, fun _ => normalized_scaled hp hS hpos⟩

/-! ## The distribution -/

/-- Samples and normalization keep the distribution.  A sample whose draws are accepted takes
its share from all scenarios in proportion, and any other one leaves the program as it is.  A
program whose scenarios come from samples only weighs them equally.  Normalization of a positive
total is not refused: it leaves a total that counts as one, and otherwise all probabilities are
divided by the total. -/
theorem reweighting_keeps_distribution :
    (∀ (p : Program σ (Exact F)), p.Weighted → p.partitions ≠ [] →
      ∀ (sampler : Sampler σ (Exact F)) (n : Setting (Exact F)) (defer : Bool)
        (ledger ledger' : Ledger σ (Exact F)),
        (∀ fresh, (sampler.sample n).run.run ledger = (.ok fresh, ledger') →
          (∀ a, accept p.schema ((p.drawn fresh).map Offered.scenario) = .ok a →
            p.Diluted (((sample sampler n defer).runOn p).run ledger).1.2 fresh) ∧
          ∀ f, accept p.schema ((p.drawn fresh).map Offered.scenario) = .error f →
            ((sample sampler n defer).runOn p).run ledger = ((.error f, p), ledger')) ∧
        ∀ f, (sampler.sample n).run.run ledger = (.error f, ledger') →
          ((sample sampler n defer).runOn p).run ledger = ((.error f, p), ledger')) ∧
    (∀ (p : Program σ (Exact F)) (ops : List (Operation σ (Exact F)))
      (ledger : Ledger σ (Exact F)), Constructed p [] → (∀ op ∈ ops, op.Samples) →
      (perform ops p ledger).Equally ∧ (perform ops p ledger).Weighted) ∧
    ∀ (p : Program σ (Exact F)), p.Weighted → ∀ S : F, p.totalProbability = .finite S → 0 < S →
      ∀ ledger : Ledger σ (Exact F), ∃ p' ledger',
        ((validate (some true)).runOn p).run ledger = ((.ok (), p'), ledger') ∧
          (|S - 1| ≤ 1 / 10 ^ 9 → p' = p) ∧ (¬|S - 1| ≤ 1 / 10 ^ 9 → p.Renormalized p' S) := by
  refine ⟨fun p hp hworkers sampler n defer ledger ledger' => ⟨fun fresh hdraw => ⟨?_, ?_⟩, ?_⟩,
    fun p ops ledger hp hops => ?_, fun p hp S hS hpos => validate_normalizes hp hS hpos⟩
  · exact fun a haccept => sample_dilutes hp hworkers hdraw haccept defer
  · exact fun f haccept => sample_misfit hp hdraw haccept defer
  · exact fun f hdraw => sample_failed hdraw p defer
  · have hequally := perform_equally hops hp.equally ledger
    exact ⟨hequally, hequally.weighted⟩

/-- A sampler that cannot draw. -/
def brokenSampler : Sampler (Transcript ℚ) (Exact ℚ) where
  draw := Act.fail (.misuse .value)
  reseed := fun _ => pure ()

/-- Scenarios that a sample of two draws. -/
def twice (payload : Value (Exact ℚ)) : List (Scenario (Exact ℚ)) :=
  List.replicate 2 ⟨.finite (1 / 2), payload, none⟩

theorem steady_sample_run (payload : Value (Exact ℚ)) (ledger : Ledger (Transcript ℚ) (Exact ℚ)) :
    ((steady payload).sample (.ofInt 2)).run.run ledger = (.ok (twice payload), ledger) := by
  have hsize : Sampler.sampleSize (.ofInt 2 : Setting (Exact ℚ)) = .ok 2 := by
    have hless : ¬Scalar.less (Exact.finite ((2 : Int) : ℚ)) (.finite 1) = true := by
      rw [Exact.less_finite]
      norm_num
    show (if Scalar.less (Exact.finite ((2 : Int) : ℚ)) (.finite 1) = true then
      .error (.invalid (.notPositive "sample size" (.ofInt 2))) else .ok 2 :
        Except (Fault (Exact ℚ)) Nat) = _
    rw [if_neg hless]
  have hhalf : (1 : Exact ℚ) / Scalar.ofNat 2 = .finite (1 / 2) := by
    show Exact.finite 1 / Exact.finite ((2 : Int) : ℚ) = _
    rw [Exact.finite_div (by norm_num)]
    norm_num
  have hmake : Scenario.make (.real (.finite (1 / 2))) payload none =
      .ok (⟨.finite (1 / 2), payload, none⟩ : Scenario (Exact ℚ)) :=
    Scenario.make_eq (p := .real _) (Exact.isWeight_finite.2 (by norm_num)) _ _
  unfold Sampler.sample
  rw [hsize]
  show ((steady payload).drawMany (1 / Scalar.ofNat 2) 2).run.run ledger = _
  rw [hhalf]
  simp only [Sampler.drawMany, steady, pure_bind, hmake]
  rfl

/-- More prices of the stock are drawn. -/
def drawnStock : List (Operation (Transcript ℚ) (Exact ℚ)) :=
  [.sample (steady (.real (.finite 2))) (.ofInt 2) true, .rebalance (.ofInt 2),
    .sample (steady (.real (.finite 3))) (.ofInt 3) true]

/-- Three prices that are as likely as two. -/
def overstocked : List (Operation (Transcript ℚ) (Exact ℚ)) :=
  stockSetup ++ [.add (.scenario (priced 4)) none true]

theorem overstocked_allowed : ∀ op ∈ overstocked, op.Allowed := by
  refine List.forall_mem_append.2 ⟨stockSetup_allowed, List.forall_mem_singleton.2 ?_⟩
  exact Exact.isWeight_finite.2 (by norm_num)

/-- Two prices of the stock make room for two that are drawn, while a draw that is no price and a
sampler that fails leave them; a stock of five prices that were drawn is weighted equally, and three prices that sum to more than
one are normalized. -/
theorem stock_reweighting_keeps_distribution : ∃ ledger : Ledger (Transcript ℚ) (Exact ℚ),
    (∃ p : Program (Transcript ℚ) (Exact ℚ), p.Weighted ∧ p.partitions ≠ [] ∧
      p.totalProbability = .finite 1 ∧
      p.Diluted (((sample (steady (.real (.finite 2))) (.ofInt 2) true).runOn p).run ledger).1.2
        (twice (.real (.finite 2))) ∧
      (∃ f, ((sample (steady (.text "dear")) (.ofInt 2) true).runOn p).run ledger =
        ((.error f, p), ledger)) ∧
      ((sample brokenSampler (.ofInt 2) true).runOn p).run ledger =
        ((.error (.misuse .value), p), ledger)) ∧
    (∃ (p : Program (Transcript ℚ) (Exact ℚ)) (ledger' : Ledger (Transcript ℚ) (Exact ℚ)),
      Constructed p [] ∧ (perform drawnStock p ledger').scenarioCount = 5 ∧
        (perform drawnStock p ledger').Equally) ∧
    ∃ p p' : Program (Transcript ℚ) (Exact ℚ), p.totalProbability = .finite (3 / 2) ∧
      (∃ ledger', ((validate (some true)).runOn p).run ledger = ((.ok (), p'), ledger')) ∧
      p.Renormalized p' (3 / 2) := by
  obtain ⟨hsample, hequal, hnormal⟩ :=
    reweighting_keeps_distribution (F := ℚ) (σ := Transcript ℚ)
  obtain ⟨ledger, -⟩ : ∃ ledger : Ledger (Transcript ℚ) (Exact ℚ), ledger = ⟨fullStock, [], 0⟩ :=
    ⟨_, rfl⟩
  refine ⟨ledger, ?_, ?_, ?_⟩
  · obtain ⟨p, hp, hstate⟩ := exists_reachable Setup.standard stockSetup_allowed ⟨fullStock, [], 0⟩
      (fun p => p.totalProbability == .finite 1 &&
        ((accept p.schema ((p.drawn (twice (.real (.finite 2)))).map
            Offered.scenario)).toOption.isSome && (accept p.schema ((p.drawn (twice (.text "dear"))).map
            Offered.scenario)).toOption.isNone)) (by decide +kernel)
    simp only [Bool.and_eq_true, beq_iff_eq] at hstate
    obtain ⟨htotal, hfits, hmisfit⟩ := hstate
    have hconsistent := (hp.invariant Exact.weighing).toConsistent
    have hweighted := hconsistent.weighted
    refine ⟨p, hweighted, hconsistent.workers, htotal, ?_, ?_, ?_⟩
    · cases haccept : accept p.schema
          ((p.drawn (twice (.real (.finite 2)))).map Offered.scenario) with
      | error f =>
        rw [haccept] at hfits
        cases hfits
      | ok a =>
        exact ((hsample p hweighted hconsistent.workers _ (.ofInt 2) true ledger ledger).1
          _ (steady_sample_run _ ledger)).1 a haccept
    · cases haccept : accept p.schema ((p.drawn (twice (.text "dear"))).map Offered.scenario) with
      | ok a =>
        rw [haccept] at hmisfit
        cases hmisfit
      | error f =>
        exact ⟨f, ((hsample p hweighted hconsistent.workers _ (.ofInt 2) true ledger ledger).1
          _ (steady_sample_run _ ledger)).2 f haccept⟩
    · exact (hsample p hweighted hconsistent.workers brokenSampler (.ofInt 2) true ledger
        ledger).2 _ rfl
  · obtain ⟨p, ledger', hp, hcount⟩ := exists_constructed Setup.standard drawnStock
      ⟨fullStock, [], 0⟩ (fun p => p.scenarioCount == 5) (by decide +kernel)
    have hsampled : ∀ op ∈ drawnStock, op.Samples := by simp [drawnStock, Operation.Samples]
    exact ⟨p, ledger', hp, beq_iff_eq.1 hcount, (hequal p drawnStock ledger' hp hsampled).1⟩
  · obtain ⟨p, hp, htotal⟩ := exists_reachable Setup.standard overstocked_allowed
      ⟨fullStock, [], 0⟩ (fun p => p.totalProbability == .finite (3 / 2)) (by decide +kernel)
    rw [beq_iff_eq] at htotal
    obtain ⟨p', ledger', hrun, -, hnormalized⟩ := hnormal p
      (hp.invariant Exact.weighing).toConsistent.weighted (3 / 2) htotal (by norm_num) ledger
    refine ⟨p, p', htotal, ⟨ledger', hrun⟩, hnormalized ?_⟩
    norm_num [abs_of_pos]

end Program

end Recourse
