/-
  Proofs/Program/Insertion.lean --- where new scenarios go.

  Scenarios that are added behind the others of their partitions are cut into chunks, one for
  each partition (`Receives`).  Where no partition is named, the partitions grow as if each
  scenario went to the least loaded one (`Grows`), so partitions that differ by one at most
  still do, and every scenario that is accepted is in one of them.  Calls that are refused
  in the end have added all of their scenarios or none (`addAll_receives`,
  `Operation.edit_tends`), and so a whole run keeps the balance (`insertion_balanced`).
-/
import Recourse.Proofs.Layout.Relaid
import Recourse.Proofs.Partition.Balance
import Recourse.Proofs.Program.Atomicity
import Recourse.Proofs.Program.Standing
import Mathlib.Data.List.SplitLengths

set_option autoImplicit false
set_option linter.unusedSectionVars false

namespace Recourse

variable {σ K : Type}

/-! ## Chunks -/

/-- Every list gets the chunk at its place. -/
def Program.joined {α : Type} (xss chunks : List (List α)) : List (List α) :=
  List.zipWith (· ++ ·) xss chunks

namespace Program

variable {p p' p'' : Program σ K}

/-- Every partition keeps its scenarios in order, and a chunk of new ones stands behind
them. -/
structure Receives (p p' : Program σ K) (chunks : List (List (Scenario K))) : Prop where
  /-- One chunk for each partition. -/
  length : chunks.length = p.partitions.length
  /-- The chunks stand behind the others. -/
  placement : p'.placement = joined p.placement chunks

theorem joined_replicate_nil {α : Type} (xss : List (List α)) :
    joined xss (List.replicate xss.length []) = xss := by
  induction xss with
  | nil => rfl
  | cons xs xss ih =>
    show (xs ++ []) :: joined xss (List.replicate xss.length []) = _
    rw [ih, List.append_nil]

theorem map_length_joined {α : Type} (xss chunks : List (List α)) :
    (joined xss chunks).map List.length =
      List.zipWith (· + ·) (xss.map List.length) (chunks.map List.length) := by
  rw [joined, List.map_zipWith, List.zipWith_map]
  simp only [List.length_append]

/-- No partition comes or goes. -/
theorem Receives.partitions_length {chunks : List (List (Scenario K))}
    (h : p.Receives p' chunks) : p'.partitions.length = p.partitions.length := by
  rw [← length_placement, h.placement, joined, List.length_zipWith, h.length, length_placement,
    min_self]

/-- Where nothing moves, empty chunks are received. -/
theorem receives_nothing (h : p'.placement = p.placement) :
    p.Receives p' (List.replicate p.partitions.length []) where
  length := List.length_replicate
  placement := by rw [h, ← length_placement, joined_replicate_nil]

theorem scenarios_extend (q : Partition K) (scenarios : List (Scenario K)) :
    (q.extend scenarios).scenarios = q.scenarios ++ scenarios := by
  show (q.slots ++ scenarios.map Slot.ofScenario).map _ = q.slots.map _ ++ _
  rw [List.map_append, List.map_map]
  exact congrArg _ (List.map_id _)

theorem placement_extendEach {partitions : List (Partition K)} {counts : List Nat}
    (h : counts.length = partitions.length) (scenarios : List (Scenario K)) :
    (extendEach partitions counts scenarios).map Partition.scenarios =
      joined (partitions.map Partition.scenarios) (counts.splitLengths scenarios) := by
  induction partitions generalizing counts scenarios with
  | nil => rfl
  | cons q partitions ih =>
    cases counts with
    | nil => cases h
    | cons n counts =>
      rw [extendEach, List.map_cons, ih (Nat.succ.inj h), List.splitLengths_cons,
        scenarios_extend, List.map_cons]
      rfl

/-- Scenarios that go to one partition are the only chunk that is not empty. -/
theorem placement_extendAt {partitions : List (Partition K)} {k : Nat}
    (hk : k < partitions.length) (scenarios : List (Scenario K)) :
    ∃ chunks : List (List (Scenario K)), chunks.length = partitions.length ∧
      chunks.flatten = scenarios ∧
      (partitions.modify k (·.extend scenarios)).map Partition.scenarios =
        joined (partitions.map Partition.scenarios) chunks := by
  induction partitions generalizing k with
  | nil => exact absurd hk (Nat.not_lt_zero k)
  | cons q partitions ih =>
    cases k with
    | zero =>
      refine ⟨scenarios :: List.replicate partitions.length [], by simp, by simp, ?_⟩
      have hrest := joined_replicate_nil (partitions.map Partition.scenarios)
      rw [List.length_map] at hrest
      rw [List.modify_zero_cons, List.map_cons, List.map_cons, scenarios_extend, joined,
        List.zipWith_cons_cons]
      exact congrArg _ hrest.symm
    | succ k =>
      obtain ⟨chunks, hlength, hflatten, hjoined⟩ := ih (Nat.lt_of_succ_lt_succ hk)
      refine ⟨[] :: chunks, by simp [hlength], by simpa using hflatten, ?_⟩
      rw [List.modify_succ_cons, List.map_cons, hjoined, List.map_cons, joined, joined,
        List.zipWith_cons_cons, List.append_nil]

/-! ## Loads -/

/-- The number of scenarios of each partition, as the policies take it. -/
def loads (p : Program σ K) : List Int := p.partitionSizes.map Int.ofNat

/-- The partitions grow as if each of `n` scenarios went to the least loaded one. -/
def Grows (p p' : Program σ K) (n : Nat) : Prop :=
  ∃ ks, Policy.targets (K := K) n p.loads = .ok ks ∧ p'.loads = ks.foldl Policy.increment p.loads

theorem grows_zero (h : p'.partitionSizes = p.partitionSizes) : p.Grows p' 0 :=
  ⟨[], rfl, by rw [loads, h]; rfl⟩

theorem Grows.congr {n : Nat} (h : p.Grows p' n) (hp : p.partitionSizes = p''.partitionSizes) :
    p''.Grows p' n := by
  unfold Grows loads at h ⊢
  rwa [← hp]

/-- New scenarios were spread over the least loaded partitions. -/
structure Filled (p p' : Program σ K) (scenarios : List (Scenario K)) : Prop where
  /-- Chunks that make up the list. -/
  receives : ∃ chunks, p.Receives p' chunks ∧ chunks.flatten = scenarios
  /-- The least loaded partitions grow. -/
  grows : p.Grows p' scenarios.length

theorem filled_nothing (h : p'.placement = p.placement) : p.Filled p' [] where
  receives := ⟨_, receives_nothing h, by simp⟩
  grows := grows_zero (by rw [← map_length_placement, h, map_length_placement])

theorem loads_ne_nil (hp : p.partitions ≠ []) : p.loads ≠ [] := by
  simpa [loads, partitionSizes] using hp

theorem map_ofNat_zipWith (xs : List Nat) {counts : List Int} (h : ∀ c ∈ counts, 0 ≤ c) :
    (List.zipWith (· + ·) xs (counts.map Int.toNat)).map Int.ofNat =
      List.zipWith (· + ·) (xs.map Int.ofNat) counts := by
  induction xs generalizing counts with
  | nil => rfl
  | cons x xs ih =>
    cases counts with
    | nil => rfl
    | cons c counts =>
      obtain ⟨hc, hcounts⟩ := List.forall_mem_cons.1 h
      rw [List.map_cons, List.zipWith_cons_cons, List.map_cons, ih hcounts, List.map_cons,
        List.zipWith_cons_cons]
      refine congrArg (· :: _) ?_
      show ((x + c.toNat : Nat) : Int) = x + c
      omega

/-- The counts of new scenarios say how long the chunks are. -/
theorem filled_of_counts (hp : p.partitions ≠ []) {scenarios : List (Scenario K)}
    {counts : List Int} (hcounts : Policy.fillCounts (K := K) p.loads scenarios.length = .ok counts)
    (h : p'.placement = (extendEach p.partitions (counts.map Int.toNat) scenarios).map
      Partition.scenarios) : p.Filled p' scenarios := by
  have hplaces := (Policy.fillCounts_settles p.loads scenarios.length).of_ok hcounts
  obtain ⟨ks, htargets, -, hfill⟩ :=
    Policy.fillCounts_eq_targets (K := K) (loads_ne_nil hp) scenarios.length
  have hlength : (counts.map Int.toNat).length = p.partitions.length := by
    rw [List.length_map, hplaces.length, loads, partitionSizes, List.length_map, List.length_map]
  have hsum : (counts.map Int.toNat).sum = scenarios.length := hplaces.sum_toNat
  have hjoined := h.trans (placement_extendEach hlength scenarios)
  refine ⟨⟨(counts.map Int.toNat).splitLengths scenarios, ⟨?_, hjoined⟩, ?_⟩, ks, htargets, ?_⟩
  · rw [List.length_splitLengths, hlength]
  · exact List.flatten_splitLengths _ _ hsum.ge
  · have hsizes := congrArg (List.map List.length) hjoined
    rw [map_length_placement, map_length_joined, List.map_splitLengths_length _ _ hsum.le] at hsizes
    change p'.partitionSizes = List.zipWith _ (p.placement.map _) _ at hsizes
    rw [map_length_placement] at hsizes
    have hloads : p'.loads = List.zipWith (· + ·) p.loads counts := by
      rw [loads, hsizes, map_ofNat_zipWith _ hplaces.nonneg, loads]
    rw [hloads, ← Policy.zipWith_counts, Except.ok.inj (hfill.symm.trans hcounts)]

/-! ## What is accepted -/

section Scalar

variable [Scalar K]

/-- Arithmetic in which a whole number that is below a count stands for a position in front of
it. -/
def Ranking (K : Type) [Scalar K] : Prop :=
  ∀ (w : Setting K) (x : K) (n : Int) (m : Nat), w.number? = some x → w.integer? = some n →
    Scalar.less x (Scalar.ofNat m) = true → n < m

/-- Refuse a worker that is no position. -/
def checkDestination (p : Program σ K) : Option (Setting K) → Except (Fault K) Unit
  | none => .ok ()
  | some w => do
      p.checkWorker w
      let _ ← workerPosition w
      return ()

/-- The scenarios on offer that are added: all of them, or none. -/
def admitted (p : Program σ K) (offered : List (Offered K)) (worker : Option (Setting K)) :
    List (Scenario K) :=
  match p.checkDestination worker, accept p.schema offered with
  | .ok _, .ok a => a.2
  | _, _ => []

/-- Scenarios that are accepted are accepted as they are. -/
theorem accept_scenarios {schema schema' : Option Schema} {scenarios accepted : List (Scenario K)}
    (h : accept schema (scenarios.map Offered.scenario) = .ok (schema', accepted)) :
    accepted = scenarios := by
  have hinjective : Function.Injective (Offered.scenario : Scenario K → Offered K) :=
    fun _ _ h => Offered.scenario.inj h
  exact (hinjective.list_map ((accept_settles schema _).of_ok h)).symm

theorem admitted_eq {p : Program σ K} {offered : List (Offered K)} {worker : Option (Setting K)}
    (hworker : p.checkDestination worker = .ok ()) {schema : Option Schema}
    {accepted : List (Scenario K)} (h : accept p.schema offered = .ok (schema, accepted)) :
    p.admitted offered worker = accepted := by
  rw [admitted, hworker, h]

theorem admitted_of_misfit {p : Program σ K} {offered : List (Offered K)} {f : Fault K}
    (h : accept p.schema offered = .error f) (worker : Option (Setting K)) :
    p.admitted offered worker = [] := by
  rw [admitted, h]
  split
  · rename_i heq
    cases heq
  · rfl

theorem admitted_of_refused {p : Program σ K} {worker : Option (Setting K)} {f : Fault K}
    (h : p.checkDestination worker = .error f) (offered : List (Offered K)) :
    p.admitted offered worker = [] := by
  rw [admitted, h]

theorem admitted_nil (p : Program σ K) (worker : Option (Setting K)) :
    p.admitted [] worker = [] := by
  unfold admitted accept
  split
  · rename_i heq
    cases heq
    rfl
  · rfl

/-- A worker that passes is the position of a partition. -/
theorem workerPosition_lt (hK : Ranking K) (hp : p.partitions ≠ []) {w : Setting K}
    (hcheck : p.checkWorker w = .ok ()) {k : Nat} (hk : workerPosition w = .ok k) :
    k < p.partitions.length := by
  unfold workerPosition at hk
  cases hint : w.integer? with
  | none =>
    rw [hint] at hk
    cases hk
  | some n =>
    rw [hint] at hk
    cases hk
    unfold checkWorker at hcheck
    cases hnumber : w.number? with
    | none =>
      rw [hnumber] at hcheck
      cases hcheck
    | some x =>
      rw [hnumber] at hcheck
      dsimp only at hcheck
      split at hcheck
      · rename_i hrange
        have hlt := hK w x n _ hnumber hint (Bool.and_eq_true_iff.1 hrange).2
        have hpos := List.length_pos_iff.2 hp
        omega
      · cases hcheck

/-- What follows on new scenarios leaves them where they are. -/
theorem finishAdding_preserves_placement (defer : Bool) (p : Program σ K) :
    Preserves placement (finishAdding defer) p := by
  unfold finishAdding
  refine preserves_bind (preserves_update rfl) fun _ p' => preserves_state ?_
  split
  · exact generate_preserves_placement p'
  · exact preserves_pure ()

/-! ## Adding -/

/-- Whatever becomes of the call, all scenarios that are accepted are spread over the least
loaded partitions. -/
theorem addAll_fills (hp : p.partitions ≠ []) (offered : List (Offered K)) (defer : Bool) :
    (addAll offered none defer).Ensures p
      (fun _ p' => p.Filled p' (p.admitted offered none) ∧
        offered = (p.admitted offered none).map Offered.scenario)
      fun _ p' => p.Filled p' (p.admitted offered none) := by
  unfold addAll
  split
  · rename_i hempty
    rw [List.isEmpty_iff] at hempty
    subst hempty
    rw [admitted_nil]
    exact Change.ensures_pure ⟨filled_nothing rfl, rfl⟩
  refine Change.ensures_bind (Change.ensures_state ?_)
  refine Change.ensures_bind (Change.ensures_lift ((Settles.exactly _).mono ?_ fun f haccept =>
    admitted_of_misfit haccept none ▸ filled_nothing rfl))
  rintro ⟨schema, accepted⟩ haccept
  have hoffered : offered = accepted.map Offered.scenario :=
    (accept_settles p.schema offered).of_ok haccept
  rw [admitted_eq rfl haccept]
  refine Change.ensures_bind (Change.ensures_update (Change.ensures_bind (Change.ensures_lift
    ((Policy.fillCounts_settles p.loads accepted.length).with_eq.mono ?_ ?_))))
  · rintro counts ⟨hcounts, -⟩
    refine Change.ensures_bind (Change.ensures_update
      ((finishAdding_preserves_placement defer _).mono ?_ ?_))
    · exact fun _ p' h => ⟨filled_of_counts hp hcounts h, hoffered⟩
    · exact fun _ p' h => filled_of_counts hp hcounts h
  · exact fun f hnil => absurd hnil (loads_ne_nil hp)

theorem checkDestination_some {p : Program σ K} {w : Setting K}
    (hcheck : p.checkWorker w = .ok ()) :
    p.checkDestination (some w) = (workerPosition w).map fun _ => () := by
  rw [checkDestination, hcheck]
  cases workerPosition w <;> rfl

/-- A named partition gets all scenarios that are accepted. -/
theorem addAll_at_receives (hK : Ranking K) (hp : p.partitions ≠ []) (offered : List (Offered K))
    (w : Setting K) (defer : Bool) :
    (addAll offered (some w) defer).Ensures p
      (fun _ p' => (∃ chunks, p.Receives p' chunks ∧ chunks.flatten = p.admitted offered (some w)) ∧
        offered = (p.admitted offered (some w)).map Offered.scenario)
      fun _ p' => ∃ chunks, p.Receives p' chunks ∧
        chunks.flatten = p.admitted offered (some w) := by
  -- Every refusal leaves the placement, and then nothing was admitted.
  have hnothing : ∀ p' : Program σ K, p'.placement = p.placement →
      p.admitted offered (some w) = [] →
        ∃ chunks, p.Receives p' chunks ∧ chunks.flatten = p.admitted offered (some w) :=
    fun p' h hnone => ⟨_, receives_nothing h, by simp [hnone]⟩
  unfold addAll
  split
  · rename_i hempty
    rw [List.isEmpty_iff] at hempty
    subst hempty
    have hnone := p.admitted_nil (some w)
    exact Change.ensures_pure ⟨hnothing p rfl hnone, by rw [hnone]; rfl⟩
  refine Change.ensures_bind (Change.ensures_state (Change.ensures_bind (Change.ensures_lift
    ((Settles.exactly _).mono (fun _ hcheck => ?_) fun f hcheck => hnothing p rfl ?_))))
  swap
  · refine admitted_of_refused (f := f) ?_ offered
    rw [checkDestination, hcheck]
    rfl
  refine Change.ensures_bind (Change.ensures_lift ((Settles.exactly _).mono ?_ fun f haccept =>
    hnothing p rfl (admitted_of_misfit haccept _)))
  rintro ⟨schema, accepted⟩ haccept
  have hoffered : offered = accepted.map Offered.scenario :=
    (accept_settles p.schema offered).of_ok haccept
  refine Change.ensures_bind (Change.ensures_update (Change.ensures_bind (Change.ensures_lift
    ((Settles.exactly _).mono (fun k hk => ?_) fun f hk => hnothing _ rfl ?_))))
  swap
  · refine admitted_of_refused (f := f) ?_ offered
    rw [checkDestination_some hcheck, hk]
    rfl
  have hpass : p.checkDestination (some w) = .ok () := by
    rw [checkDestination_some hcheck, hk]
    rfl
  rw [admitted_eq hpass haccept]
  obtain ⟨chunks, hlength, hflatten, hplacement⟩ :=
    placement_extendAt (workerPosition_lt hK hp hcheck hk) accepted
  refine Change.ensures_bind (Change.ensures_update
    ((finishAdding_preserves_placement defer _).mono ?_ ?_))
  · exact fun _ p' h => ⟨⟨chunks, ⟨hlength, h.trans hplacement⟩, hflatten⟩, hoffered⟩
  · exact fun _ p' h => ⟨chunks, ⟨hlength, h.trans hplacement⟩, hflatten⟩

/-- Bulk insertion loses nothing: every partition keeps its scenarios in order, and the new
ones are cut into a chunk for each. -/
theorem addAll_receives (hK : Ranking K) (hp : p.partitions ≠ []) (offered : List (Offered K))
    (worker : Option (Setting K)) (defer : Bool) :
    (addAll offered worker defer).Ensures p
      (fun _ p' => (∃ chunks, p.Receives p' chunks ∧ chunks.flatten = p.admitted offered worker) ∧
        offered = (p.admitted offered worker).map Offered.scenario)
      fun _ p' => ∃ chunks, p.Receives p' chunks ∧ chunks.flatten = p.admitted offered worker := by
  cases worker with
  | none =>
    exact (addAll_fills hp offered defer).mono (fun _ _ h => ⟨h.1.receives, h.2⟩)
      fun _ _ h => h.receives
  | some w => exact addAll_at_receives hK hp offered w defer

/-- One scenario more in a partition is one more on its load. -/
theorem loads_extendAt (k : Nat) {scenarios : List (Scenario K)} (hone : scenarios.length = 1)
    (p : Program σ K) : (extendAt k scenarios p).loads = Policy.increment p.loads k := by
  refine List.ext_getElem? fun j => ?_
  simp only [loads, partitionSizes, extendAt, Policy.getElem?_increment, List.getElem?_map,
    List.getElem?_modify]
  cases p.partitions[j]? with
  | none => rfl
  | some q =>
    by_cases hkj : k = j
    · simp [hkj, Partition.size, Partition.extend, hone]
    · simp [hkj]

/-- One scenario goes to the least loaded partition. -/
theorem add_grows (hp : p.partitions ≠ []) (offered : Offered K) (defer : Bool) :
    (add offered none defer).Ensures p (fun _ p' => p.Grows p' (p.admitted [offered] none).length)
      fun _ p' => p.Grows p' (p.admitted [offered] none).length := by
  unfold add
  refine Change.ensures_bind (Change.ensures_state (Change.ensures_bind (Change.ensures_lift
    ((Settles.exactly _).mono (fun k hk => ?_) fun f hf => ?_))))
  swap
  · obtain ⟨k, hk⟩ := Policy.exists_smallest (loads_ne_nil hp)
    exact nomatch hf.symm.trans (Policy.leastLoaded_eq hk)
  refine Change.ensures_bind (Change.ensures_lift ((Settles.exactly _).mono ?_ fun f haccept =>
    admitted_of_misfit haccept none ▸ grows_zero rfl))
  rintro ⟨schema, accepted⟩ haccept
  have hone : accepted.length = 1 := by
    have hlength := congrArg List.length ((accept_settles p.schema [offered]).of_ok haccept)
    simpa using hlength.symm
  rw [admitted_eq rfl haccept, hone]
  have htargets : Policy.targets (K := K) 1 p.loads = .ok [k] := by
    change Policy.leastLoaded (K := K) p.loads = .ok k at hk
    rw [Policy.targets, hk]
    rfl
  have hgrows : ∀ p' : Program σ K, p'.placement = (extendAt k accepted p).placement →
      p.Grows p' 1 := by
    intro p' h
    refine ⟨[k], htargets, ?_⟩
    rw [List.foldl_cons, List.foldl_nil, ← loads_extendAt k hone, loads, loads,
      ← map_length_placement, h, map_length_placement]
  exact Change.ensures_bind (Change.ensures_update (Change.ensures_bind (Change.ensures_pure
    (Change.ensures_bind (Change.ensures_update ((finishAdding_preserves_placement defer _).mono
      (fun _ p' h => hgrows p' h) fun _ p' h => hgrows p' h))))))

/-! ## Samples -/

variable [Host σ K]

/-- What is done for a sample before it is added: scenarios are drawn and checked, and those
that are there make room for them. -/
def prepare (sampler : Sampler σ K) (n : Setting K) : Edit σ K (List (Scenario K)) := do
  let p ← Change.state
  let size ← Sampler.sampleSize n
  let total : K := Scalar.ofNat (p.scenarioCount + size)
  let fresh ← sampler.sample n
  let drawn : List (Scenario K) ← fresh.mapM fun s => s.withProbability (.real (1 / total))
  let _ ← accept (K := K) p.schema (drawn.map Offered.scenario)
  if p.scenarioCount ≠ 0 then rescale (Scalar.ofNat p.scenarioCount / total)
  return drawn

/-- A sample is added as any other list of scenarios is. -/
theorem sample_eq (sampler : Sampler σ K) (n : Setting K) (defer : Bool) :
    sample sampler n defer = (do
      let drawn ← prepare sampler n
      addAll (drawn.map Offered.scenario) none defer) := by
  unfold sample prepare
  simp only [bind_assoc]
  refine bind_congr fun p => bind_congr fun size => bind_congr fun fresh => bind_congr fun drawn =>
    bind_congr fun a => ?_
  split
  · rw [bind_assoc]
    exact bind_congr fun _ => (pure_bind _ _).symm
  · exact (pure_bind _ _).symm

/-- Until a sample is added, every partition is as large as it was, and what was drawn
fits. -/
theorem prepare_ensures (sampler : Sampler σ K) (n : Setting K) (p : Program σ K) :
    (prepare sampler n).Ensures p
      (fun drawn p' => p'.partitionSizes = p.partitionSizes ∧
        ∃ schema, accept p'.schema (drawn.map Offered.scenario) = .ok (schema, drawn))
      fun _ p' => p'.partitionSizes = p.partitionSizes := by
  unfold prepare
  refine Change.ensures_bind (Change.ensures_state (Change.ensures_lift_bind (fun size _ => ?_)
    fun _ => rfl))
  refine Change.ensures_ofAct_bind (fun fresh => ?_) fun _ => rfl
  refine Change.ensures_bind ((mapM_ensures (P := fun _ => True) fresh fun s _ =>
    (Settles.self _).mono (fun _ _ => trivial) fun _ h => h).mono ?_ fun _ _ h => h ▸ rfl)
  rintro drawn _ ⟨rfl, -⟩
  refine Change.ensures_bind (Change.ensures_lift
    ((Settles.exactly _).mono ?_ fun _ _ => rfl))
  rintro ⟨schema, accepted⟩ haccept
  obtain rfl := accept_scenarios haccept
  dsimp only
  split
  · -- Making room leaves the schema, so what fits before fits afterwards.
    refine Change.ensures_bind (((rescale_preserves_sizes _ _).and (rescale_reweighs _ _)).mono ?_
      fun _ _ h => h.1)
    rintro _ p' ⟨hsizes, hreweighed⟩
    refine Change.ensures_pure ⟨hsizes, schema, ?_⟩
    rw [hreweighed.rest]
    exact haccept
  · exact Change.ensures_pure ⟨rfl, schema, haccept⟩

/-! ## Operations -/

/-- Scenarios are added without naming a partition. -/
def Operation.Default : Operation σ K → Prop
  | .add _ worker _ => worker = none
  | .addAll _ worker _ => worker = none
  | _ => True

/-- The scenarios that an operation adds, with the ledger that it starts from: those on offer
where they are accepted, and those drawn where the others make room for them. -/
def Operation.arrivals (p : Program σ K) (ledger : Ledger σ K) :
    Operation σ K → List (Scenario K)
  | .add offered worker _ => p.admitted [offered] worker
  | .addAll offered worker _ => p.admitted offered worker
  | .sample sampler n _ =>
      ((prepare sampler n).run.run (p, ledger)).1.toOption.getD []
  | _ => []

/-- How many scenarios a list of operations adds. -/
def arrivalCount : List (Operation σ K) → Program σ K → Ledger σ K → Nat
  | [], _, _ => 0
  | op :: ops, p, ledger =>
      (op.arrivals p ledger).length +
        arrivalCount ops ((op.edit.runOn p).run ledger).1.2 ((op.edit.runOn p).run ledger).2

/-- The partitions differ by one scenario at most. -/
def Balanced (p : Program σ K) : Prop :=
  ∀ a ∈ p.partitionSizes, ∀ b ∈ p.partitionSizes, a ≤ b + 1

theorem balanced_iff (hp : p.partitions ≠ []) : p.Balanced ↔ Policy.imbalance p.loads ≤ 1 := by
  rw [Policy.imbalance_le_iff (loads_ne_nil hp), loads, Balanced, List.forall_mem_map]
  refine forall₂_congr fun a _ => ?_
  rw [List.forall_mem_map]
  refine forall₂_congr fun b _ => ?_
  show a ≤ b + 1 ↔ (a : Int) - b ≤ 1
  omega

/-- There are partitions still, they are balanced if they were, and there are `n` more
scenarios. -/
structure Tends (p p' : Program σ K) (n : Nat) : Prop where
  /-- There are partitions. -/
  workers : p'.partitions ≠ []
  /-- The balance is kept. -/
  balanced : p.Balanced → p'.Balanced
  /-- The new scenarios are counted. -/
  count : p'.scenarioCount = p.scenarioCount + n

theorem Grows.tends {n : Nat} (hp : p.partitions ≠ []) (h : p.Grows p' n) : p.Tends p' n := by
  obtain ⟨ks, htargets, hloads⟩ := h
  have hne := loads_ne_nil hp
  have hsum := Policy.sum_targets hne htargets
  have himbalance := Policy.imbalance_targets hne htargets
  have hworkers : p'.partitions ≠ [] := partitions_ne_nil hp <| by
    have hlength := congrArg List.length hloads
    simpa only [Policy.length_foldl_increment, loads, partitionSizes, List.length_map] using hlength
  have hcount : ∀ q : Program σ K, q.loads.sum = q.scenarioCount := by
    intro q
    rw [← sum_partitionSizes, loads]
    exact (Nat.cast_list_sum (R := Int) _).symm
  refine ⟨hworkers, fun hbalanced => ?_, ?_⟩
  · rw [balanced_iff hp] at hbalanced
    rw [balanced_iff hworkers, hloads]
    omega
  · rw [← hloads, hcount, hcount] at hsum
    exact_mod_cast hsum

theorem tends_of_sizes (hp : p.partitions ≠ []) (h : p'.partitionSizes = p.partitionSizes) :
    p.Tends p' 0 := (grows_zero h).tends hp

/-- Refused or not, a change that leaves the sizes adds nothing. -/
theorem Preserves.tends {α : Type} {c : Edit σ K α} (hp : p.partitions ≠ [])
    (h : Preserves partitionSizes c p) (ledger : Ledger σ K) :
    p.Tends ((c.runOn p).run ledger).1.2 0 :=
  tends_of_sizes hp (h.after ledger)

theorem balanced_of_pairwise (h : p.partitionSizes.Pairwise fun a b => b ≤ a ∧ a ≤ b + 1) :
    p.Balanced := by
  rw [List.pairwise_iff_getElem] at h
  intro a ha b hb
  obtain ⟨i, hi, rfl⟩ := List.getElem_of_mem ha
  obtain ⟨j, hj, rfl⟩ := List.getElem_of_mem hb
  rcases lt_trichotomy i j with hij | rfl | hij
  · exact (h i j hi hj hij).2
  · exact Nat.le_succ _
  · exact (h j i hj hi hij).1.trans (Nat.le_succ _)

/-- Spreading the scenarios over partitions balances them. -/
theorem rebalance_tends (hp : p.partitions ≠ []) (workers : Setting K) :
    (rebalance workers : Edit σ K Unit).Ensures p (fun _ p' => p.Tends p' 0)
      fun _ p' => p.Tends p' 0 := by
  have hsame := tends_of_sizes hp (rfl : p.partitionSizes = p.partitionSizes)
  unfold rebalance
  refine Change.ensures_bind (Change.ensures_state (Change.ensures_lift_bind (fun parts _ => ?_)
    fun _ => hsame))
  refine Change.ensures_bind (Change.ensures_lift (((Policy.evenSplit_settles p.scenarioCount
    parts).and (evenSplit_even p.scenarioCount parts)).mono ?_ fun _ _ => hsame))
  rintro sizes ⟨⟨hne, hplaces⟩, heven⟩
  have hlength : (sizes.map Int.toNat).sum = p.slots.length := hplaces.sum_toNat
  have hsizes := sizes_chunks (K := K) 0 hlength
  refine Change.ensures_update ⟨?_, fun _ => balanced_of_pairwise ?_, ?_⟩
  · intro hnil
    have hcount := length_chunks 0 (sizes.map Int.toNat) p.slots
    rw [show chunks 0 (sizes.map Int.toNat) p.slots = [] from hnil, List.length_map] at hcount
    exact hne (List.eq_nil_of_length_eq_zero hcount.symm)
  · show List.Pairwise _ (List.map _ _)
    rw [hsizes]
    exact heven
  · exact congrArg List.length (flatMap_chunks 0 hlength)

/-- The program that a sequence of two changes leaves. -/
theorem after_bind {α β : Type} {c : Edit σ K α} {f : α → Edit σ K β} (ledger : Ledger σ K) :
    ((((c >>= f).runOn p).run ledger).1.2 = match c.run.run (p, ledger) with
      | (.ok a, p', ledger') => (((f a).runOn p').run ledger').1.2
      | (.error _, p', _) => p') := by
  rw [Change.runOn_run, Change.run_bind]
  generalize c.run.run (p, ledger) = after
  obtain ⟨r, p', ledger'⟩ := after
  cases r <;> rfl

theorem sample_tends (hp : p.partitions ≠ []) (sampler : Sampler σ K) (n : Setting K)
    (defer : Bool) (ledger : Ledger σ K) :
    p.Tends (((sample sampler n defer).runOn p).run ledger).1.2
      (Operation.arrivals p ledger (.sample sampler n defer)).length := by
  have hprepare := prepare_ensures sampler n p ledger
  rw [sample_eq, after_bind]
  show p.Tends _ (((prepare sampler n).run.run (p, ledger)).1.toOption.getD []).length
  generalize (prepare sampler n).run.run (p, ledger) = after at hprepare ⊢
  obtain ⟨r, p', ledger'⟩ := after
  cases r with
  | error f => exact tends_of_sizes hp hprepare
  | ok drawn =>
    obtain ⟨hsizes, schema, haccept⟩ := hprepare
    have hp' : p'.partitions ≠ [] := partitions_ne_nil hp <| by
      simpa only [partitionSizes, List.length_map] using congrArg List.length hsizes
    -- The draws were checked before they are added, so none of them is turned away now.
    have hfills := (addAll_fills hp' (drawn.map Offered.scenario) defer).mono
      (fun _ _ h => h.1.grows) fun _ _ h => h.grows
    have hgrows := hfills.after ledger'
    rw [admitted_eq rfl haccept] at hgrows
    exact (hgrows.congr hsizes).tends hp

/-- Whatever becomes of an operation that names no partition, it keeps the balance, and the
scenarios that are accepted are there. -/
theorem Operation.edit_tends (hp : p.partitions ≠ []) {op : Operation σ K} (hop : op.Default)
    (ledger : Ledger σ K) :
    p.Tends ((op.edit.runOn p).run ledger).1.2 (op.arrivals p ledger).length := by
  cases op with
  | setStageData key value =>
    exact (setStageData_preserves_placement key value p).sizes.tends hp ledger
  | register key c defer =>
    exact (preserves_bind (register_preserves_placement key c defer p) fun _ _ =>
      preserves_pure ()).sizes.tends hp ledger
  | add offered worker defer =>
    obtain rfl : worker = none := hop
    exact ((add_grows hp offered defer).after ledger).tends hp
  | addAll offered worker defer =>
    obtain rfl : worker = none := hop
    exact (((addAll_fills hp offered defer).mono (fun _ _ h => h.1.grows)
      fun _ _ h => h.grows).after ledger).tends hp
  | sample sampler n defer => exact sample_tends hp sampler n defer ledger
  | validate normalize => exact (validate_preserves_sizes normalize p).tends hp ledger
  | rebalance workers => exact (rebalance_tends hp workers).after ledger
  | generate => exact (generate_preserves_placement p).sizes.tends hp ledger
  | optimize solver =>
    exact (preserves_bind (optimize_preserves_sizes solver p) fun _ _ =>
      preserves_pure ()).tends hp ledger

/-! ## Runs -/

theorem Tends.trans {m n : Nat} (h : p.Tends p' m) (h' : p'.Tends p'' n) :
    p.Tends p'' (m + n) where
  workers := h'.workers
  balanced := fun hp => h'.balanced (h.balanced hp)
  count := by rw [h'.count, h.count, Nat.add_assoc]

/-- A run of operations that name no partition keeps the balance, and all scenarios that are
accepted on the way are there. -/
theorem perform_tends {ops : List (Operation σ K)} (hops : ∀ op ∈ ops, op.Default)
    (hp : p.partitions ≠ []) (ledger : Ledger σ K) :
    p.Tends (perform ops p ledger) (arrivalCount ops p ledger) := by
  induction ops generalizing p ledger with
  | nil => exact tends_of_sizes hp rfl
  | cons op ops ih =>
    obtain ⟨hop, hops⟩ := List.forall_mem_cons.1 hops
    have hstep := Operation.edit_tends hp hop ledger
    exact hstep.trans (ih hops hstep.workers _)

/-- A program that was just made, with the scenarios that it was made with. -/
inductive Constructed : Program σ K → List (Scenario K) → Prop
  /-- Without scenarios. -/
  | empty (s : Setup σ K) {ledger ledger' : Ledger σ K} {p : Program σ K}
      (h : (create s).run.run ledger = (.ok p, ledger')) : Constructed p []
  /-- With scenarios. -/
  | filled (s : Setup σ K) {scenarios : List (Scenario K)} {ledger ledger' : Ledger σ K}
      {p : Program σ K} (h : (createWith s scenarios).run.run ledger = (.ok p, ledger')) :
      Constructed p scenarios
  /-- From a template. -/
  | instantiated (t : Template σ K) (s : Setup σ K) {scenarios : List (Scenario K)} (defer : Bool)
      {ledger ledger' : Ledger σ K} {p : Program σ K}
      (h : (t.instantiate s scenarios defer).run.run ledger = (.ok p, ledger')) :
      Constructed p scenarios

/-- A new program has as many scenarios as it was made with, and they are spread evenly. -/
structure Evenly (p : Program σ K) (n : Nat) : Prop where
  /-- There are partitions. -/
  workers : p.partitions ≠ []
  /-- They are balanced. -/
  balanced : p.Balanced
  /-- All scenarios are there. -/
  count : p.scenarioCount = n

theorem Evenly.tends {m n : Nat} (h : p.Evenly m) (h' : p.Tends p' n) : p'.Evenly (m + n) :=
  ⟨h'.workers, h'.balanced h.balanced, by rw [h'.count, h.count]⟩

theorem create_evenly (s : Setup σ K) :
    (create s).Ensures (fun p => p.Evenly 0) fun _ => True := by
  unfold create
  refine Act.ensures_lift_bind (fun workers _ => ?_) fun _ => trivial
  dsimp only
  split
  · exact Act.ensures_bind (Act.ensures_fail trivial)
  · rename_i hworkers
    refine Act.ensures_bind fun ledger => Act.ensures_pure ⟨?_, ?_, ?_⟩
    · simp only [ne_eq, List.map_eq_nil_iff, List.range_eq_nil]
      omega
    · intro a ha b _
      simp only [partitionSizes, List.map_map, List.mem_map, Function.comp_apply] at ha
      obtain ⟨k, -, rfl⟩ := ha
      exact Nat.zero_le _
    · simp [scenarioCount, slots, List.flatMap_map]

/-- The first scenarios of a new program are all accepted, or there is no program. -/
theorem addAll_evenly {m : Nat} (hp : p.Evenly m) (scenarios : List (Scenario K)) (defer : Bool) :
    (addAll (scenarios.map Offered.scenario) none defer).Ensures p
      (fun _ p' => p'.Evenly (m + scenarios.length)) fun _ _ => True := by
  refine (addAll_fills hp.workers _ defer).mono ?_ fun _ _ _ => trivial
  rintro _ p' ⟨hfilled, hall⟩
  have hlength := congrArg List.length hall
  rw [List.length_map, List.length_map] at hlength
  rw [hlength]
  exact hp.tends (hfilled.grows.tends hp.workers)

theorem Preserves.evenly {α : Type} {c : Edit σ K α} {m : Nat} (hp : p.Evenly m)
    (h : Preserves placement c p) :
    c.Ensures p (fun _ p' => p'.Evenly m) fun _ _ => True :=
  h.sizes.mono (fun _ _ hsizes => hp.tends (tends_of_sizes hp.workers hsizes)) fun _ _ _ => trivial

theorem createWith_evenly (s : Setup σ K) (scenarios : List (Scenario K)) :
    (createWith s scenarios).Ensures (fun p => p.Evenly scenarios.length) fun _ => True := by
  unfold createWith
  refine Act.ensures_bind ((create_evenly s).mono (fun p hp => ?_) fun _ h => h)
  have hadded := addAll_evenly hp scenarios true
  rw [Nat.zero_add] at hadded
  refine Act.ensures_bind ((Change.ensures_apply (Q := fun a => a.2.Evenly scenarios.length)
    (hadded.mono (fun _ _ h => h) fun _ _ h => h)).mono ?_ fun _ h => h)
  exact fun _ h => Act.ensures_pure h

theorem instantiate_evenly (t : Template σ K) (s : Setup σ K) (scenarios : List (Scenario K))
    (defer : Bool) : (t.instantiate s scenarios defer).Ensures
      (fun p => p.Evenly scenarios.length) fun _ => True := by
  unfold Template.instantiate
  split
  · exact Act.ensures_fail trivial
  · exact Act.ensures_fail trivial
  rename_i first second _ _
  refine Act.ensures_bind ((create_evenly s).mono (fun p hp => ?_) fun _ h => h)
  refine Act.ensures_bind ((Change.ensures_apply (Q := fun a => a.2.Evenly scenarios.length)
    (E := fun _ => True) ?_).mono (fun _ h => Act.ensures_pure h) fun _ h => h)
  refine Change.ensures_bind (((setRecipe_preserves_placement (.first first) p).evenly hp).mono
    (fun _ p₁ hp₁ => ?_) fun _ _ h => h)
  refine Change.ensures_bind (((setRecipe_preserves_placement (.second second) p₁).evenly hp₁).mono
    (fun _ p₂ hp₂ => ?_) fun _ _ h => h)
  refine Change.ensures_bind ((addAll_evenly hp₂ scenarios true).mono
    (fun _ p₃ hp₃ => ?_) fun _ _ h => h)
  rw [Nat.zero_add] at hp₃
  split
  · exact (generate_preserves_placement p₃).evenly hp₃
  · exact Change.ensures_pure hp₃

theorem Constructed.evenly {scenarios : List (Scenario K)} (h : Constructed p scenarios) :
    p.Evenly scenarios.length := by
  cases h with
  | empty s h => exact (create_evenly s _).of_ok (congrArg Prod.fst h)
  | filled s h => exact (createWith_evenly s scenarios _).of_ok (congrArg Prod.fst h)
  | instantiated t s defer h =>
    exact (instantiate_evenly t s scenarios defer _).of_ok (congrArg Prod.fst h)

/-- Handing out scenarios in one pass is handing them out one by one to the least loaded
partition, which parts the loads by one at most or no further than they were.  So whatever is
added to a new program without naming a partition, the partitions differ by one at most, and
all scenarios that were accepted are in one of them.  A bulk insertion, refused or not, leaves
the scenarios of every partition in order, and the accepted ones, all of them where it is not
refused, are cut into chunks that stand behind them. -/
theorem insertion_balanced (hK : Ranking K) :
    (∀ sizes : List Int, sizes ≠ [] →
      (∀ k, Policy.leastLoaded (K := K) sizes = .ok k ↔ ∃ x, Policy.FirstLeast sizes k x) ∧
      ∀ n : Nat, ∃ ks counts, Policy.targets (K := K) n sizes = .ok ks ∧ ks.length = n ∧
        Policy.fillCounts (K := K) sizes n = .ok counts ∧
        counts = (List.range sizes.length).map (fun k => (ks.count k : Int)) ∧
        Policy.imbalance (List.zipWith (· + ·) sizes counts) ≤ max 1 (Policy.imbalance sizes)) ∧
    (∀ (p : Program σ K) (scenarios : List (Scenario K)) (ops : List (Operation σ K))
      (ledger : Ledger σ K), Constructed p scenarios → (∀ op ∈ ops, op.Default) →
      (perform ops p ledger).Balanced ∧
        (perform ops p ledger).partitionSizes.sum =
          scenarios.length + arrivalCount ops p ledger) ∧
    ∀ (p : Program σ K) (offered : List (Offered K)) (worker : Option (Setting K)) (defer : Bool),
      p.partitions ≠ [] → (addAll offered worker defer).Ensures p
        (fun _ p' => (∃ chunks, p.Receives p' chunks ∧
          chunks.flatten = p.admitted offered worker) ∧
          offered = (p.admitted offered worker).map Offered.scenario)
        fun _ p' => ∃ chunks, p.Receives p' chunks ∧
          chunks.flatten = p.admitted offered worker := by
  refine ⟨fun sizes hsizes => ⟨fun k => ?_, fun n => ?_⟩, fun p scenarios ops ledger hp hops => ?_,
    fun p offered worker defer hp => addAll_receives hK hp offered worker defer⟩
  · rw [← Policy.smallest_eq_some_iff, Policy.leastLoaded_eq_ok]
  · obtain ⟨ks, htargets, hlength, hfill⟩ := Policy.fillCounts_eq_targets (K := K) hsizes n
    refine ⟨ks, _, htargets, hlength, hfill, rfl, ?_⟩
    rw [Policy.zipWith_counts]
    exact Policy.imbalance_targets hsizes htargets
  · have heven := hp.evenly.tends (perform_tends hops hp.evenly.workers ledger)
    exact ⟨heven.balanced, by rw [sum_partitionSizes, heven.count]⟩

end Scalar

section Exact

variable {F : Type} [Field F] [LinearOrder F] [IsStrictOrderedRing F] [FloorRing F]

/-- Exact arithmetic ranks whole numbers as they are. -/
theorem Ranking.exact : Ranking (Exact F) := by
  intro w x n m hx hn hless
  have hwhole : x = .finite (n : F) := by
    cases w with
    | flag b =>
      cases hx
      cases hn
      cases b <;> simp [Exact.zero_eq, Exact.one_eq]
    | number k =>
      cases k with
      | whole k =>
        cases hx
        cases hn
        rfl
      | real => cases hn
    | null | text | items | record => cases hn
  subst hwhole
  have hlt : (n : F) < ((m : Int) : F) := by
    simpa using (Exact.less_finite (n : F) ((m : Int) : F)).symm.trans hless
  exact_mod_cast hlt

end Exact

/-- Operations that can be evaluated lead from a new program to one that passes a check. -/
theorem exists_constructed [Scalar K] [Host σ K] (s : Setup σ K) (ops : List (Operation σ K))
    (ledger : Ledger σ K) (q : Program σ K → Bool)
    (h : (programAfter s ops ledger).any q = true) :
    ∃ p ledger', Constructed p [] ∧ q (perform ops p ledger') = true := by
  unfold programAfter at h
  generalize hmade : (create s).run.run ledger = made at h
  obtain ⟨r, ledger'⟩ := made
  cases r with
  | ok p => exact ⟨p, ledger', .empty s hmade, h⟩
  | error f => cases h

/-- Draws are all the same. -/
def steady (payload : Value (Exact ℚ)) : Sampler (Transcript ℚ) (Exact ℚ) where
  draw := pure payload
  reseed := fun _ => pure ()

/-- The prices of the stock are spread over three partitions.  More of them are added, among
them something that is no scenario, and a sample. -/
def growingStock : List (Operation (Transcript ℚ) (Exact ℚ)) :=
  stockSetup ++ [.rebalance (.ofInt 3),
    .addAll [.scenario (priced 4), .scenario (priced 5), .scenario (priced 6)] none true,
    .add (.other "float") none false, .add (.scenario (priced 7)) none false,
    .sample (steady (.real (.finite 2))) (.ofInt 2) true]

theorem growingStock_default : ∀ op ∈ growingStock, op.Default := by
  simp [growingStock, stockSetup, Operation.Default]

/-- The stock grows evenly, also where some loads are ahead, and a partition may be named. -/
theorem stock_insertion_balanced :
    ∃ (p : Program (Transcript ℚ) (Exact ℚ)) (ledger : Ledger (Transcript ℚ) (Exact ℚ)),
      Constructed p [] ∧
      (∃ ks counts, Policy.targets (K := Exact ℚ) 4 [2, 0, 1] = .ok ks ∧ ks.length = 4 ∧
        Policy.fillCounts (K := Exact ℚ) [2, 0, 1] 4 = .ok counts ∧
        counts = (List.range 3).map (fun k => (ks.count k : Int)) ∧
        Policy.imbalance (List.zipWith (· + ·) [2, 0, 1] counts) ≤
          max 1 (Policy.imbalance [2, 0, 1])) ∧
      (perform growingStock p ledger).partitionSizes = [3, 3, 2] ∧
      (perform growingStock p ledger).Balanced ∧
      (perform growingStock p ledger).partitionSizes.sum = 0 + arrivalCount growingStock p ledger ∧
      (addAll [.scenario (priced 8), .scenario (priced 9)] (some (.ofInt 1)) true).Ensures
        (perform growingStock p ledger)
        (fun _ p' => (∃ chunks, (perform growingStock p ledger).Receives p' chunks ∧
          chunks.flatten = (perform growingStock p ledger).admitted
            [.scenario (priced 8), .scenario (priced 9)] (some (.ofInt 1))) ∧
          [Offered.scenario (priced 8), .scenario (priced 9)] =
            ((perform growingStock p ledger).admitted
              [.scenario (priced 8), .scenario (priced 9)] (some (.ofInt 1))).map .scenario)
        fun _ p' => ∃ chunks, (perform growingStock p ledger).Receives p' chunks ∧
          chunks.flatten = (perform growingStock p ledger).admitted
            [.scenario (priced 8), .scenario (priced 9)] (some (.ofInt 1)) := by
  obtain ⟨p, ledger, hp, hsizes⟩ := exists_constructed Setup.standard growingStock
    ⟨fullStock, [], 0⟩ (fun p => p.partitionSizes == [3, 3, 2]) (by decide +kernel)
  rw [beq_iff_eq] at hsizes
  have hworkers : (perform growingStock p ledger).partitions ≠ [] := by
    intro hnil
    rw [partitionSizes, hnil] at hsizes
    cases hsizes
  obtain ⟨hpolicy, hrun, hbulk⟩ :=
    insertion_balanced (σ := Transcript ℚ) (Ranking.exact (F := ℚ))
  obtain ⟨hbalanced, hsum⟩ := hrun p [] growingStock ledger hp growingStock_default
  exact ⟨p, ledger, hp, (hpolicy [2, 0, 1] (by decide)).2 4, hsizes, hbalanced, hsum,
    hbulk (perform growingStock p ledger) _ (some (.ofInt 1)) true hworkers⟩

end Program

end Recourse
