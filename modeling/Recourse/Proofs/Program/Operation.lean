/-
  Proofs/Program/Operation.lean --- what the operations on a program do.

  Every operation is a sequence of transitions, and so is the part of it that was done
  before it was refused (`Operation.edit_moves`).  In between a program need not be in
  order: sampling rescales before it adds, but once it began to rescale nothing is refused
  until the solution is gone.
-/
import Recourse.Proofs.Program.Acceptance
import Recourse.Proofs.Program.Placement
import Recourse.Proofs.Solver.Extensive

set_option autoImplicit false
set_option linter.unusedSectionVars false

namespace Recourse

variable {σ K α β : Type} [Scalar K] [Host σ K]

namespace Program

/-! ## Operations -/

/-- Something that can be done to a program. -/
inductive Operation (σ K : Type) where
  /-- Replace the data of a stage. -/
  | setStageData (key : Setting K) (value : Value K)
  /-- Register a recipe. -/
  | register (key : Setting K) (c : Candidate σ K) (defer : Bool)
  /-- Add a scenario. -/
  | add (offered : Offered K) (worker : Option (Setting K)) (defer : Bool)
  /-- Add scenarios. -/
  | addAll (offered : List (Offered K)) (worker : Option (Setting K)) (defer : Bool)
  /-- Add a sample. -/
  | sample (sampler : Sampler σ K) (n : Setting K) (defer : Bool)
  /-- Check the probabilities, or rescale them. -/
  | validate (normalize : Option Bool)
  /-- Spread the scenarios over another number of partitions. -/
  | rebalance (workers : Setting K)
  /-- Build what is not built. -/
  | generate
  /-- Build, solve, and commit. -/
  | optimize (solver : Option (Solver σ K))

/-- A scenario on offer has a weight, as every scenario that was made does. -/
def Offered.Weighted : Offered K → Prop
  | .scenario s => Scalar.isWeight s.probability = true
  | .other _ => True

namespace Operation

/-- What the operation does. -/
def edit : Operation σ K → Edit σ K Unit
  | .setStageData key value => Program.setStageData key value
  | .register key c defer => do
      let _ ← Program.register key c defer
  | .add offered worker defer => Program.add offered worker defer
  | .addAll offered worker defer => Program.addAll offered worker defer
  | .sample sampler n defer => Program.sample sampler n defer
  | .validate normalize => Program.validate normalize
  | .rebalance workers => Program.rebalance workers
  | .generate => Program.generate
  | .optimize solver => do
      let _ ← Program.optimize solver

/-- Recipes are pure, and scenarios have weights. -/
def Allowed : Operation σ K → Prop
  | .register _ c _ => c.Pure
  | .add offered _ _ => Offered.Weighted offered
  | .addAll offered _ _ => ∀ o ∈ offered, Offered.Weighted o
  | _ => True

end Operation

/-! ## Changes made of transitions -/

/-- From a program a change is a sequence of transitions, refused or not. -/
def Moves (c : Edit σ K α) (p : Program σ K) : Prop :=
  c.Ensures p (fun _ p' => Transitions p p') fun _ p' => Transitions p p'

variable {p : Program σ K}

/-- What is done after some transitions. -/
theorem moves_bind {c : Edit σ K α} {f : α → Edit σ K β} {Q : α → Program σ K → Prop}
    (hc : c.Ensures p (fun a p' => Transitions p p' ∧ Q a p') fun _ p' => Transitions p p')
    (hf : ∀ a p', Transitions p p' → Q a p' → Moves (f a) p') : Moves (c >>= f) p := by
  refine Change.ensures_bind (hc.mono ?_ fun _ _ h => h)
  rintro a p' ⟨hmoves, hq⟩
  exact (hf a p' hmoves hq).mono (fun _ _ h => hmoves.trans h) fun _ _ h => hmoves.trans h

theorem moves_bind_of_moves {c : Edit σ K α} {f : α → Edit σ K β} (hc : Moves c p)
    (hf : ∀ a p', Transitions p p' → Moves (f a) p') : Moves (c >>= f) p :=
  moves_bind (Q := fun _ _ => True) (hc.mono (fun _ _ h => ⟨h, trivial⟩) fun _ _ h => h)
    fun a p' h _ => hf a p' h

theorem moves_pure (a : α) : Moves (pure a : Edit σ K α) p := Change.ensures_pure (.refl p)

theorem moves_fail (f : Fault K) : Moves (Change.fail f : Edit σ K α) p :=
  Change.ensures_fail (.refl p)

/-- What is done with a result that was looked up. -/
theorem moves_lift {r : Except (Fault K) α} {f : α → Edit σ K β} {Q : α → Prop}
    (hr : Settles r Q fun _ => True) (hf : ∀ a, Q a → Moves (f a) p) :
    Moves (liftM r >>= f : Edit σ K β) p :=
  Change.ensures_bind (Change.ensures_lift (hr.mono (fun a ha => hf a ha) fun _ _ => .refl p))

/-- What is done with a result that was computed aside. -/
theorem moves_ofAct {act : Act σ K α} {f : α → Edit σ K β} {Q : α → Prop}
    (hact : act.Ensures Q fun _ => True) (hf : ∀ a, Q a → Moves (f a) p) :
    Moves (Change.ofAct act >>= f : Edit σ K β) p :=
  Change.ensures_bind (Change.ensures_ofAct (hact.mono (fun a ha => hf a ha) fun _ _ => .refl p))

theorem moves_update {f : Program σ K → Program σ K} (h : Transition p (f p)) :
    Moves (Change.update f : Edit σ K Unit) p := Change.ensures_update h.single

/-! ## Data and recipes -/

theorem setData_moves (stage : Stage) (value : Value K) : Moves (setData stage value) p := by
  cases stage with
  | first => exact moves_update (.firstData p value)
  | second => exact moves_update (.secondData p value)

theorem setRecipe_moves {r : Recipe σ K} (hr : r.Pure) : Moves (setRecipe r) p := by
  cases r with
  | first r => exact moves_update (.firstRecipe p hr)
  | second r => exact moves_update (.secondRecipe p hr)

/-! ## Building -/

/-- Building the first stage leaves a handle on the decisions. -/
theorem generateMaster_moves (hp : p.Consistent) {r : FirstRecipe σ K}
    (hr : p.firstRecipe = some r) :
    (generateMaster r : Edit σ K Unit).Ensures p
      (fun _ p' => Transitions p p' ∧ ∃ d, p'.decisions = some d) fun _ p' => Transitions p p' := by
  unfold generateMaster
  refine Change.ensures_bind (Change.ensures_state ?_)
  cases hcurrent : p.currentMaster? with
  | some m =>
    refine Change.ensures_pure ⟨.refl p, m.decisions, ?_⟩
    rw [hp.handle, currentMaster?_eq_some.1 hcurrent]
    rfl
  | none =>
    refine Change.ensures_bind (Change.ensures_ofAct
      (((hp.firstPure r hr).generate_ensures p.firstData).mono ?_ fun _ _ => .refl p))
    intro m hm
    dsimp only
    split
    · exact Change.ensures_bind (Change.ensures_fail (.refl p))
    · exact Change.ensures_update ⟨(Transition.master p hr hcurrent hm).single, m.decisions, rfl⟩

/-- Building a partition builds its slots. -/
theorem generate_partition_ensures {r : SecondRecipe σ K} (hr : r.Pure) (d : Decisions)
    (q : Partition K) (offset : Int) {E : Fault K → Prop} :
    (q.generate (fun s => r.generate p.secondData d s.data) p.secondEpoch offset).Ensures
      (fun a => List.Forall₂ (p.SlotBuilt r d) q.slots a.1.slots) E := by
  have hslot : ∀ s ∈ q.slots,
      (Partition.buildSlot (fun s => r.generate p.secondData d s.data) p.secondEpoch s).Ensures
        (fun a => p.SlotBuilt r d s a.1) E := by
    intro s _
    unfold Partition.buildSlot
    split
    · exact Act.ensures_pure (.kept s)
    · rename_i hstale
      have hstale : s.isCurrent p.secondEpoch = false := by simpa using hstale
      refine Act.ensures_bind ((Act.ensures_attempt
        (hr.generate_ensures p.secondData d s.scenario.data)).mono ?_ fun _ h => h)
      intro result hresult
      cases result with
      | ok m => exact Act.ensures_pure (.filled hstale hresult)
      | error f => exact Act.ensures_pure (.emptied hstale)
  refine Act.ensures_bind ((Act.ensures_forEach _ hslot).mono ?_ fun _ h => h)
  intro results hresults
  exact Act.ensures_pure (List.forall₂_map_right_iff.2 hresults)

/-- Lists that are related member by member stay so when they are joined. -/
theorem forall₂_flatMap {α β γ δ : Type} {R : α → β → Prop} {S : γ → δ → Prop} {f : α → List γ}
    {g : β → List δ} {xs : List α} {ys : List β} (h : List.Forall₂ R xs ys)
    (hfg : ∀ x y, R x y → List.Forall₂ S (f x) (g y)) :
    List.Forall₂ S (xs.flatMap f) (ys.flatMap g) := by
  induction h with
  | nil => exact .nil
  | cons hxy _ ih => exact List.rel_append (hfg _ _ hxy) ih

theorem generateSubproblems_moves (hp : p.Consistent) {r : SecondRecipe σ K} {d : Decisions}
    (hr : p.secondRecipe = some r) (hd : p.decisions = some d) :
    Moves (generateSubproblems r : Edit σ K Unit) p := by
  unfold generateSubproblems
  refine Change.ensures_bind (Change.ensures_state ?_)
  rw [hd, Option.getD_some]
  refine Change.ensures_bind (Change.ensures_ofAct ((Transport.map_ensures p.transport _
    (E := fun _ => False) fun q _ =>
      generate_partition_ensures (hp.secondPure r hr) d q.1 q.2).mono ?_ fun _ h => h.elim))
  intro results hresults
  have hplaced : p.placed.flatMap (·.1.slots) = p.slots := by
    rw [slots, ← map_fst_placed p, List.flatMap_map]
  have hslots : List.Forall₂ (p.SlotBuilt r d) p.slots
      ((results.map (·.1)).flatMap (·.slots)) := by
    rw [← hplaced, List.flatMap_map]
    exact forall₂_flatMap hresults fun _ _ h => h
  have hworkers : results.map (·.1) ≠ [] := by
    intro hnil
    have hlength := hresults.length_eq
    rw [List.map_eq_nil_iff.1 hnil, ← List.length_map (f := Prod.fst), map_fst_placed] at hlength
    exact hp.workers (List.eq_nil_of_length_eq_zero hlength)
  have hbuilt := Transition.subproblems p hr hd hworkers hslots
  refine Change.ensures_bind (Change.ensures_update ?_)
  dsimp only
  split
  · exact Change.ensures_bind (Change.ensures_fail hbuilt.single)
  · exact Change.ensures_update (hbuilt.single.trans (Transition.noted _ _ _).single)

theorem generate_moves (hp : p.Consistent) : Moves (generate : Edit σ K Unit) p := by
  unfold generate
  refine Change.ensures_bind (Change.ensures_state ?_)
  split
  · exact Change.ensures_bind (Change.ensures_fail (.refl p))
  · rename_i r hr
    refine moves_bind (generateMaster_moves hp hr) ?_
    rintro _ p' hmoves ⟨d, hd⟩
    have hp' := hmoves.consistent hp
    refine Change.ensures_bind (Change.ensures_state ?_)
    split
    · split
      · exact Change.ensures_update (Transition.noted _ _ _).single
      · exact Change.ensures_pure (.refl p')
    · split
      · exact Change.ensures_fail (.refl p')
      · rename_i r' hr'
        exact generateSubproblems_moves hp' hr' hd

theorem setStageData_moves (key : Setting K) (value : Value K) :
    Moves (setStageData key value) p :=
  moves_lift (Settles.self _) fun stage _ => setData_moves stage value

theorem register_moves (hp : p.Consistent) (key : Setting K) {c : Candidate σ K} (hc : c.Pure)
    (defer : Bool) : Moves (register key c defer) p := by
  unfold register
  refine moves_lift (Settles.self _) fun stage _ => moves_lift (hc.toRecipe stage) fun r hr => ?_
  refine moves_bind_of_moves (setRecipe_moves hr) fun _ p' h => ?_
  refine Change.ensures_bind (Change.ensures_state ?_)
  split
  · exact moves_bind_of_moves (generate_moves (h.consistent hp)) fun _ _ _ => moves_pure r
  · exact moves_pure r

/-! ## Adding scenarios -/

theorem Consistent.slotKept (hp : p.Consistent) {s : Slot K} (hs : s ∈ p.slots) : p.SlotKept s :=
  ⟨(hp.slots s hs).weight, Or.inr ⟨s, hs, rfl, rfl⟩⟩

/-- Scenarios that are placed among the others. -/
theorem Transition.extended (hp : p.Consistent) {partitions : List (Partition K)}
    {scenarios : List (Scenario K)} (hworkers : partitions ≠ [])
    (hweights : ∀ s ∈ scenarios, Scalar.isWeight s.probability = true)
    (h : Extends p.slots (partitions.flatMap (·.slots)) scenarios) :
    Transition p { p with partitions, solution := none } := by
  refine .scenarios p hworkers (fun s hs => ?_) (Or.inl h.sublist)
  rcases h.origin s hs with hold | hnew
  · exact hp.slotKept hold
  · obtain ⟨c, hc, rfl⟩ := List.mem_map.1 hnew
    exact ⟨hweights c hc, Or.inl rfl⟩

/-- The scenarios that are accepted have weights when those on offer have. -/
theorem accept_weighted (schema : Option Schema) {offered : List (Offered K)}
    (h : ∀ o ∈ offered, Offered.Weighted o) : Settles (accept schema offered)
      (fun a => ∀ s ∈ a.2, Scalar.isWeight s.probability = true) fun _ => True := by
  refine (accept_settles schema offered).mono (fun a ha s hs => ?_) fun _ h => h
  exact h (.scenario s) (ha ▸ List.mem_map.2 ⟨s, hs, rfl⟩)

/-- What follows on new scenarios: once the solution is dropped, the program is in order
again. -/
theorem finishAdding_ensures {q : Program σ K} (hp : p.Consistent)
    (h : Transitions p { q with solution := none }) (defer : Bool) :
    (finishAdding defer : Edit σ K Unit).Ensures q (fun _ p' => Transitions p p')
      fun _ p' => Transitions p p' := by
  unfold finishAdding
  refine Change.ensures_bind (Change.ensures_update (Change.ensures_bind
    (Change.ensures_state ?_)))
  split
  · exact (generate_moves (h.consistent hp)).mono (fun _ _ h' => h.trans h') fun _ _ h' => h.trans h'
  · exact Change.ensures_pure h

/-- Scenarios go to one partition. -/
theorem extendAt_moves (hp : p.Consistent) (k : Nat) {scenarios : List (Scenario K)}
    (hweights : ∀ s ∈ scenarios, Scalar.isWeight s.probability = true) (defer : Bool) :
    Moves (do Change.update (extendAt k scenarios); finishAdding defer : Edit σ K Unit) p := by
  refine Change.ensures_bind (Change.ensures_update (finishAdding_ensures hp ?_ defer))
  refine (Transition.extended hp ?_ hweights (extends_modify p.partitions k scenarios)).single
  intro hnil
  have hlength := congrArg List.length hnil
  rw [List.length_modify] at hlength
  exact hp.workers (List.eq_nil_of_length_eq_zero hlength)

/-- Scenarios are spread over the partitions of a program that a consistent one comes to
once the solution is dropped. -/
theorem extendEach_ensures {q : Program σ K} (hp : p.Consistent) (hworkers : q.partitions ≠ [])
    {scenarios : List (Scenario K)}
    (h : ∀ counts : List Nat, counts.length = q.partitions.length →
      counts.sum = scenarios.length →
        Transitions p { q with
          partitions := extendEach q.partitions counts scenarios, solution := none })
    (defer : Bool) :
    (do
      let counts ← liftM (Policy.fillCounts (K := K) (q.partitionSizes.map Int.ofNat)
        scenarios.length)
      Change.update fun (p : Program σ K) =>
        { p with partitions := extendEach p.partitions (counts.map Int.toNat) scenarios }
      finishAdding defer : Edit σ K Unit).Ensures q (fun _ p' => Transitions p p')
        fun _ p' => Transitions p p' := by
  refine Change.ensures_bind (Change.ensures_lift
    ((Policy.fillCounts_settles (q.partitionSizes.map Int.ofNat) scenarios.length).mono ?_ ?_))
  · intro counts hcounts
    refine Change.ensures_bind (Change.ensures_update (finishAdding_ensures hp ?_ defer))
    refine h _ ?_ hcounts.sum_toNat
    simpa [partitionSizes] using hcounts.length
  · intro f hnil
    exact absurd (by simpa [partitionSizes] using hnil) hworkers

theorem extendEach_ne_nil {partitions : List (Partition K)} (h : partitions ≠ [])
    (counts : List Nat) (scenarios : List (Scenario K)) :
    extendEach partitions counts scenarios ≠ [] := by
  intro hnil
  have hlength := congrArg List.length hnil
  rw [length_extendEach] at hlength
  exact h (List.eq_nil_of_length_eq_zero hlength)

theorem noted_moves (schema : Option Schema) :
    Moves (Change.update fun (p : Program σ K) => { p with schema }) p :=
  moves_update (.noted p schema p.generatedEpoch)

theorem add_moves (hp : p.Consistent) {offered : Offered K} (ho : Offered.Weighted offered)
    (worker : Option (Setting K)) (defer : Bool) : Moves (add offered worker defer) p := by
  unfold add
  refine Change.ensures_bind (Change.ensures_state ?_)
  have haccept := accept_weighted p.schema (List.forall_mem_singleton.2 ho)
  cases worker with
  | none =>
    refine moves_lift (Settles.self _) fun least _ => moves_lift haccept ?_
    rintro ⟨schema, accepted⟩ hweights
    refine moves_bind_of_moves (noted_moves schema) fun _ p' h => ?_
    exact extendAt_moves (h.consistent hp) least hweights defer
  | some w =>
    refine moves_lift (Settles.self _) fun _ _ => Change.ensures_bind (Change.ensures_pure ?_)
    refine moves_lift haccept ?_
    rintro ⟨schema, accepted⟩ hweights
    refine moves_bind_of_moves (noted_moves schema) fun _ p' h => ?_
    refine moves_lift (Settles.self _) fun k _ => ?_
    exact extendAt_moves (h.consistent hp) k hweights defer

theorem addAll_moves (hp : p.Consistent) {offered : List (Offered K)}
    (ho : ∀ o ∈ offered, Offered.Weighted o) (worker : Option (Setting K)) (defer : Bool) :
    Moves (addAll offered worker defer) p := by
  unfold addAll
  split
  · exact moves_pure _
  refine Change.ensures_bind (Change.ensures_state ?_)
  have haccept := accept_weighted p.schema ho
  have hnoted := fun schema => Transition.noted p schema p.generatedEpoch
  cases worker with
  | none =>
    refine moves_lift haccept ?_
    rintro ⟨schema, accepted⟩ hweights
    refine Change.ensures_bind (Change.ensures_update ?_)
    have hp' := (hnoted schema).consistent hp
    refine extendEach_ensures hp hp'.workers (fun counts _ _ => ?_) defer
    refine (hnoted schema).single.trans (Transition.single ?_)
    exact Transition.extended hp' (extendEach_ne_nil hp'.workers counts accepted) hweights
      (extends_extendEach p.partitions counts accepted)
  | some w =>
    refine moves_lift (Settles.self _) fun _ _ => moves_lift haccept ?_
    rintro ⟨schema, accepted⟩ hweights
    refine moves_bind_of_moves (noted_moves schema) fun _ p' h => ?_
    refine moves_lift (Settles.self _) fun k _ => ?_
    exact extendAt_moves (h.consistent hp) k hweights defer

/-! ## Samples -/

theorem drawMany_ensures (sampler : Sampler σ K) (x : K) (n : Nat) :
    (sampler.drawMany x n).Ensures (fun drawn => drawn.length = n) fun _ => True := by
  induction n with
  | zero => exact Act.ensures_pure rfl
  | succ n ih =>
    refine Act.ensures_bind (Act.Ensures.mono (Q := fun _ => True) (E := fun _ => True) ?_ ?_
      fun _ h => h)
    · exact fun _ => (Settles.self _).mono (fun _ _ => trivial) fun _ h => h
    intro payload _
    refine Act.ensures_bind (Act.ensures_ofExcept ((Settles.self _).mono ?_ fun _ h => h))
    intro s _
    refine Act.ensures_bind (ih.mono ?_ fun _ h => h)
    intro drawn hdrawn
    exact Act.ensures_pure (by simp [hdrawn])

/-- The size of a sample is positive. -/
theorem sampleSize_settles (hK : Weighing K) (n : Setting K) :
    Settles (Sampler.sampleSize n) (fun size => 0 < size) fun _ => True := by
  unfold Sampler.sampleSize
  cases n with
  | flag b =>
    cases b with
    | false =>
      show Settles (if Scalar.less (0 : K) 1 = true then _ else _) _ _
      rw [if_pos hK.zero_less]
      trivial
    | true =>
      show Settles (if Scalar.less (1 : K) 1 = true then _ else _) _ _
      split
      · trivial
      · exact Nat.zero_lt_one
  | number x =>
    cases x with
    | whole k =>
      show Settles (if Scalar.less (Scalar.ofInt k : K) 1 = true then _ else _) _ _
      split
      · trivial
      · rename_i hless
        have hk := hK.positive k (by simpa using hless)
        show 0 < k.toNat
        omega
    | real x =>
      show Settles (if Scalar.less x 1 = true then _ else _) _ _
      split <;> trivial
  | null | text | items | record => trivial

theorem sample_ensures (hK : Weighing K) (sampler : Sampler σ K) (n : Setting K) :
    (sampler.sample n).Ensures (fun drawn => drawn ≠ []) fun _ => True := by
  unfold Sampler.sample
  refine Act.ensures_bind (Act.ensures_ofExcept ((sampleSize_settles hK n).mono ?_ fun _ h => h))
  intro size hsize
  refine (drawMany_ensures sampler _ size).mono ?_ fun _ h => h
  rintro drawn hdrawn rfl
  rw [← hdrawn] at hsize
  exact absurd hsize (lt_irrefl 0)

/-- Looking something up for every item of a list. -/
theorem mapM_ensures {f : α → Except (Fault K) β} {P : β → Prop} (xs : List α)
    (h : ∀ x ∈ xs, Settles (f x) P fun _ => True) :
    (xs.mapM fun x => liftM (f x) : Edit σ K (List β)).Ensures p
      (fun ys p' => p' = p ∧ ys.length = xs.length ∧ ∀ y ∈ ys, P y) fun _ p' => p' = p := by
  induction xs with
  | nil => exact Change.ensures_pure ⟨rfl, rfl, fun y hy => absurd hy List.not_mem_nil⟩
  | cons x xs ih =>
    rw [List.mapM_cons]
    refine Change.ensures_bind (Change.ensures_lift
      ((h x List.mem_cons_self).mono ?_ fun _ _ => rfl))
    intro y hy
    refine Change.ensures_bind ((ih fun x hx => h x (List.mem_cons_of_mem _ hx)).mono ?_
      fun _ _ h => h)
    rintro ys p' ⟨hp', hlength, hys⟩
    exact Change.ensures_pure ⟨hp', by rw [List.length_cons, hlength, List.length_cons],
      List.forall_mem_cons.2 ⟨hy, hys⟩⟩

/-- A slot of a rescaled program is one of the program, with another weight. -/
theorem slotKept_scaled {factor : K}
    (hscaled : ∀ s ∈ p.slots, Scalar.isWeight (s.scenario.probability * factor) = true)
    {s : Slot K} (hs : s ∈ (p.scaled factor).slots) : p.SlotKept s := by
  rw [slots_scaled] at hs
  obtain ⟨s', hs', rfl⟩ := List.mem_map.1 hs
  exact ⟨hscaled s' hs', Or.inr ⟨s', hs', rfl, rfl⟩⟩

/-- New scenarios after the others made room for them. -/
theorem addAll_scaled_ensures (hp : p.Consistent) {factor : K} {schema : Option Schema}
    {scenarios : List (Scenario K)}
    (hscaled : ∀ s ∈ p.slots, Scalar.isWeight (s.scenario.probability * factor) = true)
    (hweights : ∀ s ∈ scenarios, Scalar.isWeight s.probability = true) (hnew : scenarios ≠ [])
    (haccept : accept p.schema (scenarios.map Offered.scenario) = .ok (schema, scenarios))
    (defer : Bool) :
    (addAll (scenarios.map Offered.scenario) none defer : Edit σ K Unit).Ensures (p.scaled factor)
      (fun _ p' => Transitions p p') fun _ p' => Transitions p p' := by
  have hworkers : (p.scaled factor).partitions ≠ [] := by
    simpa [scaled] using hp.workers
  have hp' := (Transition.noted p schema p.generatedEpoch).consistent hp
  unfold addAll
  rw [if_neg (by simpa using hnew)]
  refine Change.ensures_bind (Change.ensures_state ?_)
  have haccept : accept (p.scaled factor).schema (scenarios.map Offered.scenario) =
      .ok (schema, scenarios) := haccept
  rw [haccept]
  refine Change.ensures_bind (Change.ensures_pure (Change.ensures_bind
    (Change.ensures_update ?_)))
  refine extendEach_ensures (q := { p.scaled factor with schema }) hp hworkers
    (fun counts hlength hsum => ?_) defer
  refine (Transition.noted p schema p.generatedEpoch).single.trans (Transition.single ?_)
  have hext := extends_extendEach (p.scaled factor).partitions counts scenarios
  refine Transition.scenarios _ (extendEach_ne_nil hworkers counts scenarios) (fun s hs => ?_)
    (Or.inr (Or.inl ?_))
  · rcases hext.origin s hs with hold | hfresh
    · exact ⟨(slotKept_scaled hscaled hold).weight, (slotKept_scaled hscaled hold).built⟩
    · obtain ⟨c, hc, rfl⟩ := List.mem_map.1 hfresh
      exact ⟨hweights c hc, Or.inl rfl⟩
  · have hcount := count_extendEach hlength hsum
    have hold := congrArg List.length (slots_scaled factor p)
    rw [List.length_map] at hold
    have hpos := List.length_pos_iff.2 hnew
    show p.slots.length < _
    rw [hcount]
    show p.slots.length < (p.scaled factor).slots.length + _
    omega

theorem sample_moves (hK : Weighing K) (hp : p.Consistent) (sampler : Sampler σ K)
    (n : Setting K) (defer : Bool) : Moves (sample sampler n defer) p := by
  have hold : ∀ x ∈ p.slots.map (·.scenario.probability), Scalar.isWeight x = true :=
    List.forall_mem_map.2 fun s hs => (hp.slots s hs).weight
  unfold sample
  refine Change.ensures_bind (Change.ensures_state ?_)
  refine moves_lift (sampleSize_settles hK n) fun size hsize => ?_
  refine moves_ofAct (sample_ensures hK sampler n) fun fresh hfresh => ?_
  refine Change.ensures_bind ((mapM_ensures
    (P := fun s : Scenario K => Scalar.isWeight s.probability = true) fresh
    fun s _ => Scenario.make_settles _ _ _).mono ?_ fun _ _ h => h ▸ .refl _)
  rintro drawn _ ⟨rfl, hlength, hweights⟩
  refine moves_lift ((accept_settles _ _).with_eq) ?_
  rintro ⟨schema, accepted⟩ ⟨haccept, hsame⟩
  obtain rfl : drawn = accepted := by
    have hinjective : Function.Injective (Offered.scenario : Scenario K → Offered K) :=
      fun _ _ h => Offered.scenario.inj h
    exact hinjective.list_map hsame
  have hnew : drawn ≠ [] := by
    rintro rfl
    exact hfresh (List.eq_nil_of_length_eq_zero hlength.symm)
  dsimp only
  split
  · rename_i hcount
    refine Change.ensures_bind ((rescale_ensures (hK.shrink _ _ size hold hcount)).mono ?_
      fun _ _ h => h ▸ .refl _)
    rintro _ _ ⟨rfl, hscaled⟩
    exact addAll_scaled_ensures hp hscaled hweights hnew haccept defer
  · refine addAll_moves hp ?_ none defer
    intro o ho
    obtain ⟨s, hs, rfl⟩ := List.mem_map.1 ho
    exact hweights s hs

/-! ## Weighing and spreading -/

theorem validate_moves (hK : Weighing K) (hp : p.Consistent) (normalize : Option Bool) :
    Moves (validate normalize : Edit σ K Unit) p := by
  unfold validate
  refine Change.ensures_bind (Change.ensures_state ?_)
  split
  · exact Change.ensures_bind (Change.ensures_fail (.refl p))
  dsimp only
  split
  · exact moves_pure _
  rename_i htotal
  split
  · exact Change.ensures_bind (Change.ensures_fail (.refl p))
  rename_i hpositive
  simp only [Bool.or_eq_true, not_or, Bool.not_eq_true] at hpositive htotal
  have huniform := hp.weighted.uniform_share hK hpositive.2
  refine moves_ofAct (Q := fun _ => True) (fun _ => trivial) fun _ _ => ?_
  refine Change.ensures_bind ((rescale_ensures huniform).mono ?_ fun _ _ h => h ▸ .refl _)
  rintro _ _ ⟨rfl, hscaled⟩
  refine Change.ensures_update (Transition.single ?_)
  have hslots := slots_scaled (1 / p.totalProbability) p
  refine Transition.scenarios p (by simpa [scaled] using hp.workers)
    (fun s hs => slotKept_scaled hscaled hs) (Or.inr (Or.inr ⟨?_, htotal⟩))
  show p.slots.length = (p.scaled _).slots.length
  rw [hslots, List.length_map]

theorem rebalance_moves (workers : Setting K) : Moves (rebalance workers : Edit σ K Unit) p := by
  unfold rebalance
  refine Change.ensures_bind (Change.ensures_state ?_)
  refine moves_lift (Settles.self _) fun parts _ => ?_
  refine moves_lift (Policy.evenSplit_settles p.scenarioCount parts) fun sizes hsizes => ?_
  obtain ⟨hne, hplaces⟩ := hsizes
  refine moves_update (Transition.spread p ?_ ?_)
  · intro hnil
    have hlength := congrArg List.length hnil
    rw [length_chunks, List.length_map] at hlength
    exact hne (List.eq_nil_of_length_eq_zero hlength)
  · exact flatMap_chunks 0 hplaces.sum_toNat

/-! ## Solving -/

/-- A program is left as it is, but for the note on what was built. -/
def Marked (p p' : Program σ K) : Prop := ∃ generated, p' = { p with generatedEpoch := generated }

theorem Marked.refl (p : Program σ K) : Marked p p := ⟨p.generatedEpoch, rfl⟩

theorem Marked.transitions {p' : Program σ K} (h : Marked p p') : Transitions p p' := by
  obtain ⟨generated, rfl⟩ := h
  exact (Transition.noted p p.schema generated).single

/-- The deterministic equivalent of a program that is built notes that it is. -/
theorem extensiveForm_leaves (h : p.isDeferred = false) :
    (extensiveForm : Edit σ K (ExtensiveForm K)).Ensures p (fun _ p' => Marked p p')
      fun _ p' => Marked p p' := by
  unfold extensiveForm
  refine Change.ensures_bind ((generate_ensures h).mono ?_ fun _ _ h => h.elim)
  rintro _ p' hp'
  have hmarked : Marked p p' := ⟨_, hp'⟩
  refine Change.ensures_bind (Change.ensures_state (Change.ensures_lift_bind (fun _ _ => ?_)
    fun _ => hmarked))
  refine Change.ensures_lift_bind (fun _ _ => ?_) fun _ => hmarked
  exact Change.ensures_pure hmarked

/-- Setting up a run notes that everything is built, and nothing else is done. -/
theorem build_leaves (solver : StructuredSolver σ K) (p : Program σ K) :
    (solver.build : Edit σ K (SolverRun K)).Ensures p
      (fun _ p' => Marked p p' ∧ p.isDeferred = false ∧ 0 < p.scenarioCount)
      fun _ p' => Marked p p' := by
  unfold StructuredSolver.build
  split
  · unfold ExtensiveState.build
    refine Change.ensures_bind (Change.ensures_bind ((requireSolvable_leaves p).mono ?_
      fun _ _ h => h ▸ .refl p))
    rintro master _ ⟨rfl, hcurrent, hnonempty, -⟩
    refine Change.ensures_bind ((extensiveForm_leaves hcurrent).mono ?_ fun _ _ h => h)
    intro form p' hmarked
    refine Change.ensures_bind (Change.ensures_state (Change.ensures_ofAct_bind (fun _ => ?_)
      fun _ => hmarked))
    exact Change.ensures_pure (Change.ensures_pure ⟨hmarked, hcurrent, hnonempty⟩)
  · refine Change.ensures_lift_bind (fun method _ => ?_) fun _ => .refl p
    unfold LShaped.build
    refine Change.ensures_bind (Change.ensures_bind ((requireSolvable_leaves p).mono ?_
      fun _ _ h => h ▸ .refl p))
    rintro master _ ⟨rfl, hcurrent, hnonempty, -⟩
    refine Change.ensures_lift_bind (fun form _ => ?_) fun _ => .refl _
    refine Change.ensures_bind (Change.ensures_state (Change.ensures_ofAct_bind (fun _ => ?_)
      fun _ => .refl _))
    exact Change.ensures_pure (Change.ensures_pure ⟨.refl _, hcurrent, hnonempty⟩)

/-- Setting up a run and taking it to its end leaves the program as it is. -/
theorem solve_leaves (solver : StructuredSolver σ K) (p : Program σ K) :
    solver.solve.Ensures p
      (fun _ p' => Marked p p' ∧ p.isDeferred = false ∧ 0 < p.scenarioCount)
      fun _ p' => Marked p p' := by
  unfold StructuredSolver.solve
  refine Change.ensures_bind ((build_leaves solver p).mono ?_ fun _ _ h => h)
  rintro r p' hleaves
  refine Change.ensures_bind (Change.ensures_state (Change.ensures_ofAct fun _ => ?_))
  exact (Settles.self _).mono (fun _ _ => hleaves) fun _ _ => hleaves.1

/-- What a structured solver finds is committed to the program it was found for. -/
theorem solve_commit_moves (solver : StructuredSolver σ K) (p : Program σ K) :
    Moves (do
      let (status, r) ← solver.solve
      if status = .optimal then solver.commit r
      return status : Edit σ K Status) p := by
  refine Change.ensures_bind (((solve_leaves solver p).and (Change.ensures_runOn _ p)).mono ?_
    fun _ _ h => h.1.transitions)
  rintro ⟨status, r⟩ p' ⟨⟨hmarked, hcurrent, hnonempty⟩, ledger, ledger', hsolve⟩
  dsimp only
  split
  · rename_i hstatus
    subst hstatus
    refine Change.ensures_bind ((commitRun_ensures solver.label r.common p').mono ?_ ?_)
    · rintro _ _ ⟨-, solution, rfl, hdecision, hobjective⟩
      refine Change.ensures_pure (hmarked.transitions.trans (Transition.single ?_))
      have hcomputes : p.Computes solution :=
        ⟨solver, r, p', ledger, ledger', hsolve, hdecision, hobjective⟩
      obtain ⟨generated, rfl⟩ := hmarked
      have hbuilt := isBuilt_of_not_isDeferred hcurrent
      refine Transition.solved _ r.common.secondStage r.common.masterResult p.generatedEpoch
        (IsBuilt.isDeferred_eq_false ?_ hnonempty) hnonempty hcomputes
      exact ⟨hbuilt.firstRecipe, hbuilt.secondRecipe, hbuilt.master, hbuilt.slots⟩
    · rintro _ _ ⟨-, rfl⟩
      exact hmarked.transitions
  · exact Change.ensures_pure hmarked.transitions

theorem optimize_moves (hK : Weighing K) (hp : p.Consistent) (solver : Option (Solver σ K)) :
    Moves (optimize solver) p := by
  unfold optimize
  refine Change.ensures_bind (Change.ensures_state ?_)
  refine moves_bind_of_moves (generate_moves hp) fun _ p₁ h₁ => ?_
  refine moves_bind_of_moves (validate_moves hK (h₁.consistent hp) none) fun _ p₂ h₂ => ?_
  split
  · exact moves_fail _
  · rename_i s hs
    have hsolve := solve_commit_moves s p₂
    unfold StructuredSolver.solve at hsolve
    simpa only [bind_assoc] using hsolve

/-- Whatever is done to a program in order, refused or not, is a sequence of transitions. -/
theorem Operation.edit_moves (hK : Weighing K) (hp : p.Consistent) {op : Operation σ K}
    (hop : op.Allowed) : Moves op.edit p := by
  cases op with
  | setStageData key value => exact setStageData_moves key value
  | register key c defer =>
    exact moves_bind_of_moves (register_moves hp key hop defer) fun _ _ _ => moves_pure ()
  | add offered worker defer => exact add_moves hp hop worker defer
  | addAll offered worker defer => exact addAll_moves hp hop worker defer
  | sample sampler n defer => exact sample_moves hK hp sampler n defer
  | validate normalize => exact validate_moves hK hp normalize
  | rebalance workers => exact rebalance_moves workers
  | generate => exact generate_moves hp
  | optimize solver =>
    exact moves_bind_of_moves (optimize_moves hK hp solver) fun _ _ _ => moves_pure ()

end Program

end Recourse
