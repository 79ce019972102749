/-
  Proofs/Program/Standing.lean --- what stays where it is.

  Building puts models beside the scenarios and leaves these in their partitions
  (`generate_preserves_placement`), whether it is refused or not.  Weighing gives them other
  probabilities, and a solve loads results, but no scenario changes its partition
  (`validate_preserves_sizes`, `optimize_preserves_sizes`).
-/
import Recourse.Proofs.Program.Building

set_option autoImplicit false
set_option linter.unusedSectionVars false

namespace Recourse.Program

variable {σ K α β γ : Type}

/-! ## Partitions of scenarios -/

/-- The scenarios of each partition. -/
def placement (p : Program σ K) : List (List (Scenario K)) := p.partitions.map (·.scenarios)

theorem length_placement (p : Program σ K) : p.placement.length = p.partitions.length :=
  List.length_map _

/-- With as many partitions as before there are some if there were. -/
theorem partitions_ne_nil {p p' : Program σ K} (hp : p.partitions ≠ [])
    (h : p'.partitions.length = p.partitions.length) : p'.partitions ≠ [] := by
  rw [← List.length_pos_iff, h, List.length_pos_iff]
  exact hp

theorem map_length_placement (p : Program σ K) :
    p.placement.map List.length = p.partitionSizes := by
  rw [placement, List.map_map]
  exact List.map_congr_left fun q _ => List.length_map _

theorem flatten_placement (p : Program σ K) : p.placement.flatten = p.scenarios := by
  rw [placement, scenarios, slots, List.map_flatMap, ← List.flatMap_def]
  rfl

theorem sum_partitionSizes (p : Program σ K) : p.partitionSizes.sum = p.scenarioCount := by
  rw [scenarioCount, slots, List.length_flatMap]
  rfl

/-! ## Readings that are left alone -/

/-- Refused or not, a change leaves what is read off a program. -/
def Preserves (read : Program σ K → γ) (c : Edit σ K α) (p : Program σ K) : Prop :=
  c.Ensures p (fun _ p' => read p' = read p) fun _ p' => read p' = read p

section

variable {read : Program σ K → γ} {p : Program σ K}

theorem preserves_pure (a : α) : Preserves read (pure a : Edit σ K α) p := Change.ensures_pure rfl

theorem preserves_fail (f : Fault K) : Preserves read (Change.fail f : Edit σ K α) p :=
  Change.ensures_fail rfl

theorem preserves_update {f : Program σ K → Program σ K} (h : read (f p) = read p) :
    Preserves read (Change.update f : Edit σ K Unit) p := Change.ensures_update h

theorem preserves_bind {c : Edit σ K α} {f : α → Edit σ K β} (hc : Preserves read c p)
    (hf : ∀ a p', Preserves read (f a) p') : Preserves read (c >>= f) p :=
  Change.ensures_bind (hc.mono (fun a p' h => (hf a p').mono (fun _ _ h' => h'.trans h)
    fun _ _ h' => h'.trans h) fun _ _ h => h)

theorem preserves_lift {r : Except (Fault K) α} {f : α → Edit σ K β}
    (hf : ∀ a, Preserves read (f a) p) : Preserves read (liftM r >>= f : Edit σ K β) p :=
  Change.ensures_bind (Change.ensures_lift ((Settles.self r).mono (fun a _ => hf a) fun _ _ => rfl))

theorem preserves_ofAct {act : Act σ K α} {f : α → Edit σ K β}
    (hf : ∀ a, Preserves read (f a) p) : Preserves read (Change.ofAct act >>= f : Edit σ K β) p :=
  Change.ensures_ofAct_bind (fun a => hf a) fun _ => rfl

theorem preserves_state {f : Program σ K → Edit σ K α} (h : Preserves read (f p) p) :
    Preserves read (Change.state >>= f) p := Change.ensures_bind (Change.ensures_state h)

/-- What is read off a reading is left as well. -/
theorem Preserves.map {c : Edit σ K α} (h : Preserves read c p) (g : γ → β) :
    Preserves (fun p => g (read p)) c p :=
  h.mono (fun _ _ h => congrArg g h) fun _ _ h => congrArg g h

theorem Preserves.sizes {c : Edit σ K α} (h : Preserves placement c p) :
    Preserves partitionSizes c p := by
  have hsizes := h.map (List.map List.length)
  simpa only [map_length_placement] using hsizes

end

variable [Scalar K]

/-! ## Building -/

theorem setData_preserves_placement (stage : Stage) (value : Value K) (p : Program σ K) :
    Preserves placement (setData stage value) p := by
  cases stage <;> exact preserves_update rfl

theorem setRecipe_preserves_placement (r : Recipe σ K) (p : Program σ K) :
    Preserves placement (setRecipe r) p := by
  cases r <;> exact preserves_update rfl

theorem generateMaster_preserves_placement (r : FirstRecipe σ K) (p : Program σ K) :
    Preserves placement (generateMaster r) p := by
  unfold generateMaster
  refine preserves_state ?_
  split
  · exact preserves_pure ()
  refine preserves_ofAct fun m => ?_
  dsimp only
  split
  · exact Change.ensures_bind (Change.ensures_fail rfl)
  · exact preserves_update rfl

/-- Models are built beside the scenarios of each partition. -/
theorem build_placement (p : Program σ K) (build : Scenario K → Act σ K (Model K)) (epoch : Int) :
    (p.transport.map (fun (q : Partition K × Nat) => q.1.generate build epoch q.2)
      p.placed).Ensures
      (fun results => (results.map (·.1)).map Partition.scenarios = p.placement)
      fun _ => False := by
  refine (Transport.map_ensures p.transport _ (E := fun _ => False) fun q _ =>
    Partition.generate_keeps q.1).mono (fun results hresults => ?_) fun _ h => h
  rw [placement, ← map_fst_placed p, List.map_map, List.map_map]
  refine eq_map_of_forall₂ (List.forall₂_map_right_iff.2 (hresults.imp fun q a h => ?_))
  exact map_scenario_eq h fun _ _ h => h

theorem generateSubproblems_preserves_placement (r : SecondRecipe σ K) (p : Program σ K) :
    Preserves placement (generateSubproblems r) p := by
  unfold generateSubproblems
  refine preserves_state (Change.ensures_bind (Change.ensures_ofAct
    ((build_placement p _ _).mono (fun results hplaced => ?_) fun _ h => h.elim)))
  refine Change.ensures_bind (Change.ensures_update ?_)
  dsimp only
  split
  · exact Change.ensures_bind (Change.ensures_fail hplaced)
  · exact Change.ensures_update hplaced

theorem generate_preserves_placement (p : Program σ K) :
    Preserves placement (generate : Edit σ K Unit) p := by
  unfold generate
  refine preserves_state ?_
  split
  · exact Change.ensures_bind (Change.ensures_fail rfl)
  refine preserves_bind (generateMaster_preserves_placement _ p) fun _ p' => preserves_state ?_
  split
  · split
    · exact preserves_update rfl
    · exact preserves_pure ()
  · split
    · exact preserves_fail _
    · exact generateSubproblems_preserves_placement _ p'

theorem setStageData_preserves_placement (key : Setting K) (value : Value K) (p : Program σ K) :
    Preserves placement (setStageData key value) p :=
  preserves_lift fun stage => setData_preserves_placement stage value p

theorem register_preserves_placement (key : Setting K) (c : Candidate σ K) (defer : Bool)
    (p : Program σ K) : Preserves placement (register key c defer) p := by
  unfold register
  refine preserves_lift fun stage => preserves_lift fun r => ?_
  refine preserves_bind (setRecipe_preserves_placement r p) fun _ p' => preserves_state ?_
  split
  · exact preserves_bind (generate_preserves_placement p') fun _ _ => preserves_pure r
  · exact preserves_pure r

/-! ## Weighing -/

/-- Rescaling, as far as it goes, leaves what does not depend on the probabilities. -/
theorem rescale_go_preserves {read : Program σ K → γ} {factor : K}
    (hread : ∀ (p : Program σ K) done q rest, p.partitions = done ++ q :: rest →
      read { p with partitions := done ++ q.scaled factor :: rest } = read p)
    (rest done : List (Partition K)) {p : Program σ K} (hp : p.partitions = done ++ rest) :
    Preserves read (rescale.go factor done rest) p := by
  induction rest generalizing done p with
  | nil => exact preserves_pure ()
  | cons q rest ih =>
    unfold rescale.go
    refine Change.ensures_bind (Change.ensures_lift ((q.rescale_settles factor).mono ?_
      fun _ _ => rfl))
    rintro _ ⟨rfl, -⟩
    have hscaled := hread p done q rest hp
    refine Change.ensures_bind (Change.ensures_update ?_)
    exact (ih (done ++ [q.scaled factor]) (by simp)).mono (fun _ _ h => h.trans hscaled)
      fun _ _ h => h.trans hscaled

theorem rescale_preserves_sizes (factor : K) (p : Program σ K) :
    Preserves partitionSizes (rescale factor) p := by
  refine preserves_state (rescale_go_preserves (fun p done q rest hp => ?_) p.partitions [] rfl)
  simp [partitionSizes, hp, Partition.size, Partition.scaled]

/-- Weighing leaves every partition as large as it is. -/
theorem validate_preserves_sizes (normalize : Option Bool) (p : Program σ K) :
    Preserves partitionSizes (validate normalize) p := by
  unfold validate
  refine preserves_state ?_
  split
  · exact Change.ensures_bind (Change.ensures_fail rfl)
  dsimp only
  split
  · exact preserves_pure ()
  split
  · exact Change.ensures_bind (Change.ensures_fail rfl)
  · exact preserves_ofAct fun _ => preserves_bind (rescale_preserves_sizes _ p) fun _ p' =>
      preserves_update rfl

/-! ## Solving -/

variable [Host σ K]

theorem placement_loadPartitions (partitions : List (Partition K))
    (results : List (SolveResult K)) :
    (loadPartitions partitions results).map Partition.scenarios =
      partitions.map Partition.scenarios := by
  induction partitions generalizing results with
  | nil => rfl
  | cons q rest ih =>
    rw [loadPartitions, List.map_cons, ih, List.map_cons]
    refine congrArg (· :: _) ?_
    exact map_scenario_eq (forall₂_loadSlots q.slots results) fun _ _ h => h.scenario_eq

/-- Loading results leaves every scenario. -/
theorem commitRun_preserves_placement (label : String) (r : RunState K) (p : Program σ K) :
    Preserves placement (commitRun label r) p := by
  refine (commitRun_ensures label r p).mono ?_ ?_
  · rintro _ _ ⟨-, solution, rfl, -⟩
    exact placement_loadPartitions p.partitions r.secondStage
  · rintro _ _ ⟨-, rfl⟩
    rfl

theorem Marked.placement_eq {p p' : Program σ K} (h : Marked p p') :
    p'.placement = p.placement := by
  obtain ⟨generated, rfl⟩ := h
  rfl

theorem solve_commit_preserves_placement (s : StructuredSolver σ K) (p : Program σ K) :
    Preserves placement (do
      let (status, r) ← s.solve
      if status = .optimal then s.commit r
      return status : Edit σ K Status) p := by
  have hsolve : Preserves placement s.solve p :=
    (solve_leaves s p).mono (fun _ _ h => h.1.placement_eq) fun _ _ h => h.placement_eq
  refine preserves_bind hsolve ?_
  rintro ⟨status, r⟩ p'
  dsimp only
  split
  · exact preserves_bind (commitRun_preserves_placement s.label r.common p') fun _ _ =>
      preserves_pure status
  · exact preserves_pure status

/-- No scenario changes its partition where a program is solved. -/
theorem optimize_preserves_sizes (solver : Option (Solver σ K)) (p : Program σ K) :
    Preserves partitionSizes (optimize solver) p := by
  unfold optimize
  refine preserves_state (preserves_bind (generate_preserves_placement p).sizes fun _ p₁ => ?_)
  refine preserves_bind (validate_preserves_sizes none p₁) fun _ p₂ => ?_
  split
  · exact preserves_fail _
  · rename_i s hs
    have hsolve := (solve_commit_preserves_placement s p₂).sizes
    unfold StructuredSolver.solve at hsolve
    simpa only [bind_assoc] using hsolve

end Recourse.Program
