/-
  Proofs/Program/Atomicity.lean --- solutions are installed as a whole or not at all.

  A commit checks everything before it writes anything, and nothing before the commit of an
  optimum touches a solution or a result, except that weighing the scenarios anew drops the
  solution.  So a commit that is refused changes nothing; an optimization that is refused or
  finds no optimum leaves every model with the result it had; and what is installed, into
  the program, its first stage and its subproblems, is what one run found
  (`installs_whole`).  A commit that is handed no result of the first stage leaves the one
  that is loaded there, from whatever commit it came (`stock_installs_whole_false`).
-/
import Recourse.Proofs.Program.Committed

set_option autoImplicit false
set_option linter.unusedSectionVars false

namespace Recourse

variable {σ K : Type} [Scalar K] [Host σ K]

/-! ## Runs that end with an optimum -/

/-- A run that ended with an optimum knows the result of the first-stage model. -/
def RunState.Complete (r : RunState K) : Prop :=
  r.status = .optimal → r.masterResult.isSome = true

namespace ExtensiveState

theorem run_complete (c : Config K) (b : Backend σ K) (p : Program σ K) {s : ExtensiveState K}
    (h : s.toRunState.Complete) :
    (run c b p).Ensures s (fun _ s' => s'.toRunState.Complete)
      fun _ s' => s'.toRunState.Complete := by
  unfold run
  refine Change.ensures_bind (Change.ensures_state ?_)
  split
  · exact Change.ensures_bind (Change.ensures_update (Change.ensures_pure fun h => nomatch h))
  refine Change.ensures_ofAct_bind (fun r => ?_) fun _ => h
  refine Change.ensures_bind (Change.ensures_update ?_)
  dsimp only
  split
  · exact Change.ensures_bind (Change.ensures_fail h)
  split
  · refine Change.ensures_bind (Change.ensures_update (Change.ensures_lift_bind (fun second _ => ?_)
      fun _ _ => rfl))
    refine Change.ensures_bind (Change.ensures_update (Change.ensures_bind
      (Change.ensures_update (Change.ensures_pure fun _ => rfl))))
  · rename_i hother
    exact Change.ensures_bind (Change.ensures_update (Change.ensures_pure fun h => absurd h hother))

end ExtensiveState

namespace LShaped

variable {m : LShaped σ K} {p : Program σ K} {s : State K}

/-- No optimum is reported, whether the computation is refused or not. -/
def Undecided {α : Type} (c : Run σ K α) (s : State K) : Prop :=
  c.Ensures s (fun _ s' => s'.status ≠ .optimal) fun _ s' => s'.status ≠ .optimal

theorem finish_undecided (status : Status) (h : status ≠ .optimal) :
    Undecided (finish (σ := σ) status) s :=
  Change.ensures_bind (Change.ensures_update (Change.ensures_pure h))

/-- What a master solution leads to. -/
theorem verdict_undecided (r : SolveResult K) (s : State K) (h : s.status ≠ .optimal) :
    Undecided (match r.status with
      | .optimal => do Change.update (takeMaster r); return .broadcast
      | .infeasible => finish .infeasible
      | .unbounded => finish .unbounded
      | status => Change.fail (.solveFailure status none .master) : Run σ K Phase) s := by
  split
  · exact Change.ensures_bind (Change.ensures_update (Change.ensures_pure h))
  · exact finish_undecided _ Status.noConfusion
  · exact finish_undecided _ Status.noConfusion
  · exact Change.ensures_fail h

theorem masterSolve_undecided (h : s.status ≠ .optimal) : Undecided (masterSolve m) s := by
  unfold masterSolve
  refine Change.ensures_bind (Change.ensures_state ?_)
  split
  · exact finish_undecided _ Status.noConfusion
  refine Change.ensures_bind (Change.ensures_update (Change.ensures_ofAct_bind (fun free => ?_)
    fun _ => h))
  refine Change.ensures_bind (Change.ensures_update ?_)
  dsimp only
  split
  · exact Change.ensures_ofAct_bind (fun r => verdict_undecided r _ h) fun _ => h
  · exact Change.ensures_bind (Change.ensures_pure (verdict_undecided free _ h))

theorem subproblemSolve_undecided (h : s.status ≠ .optimal) :
    Undecided (subproblemSolve m p) s := by
  unfold subproblemSolve
  refine Change.ensures_bind (Change.ensures_state ?_)
  split
  · exact Change.ensures_fail h
  · exact Change.ensures_ofAct_bind
      (fun _ => Change.ensures_bind (Change.ensures_update (Change.ensures_pure h))) fun _ => h

theorem handleFailures_undecided (h : s.status ≠ .optimal) (x : List K)
    (failures : List (RoundFailure K)) : Undecided (handleFailures m p x failures) s := by
  induction failures generalizing s with
  | nil => exact Change.ensures_pure h
  | cons f failures ih =>
    unfold handleFailures
    refine Change.ensures_bind ((handleFailure_still x f).mono ?_ fun _ _ hs => hs.status ▸ h)
    rintro next s' ⟨hstill, hnext⟩
    cases next with
    | none => exact ih (hstill.status ▸ h)
    | some status => exact finish_undecided status (hnext status rfl)

theorem aggregate_undecided (h : s.status ≠ .optimal) : Undecided (aggregate m p) s := by
  unfold aggregate
  refine Change.ensures_bind (Change.ensures_state (Change.ensures_bind (Change.ensures_update ?_)))
  have hidle : ({ s with round := none } : State K).status ≠ .optimal := h
  split
  · rename_i r master hr hmaster
    split
    · exact handleFailures_undecided hidle _ _
    have himproved : (improve r master { s with round := none }).status ≠ .optimal := by
      unfold improve
      dsimp only
      split <;> exact h
    refine Change.ensures_bind (Change.ensures_update (Change.ensures_bind
      ((addOptimalityCuts_still _ _ _).mono (fun added s' hs => ?_) fun _ s' hs => ?_)))
    · refine Change.ensures_bind (Change.ensures_state ?_)
      have hs' := hs.status ▸ himproved
      split
      · split
        · exact finish_undecided _ fun hs => nomatch hs
        · exact Change.ensures_pure hs'
      · exact Change.ensures_pure hs'
    · exact hs.status ▸ himproved
  · exact Change.ensures_fail h

/-- The phase that puts the solution together leaves the result of the first stage. -/
theorem converge_complete (h : s.status ≠ .optimal) :
    (converge (σ := σ)).Ensures s (fun _ s' => s'.toRunState.Complete)
      fun _ s' => s'.toRunState.Complete := by
  unfold converge
  refine Change.ensures_bind (Change.ensures_state ?_)
  split
  · refine Change.ensures_ofAct_bind (fun now => ?_) fun _ hs => absurd hs h
    exact Change.ensures_bind (Change.ensures_update (Change.ensures_bind
      (Change.ensures_update (Change.ensures_pure fun _ => rfl))))
  · exact Change.ensures_fail fun hs => absurd hs h

theorem Undecided.complete {α : Type} {c : Run σ K α} (h : Undecided c s) :
    c.Ensures s (fun _ s' => s'.toRunState.Complete) fun _ s' => s'.toRunState.Complete :=
  h.mono (fun _ _ h hs => absurd hs h) fun _ _ h hs => absurd hs h

theorem runPhase_complete (h : s.status ≠ .optimal) (phase : Phase) :
    (runPhase m p phase).Ensures s (fun _ s' => s'.toRunState.Complete)
      fun _ s' => s'.toRunState.Complete := by
  cases phase with
  | init =>
    exact Undecided.complete (Change.ensures_bind (Change.ensures_update (Change.ensures_pure h)))
  | masterSolve => exact (masterSolve_undecided h).complete
  | broadcast =>
    exact Undecided.complete (Change.ensures_bind (Change.ensures_update (Change.ensures_pure h)))
  | subproblemSolve => exact (subproblemSolve_undecided h).complete
  | aggregate => exact (aggregate_undecided h).complete
  | converged => exact converge_complete h
  | terminated => exact Undecided.complete (Change.ensures_fail h)

theorem step_complete (h : s.toRunState.Complete) :
    (step m p).Ensures s (fun _ s' => s'.toRunState.Complete)
      fun _ s' => s'.toRunState.Complete := by
  refine ensures_step (fun _ => h) (fun _ => h) (fun _ _ hs => nomatch hs) (fun _ hs => nomatch hs)
    fun hrunning => ?_
  have hstatus : s.status ≠ .optimal := by
    intro hs
    simp [RunState.isDone, hs] at hrunning
  exact runPhase_complete hstatus _

theorem run_complete (h : s.toRunState.Complete) :
    (run m p).Ensures s (fun _ s' => s'.toRunState.Complete) fun _ s' => s'.toRunState.Complete :=
  (ensures_run (fun _ hs => step_complete hs) h).mono (fun _ _ hs => hs.1) fun _ _ => id

end LShaped

/-! ## Runs that are handed over -/

namespace StructuredSolver

variable (s : StructuredSolver σ K)

/-- A run of a solver as it may be handed over: it was set up, and after that it was run,
taken a step or asked to stop, on any program and any number of times. -/
inductive Ran : SolverRun K → Prop
  /-- It was set up. -/
  | built {p p' : Program σ K} {r : SolverRun K} {ledger ledger' : Ledger σ K}
      (h : (s.build.runOn p).run ledger = ((.ok r, p'), ledger')) : Ran r
  /-- It was run, to its end or until that was refused. -/
  | ran {r : SolverRun K} (h : Ran r) (p : Program σ K) (ledger : Ledger σ K) :
      Ran (((s.run p).runOn r).run ledger).1.2
  /-- A step of the L-shaped method was tried. -/
  | stepped {l : LShaped.State K} (h : Ran (.lshaped l)) (m : LShaped σ K) (p : Program σ K)
      (ledger : Ledger σ K) : Ran (.lshaped (((LShaped.step m p).runOn l).run ledger).1.2)
  /-- It was asked to stop. -/
  | cancelled {r : SolverRun K} (h : Ran r) : Ran r.cancel

theorem build_complete (p : Program σ K) :
    (s.build : Edit σ K (SolverRun K)).Ensures p (fun r _ => r.common.Complete)
      fun _ _ => True := by
  have hany : ∀ {α : Type} (act : Act σ K α), act.Ensures (fun _ => True) fun _ => True :=
    fun _ _ => (Settles.self _).mono (fun _ _ => trivial) fun _ h => h
  unfold build
  split
  · unfold ExtensiveState.build
    refine Change.ensures_bind (Change.ensures_bind ((Program.requireSolvable_leaves p).mono ?_
      fun _ _ _ => trivial))
    rintro master _ ⟨rfl, hcurrent, -⟩
    refine Change.ensures_bind ((Program.extensiveForm_leaves hcurrent).mono ?_
      fun _ _ _ => trivial)
    intro form p' _
    refine Change.ensures_bind (Change.ensures_state (Change.ensures_bind (Change.ensures_ofAct
      ((hany _).mono (fun _ _ => ?_) fun _ h => h))))
    exact Change.ensures_pure (Change.ensures_pure fun h => nomatch h)
  · refine Change.ensures_lift_bind (fun method _ => ?_) fun _ => trivial
    unfold LShaped.build
    refine Change.ensures_bind (Change.ensures_bind ((Program.requireSolvable_leaves p).mono ?_
      fun _ _ _ => trivial))
    rintro master _ ⟨rfl, -⟩
    refine Change.ensures_lift_bind (fun form _ => ?_) fun _ => trivial
    refine Change.ensures_bind (Change.ensures_state (Change.ensures_bind (Change.ensures_ofAct
      ((hany _).mono (fun _ _ => ?_) fun _ h => h))))
    exact Change.ensures_pure (Change.ensures_pure fun h => nomatch h)

theorem run_complete (p : Program σ K) {r : SolverRun K} (h : r.common.Complete)
    (ledger : Ledger σ K) : (((s.run p).runOn r).run ledger).1.2.common.Complete := by
  refine Change.Ensures.after (c := s.run p) (s := r) (P := fun r' => r'.common.Complete) ?_ ledger
  intro ledger
  cases r with
  | extensive e =>
    rw [run_extensive]
    exact ExtensiveState.run_complete s.config s.backend p h ledger
  | lshaped l =>
    cases hm : s.lshaped with
    | error f =>
      rw [run_refused hm]
      exact h
    | ok m =>
      rw [run_lshaped hm]
      exact LShaped.run_complete (s := l) h ledger

/-- However a run came about, an optimum knows the result of the first stage. -/
theorem Ran.complete {r : SolverRun K} (h : s.Ran r) : r.common.Complete := by
  induction h with
  | built h => exact (s.build_complete _).of_runOn h
  | ran _ p ledger ih => exact s.run_complete p ih ledger
  | @stepped l _ m p ledger ih =>
    exact Change.Ensures.after (P := fun l' : LShaped.State K => l'.toRunState.Complete)
      (LShaped.step_complete (s := l) ih) ledger
  | @cancelled r _ ih =>
    cases r with
    | extensive e => exact ih
    | lshaped l => exact ih

/-- A run that was set up and taken to its end is one that may be handed over. -/
theorem solve_ran (p : Program σ K) :
    s.solve.Ensures p (fun a _ => s.Ran a.2) fun _ _ => True := by
  unfold solve
  refine Change.ensures_bind ((Change.ensures_runOn _ p).mono ?_ fun _ _ _ => trivial)
  rintro r p' ⟨ledger, ledger', hbuild⟩
  refine Change.ensures_bind (Change.ensures_state (Change.ensures_ofAct (Change.ensures_apply
    ((Change.ensures_runOn _ r).mono ?_ fun _ _ _ => trivial))))
  rintro status r' ⟨ledger₁, ledger₂, hrun⟩
  have hran := (Ran.built hbuild).ran p' ledger₁
  rwa [hrun] at hran

end StructuredSolver

/-! ## Models that are spared -/

/-- The computation may give this, on some ledger. -/
def Act.MayGive {α : Type} (act : Act σ K α) (a : α) : Prop :=
  ∃ ledger, (act.run.run ledger).1 = .ok a

theorem Act.ensures_mayGive {α : Type} (act : Act σ K α) :
    act.Ensures act.MayGive fun _ => True :=
  fun ledger => (Settles.self _).mono (fun _ h => ⟨ledger, h⟩) fun _ h => h

namespace Program

variable {p p' p'' : Program σ K}

/-- What stands in a slot afterwards: the model with the result it had, or else the model was
not current, and there is none now or one that the recipe made anew. -/
def SlotSpared (p : Program σ K) (epoch : Int) (s : Slot K) (built : Option (Model K × Int)) :
    Prop :=
  built = s.built ∨ s.isCurrent epoch = false ∧ ∀ m e, built = some (m, e) → e = epoch ∧
    ∃ r d, p.secondRecipe = some r ∧ (r.generate p.secondData d s.scenario.data).MayGive m

/-- Every model is left with the result it has, or it was not current and was built anew. -/
structure Spared (p p' : Program σ K) : Prop where
  /-- The first-stage model. -/
  master : p'.master = p.master ∨ p.currentMaster? = none ∧ ∃ r m, p.firstRecipe = some r ∧
    (r.generate p.firstData).MayGive m ∧ p'.master = some (m, p.firstEpoch)
  /-- The subproblems. -/
  slots : List.Forall₂ (p.SlotSpared p'.secondEpoch) p.slots (p'.slots.map (·.built))

/-- The same models stand in the same places, with the same results. -/
structure SameModels (p p' : Program σ K) : Prop where
  /-- In the first stage. -/
  master : p'.master = p.master
  /-- In the slots. -/
  built : p'.slots.map (·.built) = p.slots.map (·.built)
  /-- The epoch of the second stage is the same. -/
  epoch : p'.secondEpoch = p.secondEpoch

theorem SameModels.refl (p : Program σ K) : p.SameModels p := ⟨rfl, rfl, rfl⟩

theorem SameModels.trans (h : p.SameModels p') (h' : p'.SameModels p'') : p.SameModels p'' :=
  ⟨h'.master.trans h.master, h'.built.trans h.built, h'.epoch.trans h.epoch⟩

theorem Spared.of_sameModels (h : p.SameModels p') : p.Spared p' where
  master := Or.inl h.master
  slots := by
    rw [h.built, List.forall₂_map_right_iff, List.forall₂_same]
    exact fun _ _ => Or.inl rfl

theorem Spared.trans (h : p.Spared p') (h' : p'.SameModels p'') : p.Spared p'' where
  master := by rw [h'.master]; exact h.master
  slots := by rw [h'.built, h'.epoch]; exact h.slots

/-- Whether building and weighing may have dropped the solution. -/
def KeepsSolution (p p' : Program σ K) : Prop :=
  p'.solution = p.solution ∨
    p'.solution = none ∧ p.normalize = true ∧ isTotal p.totalProbability = false

/-! ## Building and weighing -/

/-- What building leaves: the models that are current, the solution, and the weights. -/
structure Rebuilt (p p' : Program σ K) : Prop extends p.Spared p' where
  /-- The solution is the same. -/
  solution : p'.solution = p.solution
  /-- So is whether probabilities are rescaled. -/
  normalize : p'.normalize = p.normalize
  /-- So is their total. -/
  total : p'.totalProbability = p.totalProbability

theorem Rebuilt.refl (p : Program σ K) : p.Rebuilt p := ⟨.of_sameModels (.refl p), rfl, rfl, rfl⟩

/-- Building the first stage touches no slot. -/
theorem generateMaster_rebuilds {r : FirstRecipe σ K} (hr : p.firstRecipe = some r) :
    (generateMaster r : Edit σ K Unit).Ensures p
      (fun _ p' => p.Rebuilt p' ∧ p'.slots = p.slots ∧ p'.secondRecipe = p.secondRecipe ∧
        p'.secondData = p.secondData)
      fun _ p' => p.Rebuilt p' := by
  unfold generateMaster
  refine Change.ensures_bind (Change.ensures_state ?_)
  cases hcurrent : p.currentMaster? with
  | some m => exact Change.ensures_pure ⟨.refl p, rfl, rfl, rfl⟩
  | none =>
    refine Change.ensures_bind (Change.ensures_ofAct ((Act.ensures_mayGive _).mono ?_
      fun _ _ => .refl p))
    intro m hm
    dsimp only
    split
    · exact Change.ensures_bind (Change.ensures_fail (.refl p))
    · refine Change.ensures_update ⟨⟨⟨Or.inr ⟨hcurrent, r, m, hr, hm, rfl⟩, ?_⟩, rfl, rfl, rfl⟩,
        rfl, rfl, rfl⟩
      rw [List.forall₂_map_right_iff]
      exact List.forall₂_same.2 fun _ _ => Or.inl rfl

/-- Building a partition builds what is not current in its slots. -/
theorem generate_partition_spares {r : SecondRecipe σ K} (hr : p.secondRecipe = some r)
    (d : Decisions) (q : Partition K) (offset : Int) {E : Fault K → Prop} :
    (q.generate (fun s => r.generate p.secondData d s.data) p.secondEpoch offset).Ensures
      (fun a => List.Forall₂ (fun s s' => p.SlotSpared p.secondEpoch s s'.built ∧
        s'.scenario = s.scenario) q.slots a.1.slots) E := by
  have hslot : ∀ s ∈ q.slots,
      (Partition.buildSlot (fun s => r.generate p.secondData d s.data) p.secondEpoch s).Ensures
        (fun a => p.SlotSpared p.secondEpoch s a.1.built ∧ a.1.scenario = s.scenario) E := by
    intro s _
    unfold Partition.buildSlot
    split
    · exact Act.ensures_pure ⟨Or.inl rfl, rfl⟩
    · rename_i hstale
      have hstale : s.isCurrent p.secondEpoch = false := by simpa using hstale
      refine Act.ensures_bind ((Act.ensures_attempt (Act.ensures_mayGive _)).mono ?_ fun _ h => h)
      intro result hresult
      cases result with
      | ok m =>
        refine Act.ensures_pure ⟨Or.inr ⟨hstale, ?_⟩, rfl⟩
        rintro _ _ ⟨⟩
        exact ⟨rfl, r, d, hr, hresult⟩
      | error f => exact Act.ensures_pure ⟨Or.inr ⟨hstale, fun _ _ h => nomatch h⟩, rfl⟩
  refine Act.ensures_bind ((Act.ensures_forEach _ hslot).mono ?_ fun _ h => h)
  intro results hresults
  exact Act.ensures_pure (List.forall₂_map_right_iff.2 hresults)

theorem generateSubproblems_rebuilds {r : SecondRecipe σ K} (hr : p.secondRecipe = some r) :
    (generateSubproblems r : Edit σ K Unit).Ensures p
      (fun _ p' => p.Rebuilt p' ∧ p'.master = p.master)
      fun _ p' => p.Rebuilt p' ∧ p'.master = p.master := by
  unfold generateSubproblems
  refine Change.ensures_bind (Change.ensures_state ?_)
  refine Change.ensures_bind (Change.ensures_ofAct ((Transport.map_ensures p.transport _
    (E := fun _ => False) fun q _ =>
      generate_partition_spares hr (p.decisions.getD ⟨[]⟩) q.1 q.2).mono ?_ fun _ h => h.elim))
  intro results hresults
  have hplaced : p.placed.flatMap (·.1.slots) = p.slots := by
    rw [slots, ← map_fst_placed p, List.flatMap_map]
  have hslots : List.Forall₂ (p.SlotSpared p.secondEpoch) p.slots
      (((results.map (·.1)).flatMap (·.slots)).map (·.built)) := by
    rw [← hplaced, List.flatMap_map, List.forall₂_map_right_iff]
    exact forall₂_flatMap hresults fun _ _ h => h.imp fun _ _ h => h.1
  have hmasses : (results.map (·.1)).map (·.mass) = p.partitions.map (·.mass) := by
    rw [← map_fst_placed p, List.map_map, List.map_map]
    refine eq_map_of_forall₂ ?_
    rw [List.forall₂_map_right_iff]
    refine hresults.imp fun q a h => ?_
    have hscenarios : a.1.scenarios = q.1.scenarios :=
      map_scenario_eq h fun _ _ h => h.2
    show Scenario.mass a.1.scenarios = Scenario.mass q.1.scenarios
    rw [hscenarios]
  have hbuilt : ∀ generated, p.Rebuilt
      { p with partitions := results.map (·.1), generatedEpoch := generated } := fun _ =>
    ⟨⟨Or.inl rfl, hslots⟩, rfl, rfl, congrArg Scalar.sum hmasses⟩
  refine Change.ensures_bind (Change.ensures_update ?_)
  dsimp only
  split
  · exact Change.ensures_bind (Change.ensures_fail ⟨hbuilt _, rfl⟩)
  · exact Change.ensures_update ⟨hbuilt _, rfl⟩

/-- Building leaves what is current, also where it is refused midway. -/
theorem generate_rebuilds (p : Program σ K) : (generate : Edit σ K Unit).Ensures p
    (fun _ p' => p.Rebuilt p') fun _ p' => p.Rebuilt p' := by
  unfold generate
  refine Change.ensures_bind (Change.ensures_state ?_)
  split
  · exact Change.ensures_bind (Change.ensures_fail (.refl p))
  rename_i r hr
  refine Change.ensures_bind ((generateMaster_rebuilds hr).mono ?_ fun _ _ h => h)
  rintro _ p₁ ⟨h, hslots, hrecipe, hdata⟩
  refine Change.ensures_bind (Change.ensures_state ?_)
  split
  · split
    · exact Change.ensures_update ⟨⟨h.master, h.slots⟩, h.solution, h.normalize, h.total⟩
    · exact Change.ensures_pure h
  · split
    · exact Change.ensures_fail h
    · rename_i r' hr'
      have hcompose : ∀ p₂, p₁.Rebuilt p₂ ∧ p₂.master = p₁.master → p.Rebuilt p₂ := by
        rintro p₂ ⟨h', hmaster⟩
        refine ⟨⟨hmaster ▸ h.master, ?_⟩, h'.solution.trans h.solution,
          h'.normalize.trans h.normalize, h'.total.trans h.total⟩
        have hspared := h'.slots
        unfold SlotSpared at hspared ⊢
        rwa [hslots, hrecipe, hdata] at hspared
      exact (generateSubproblems_rebuilds hr').mono (fun _ _ h => hcompose _ h)
        fun _ _ h => hcompose _ h

/-- The scenarios have other weights.  Every model stays in its slot, and nothing else
changes. -/
structure Reweighed (p p' : Program σ K) : Prop where
  /-- The models. -/
  built : p'.slots.map (·.built) = p.slots.map (·.built)
  /-- All else. -/
  rest : p' = { p with partitions := p'.partitions }

theorem Reweighed.sameModels (h : p.Reweighed p') : p.SameModels p' := by
  refine ⟨?_, h.built, ?_⟩ <;> rw [h.rest]

/-- Rescaling, as far as it goes, only gives other weights. -/
theorem rescale_go_reweighs {factor : K} (rest done : List (Partition K)) {p q : Program σ K}
    (hp : p.partitions = done ++ rest) (hq : q.Reweighed p) :
    (rescale.go factor done rest : Edit σ K Unit).Ensures p (fun _ p' => q.Reweighed p')
      fun _ p' => q.Reweighed p' := by
  induction rest generalizing done p with
  | nil => exact Change.ensures_pure hq
  | cons part rest ih =>
    unfold rescale.go
    refine Change.ensures_bind (Change.ensures_lift ((part.rescale_settles factor).mono ?_
      fun _ _ => hq))
    rintro _ ⟨rfl, -⟩
    refine Change.ensures_bind (Change.ensures_update (ih (done ++ [part.scaled factor]) (by simp)
      ⟨Eq.trans ?_ hq.built, ?_⟩))
    · simp only [slots, hp, List.flatMap_append, List.flatMap_cons, List.map_append]
      congr 2
      show (part.slots.map _).map _ = _
      rw [List.map_map]
      rfl
    · rw [hq.rest]

theorem rescale_reweighs (factor : K) (p : Program σ K) :
    (rescale factor : Edit σ K Unit).Ensures p (fun _ p' => p.Reweighed p')
      fun _ p' => p.Reweighed p' :=
  Change.ensures_bind (Change.ensures_state (rescale_go_reweighs p.partitions [] rfl ⟨rfl, rfl⟩))

/-- Weighing leaves every model, and it may drop the solution only where the program asks for
the probabilities to be rescaled and they do not sum to one. -/
theorem validate_spares (p : Program σ K) : (validate none : Edit σ K Unit).Ensures p
    (fun _ p' => p.SameModels p' ∧ p.KeepsSolution p')
    fun _ p' => p.SameModels p' ∧ p.KeepsSolution p' := by
  have hnothing : p.SameModels p ∧ p.KeepsSolution p := ⟨.refl p, Or.inl rfl⟩
  unfold validate
  refine Change.ensures_bind (Change.ensures_state ?_)
  split
  · exact Change.ensures_bind (Change.ensures_fail hnothing)
  dsimp only
  split
  · exact Change.ensures_pure hnothing
  rename_i htotal
  split
  · exact Change.ensures_bind (Change.ensures_fail hnothing)
  rename_i hchecks
  simp only [Option.getD_none, Bool.or_eq_true, Bool.not_eq_true', not_or, Bool.not_eq_false,
    Bool.not_eq_true] at hchecks htotal
  refine Change.ensures_ofAct_bind (fun _ => ?_) fun _ => hnothing
  refine Change.ensures_bind ((rescale_reweighs _ p).mono ?_
    fun _ _ h => ⟨h.sameModels, Or.inl (by rw [h.rest])⟩)
  intro _ p' h
  exact Change.ensures_update ⟨h.sameModels.trans ⟨rfl, rfl, rfl⟩,
    Or.inr ⟨rfl, hchecks.1, htotal⟩⟩

theorem Rebuilt.keepsSolution (h : p.Rebuilt p') (h' : p'.KeepsSolution p'') :
    p.KeepsSolution p'' := by
  unfold KeepsSolution at h' ⊢
  rwa [h.solution, h.normalize, h.total] at h'

/-! ## What is installed -/

/-- The result that is loaded into the first-stage model. -/
def firstStageResult (p : Program σ K) : Option (SolveResult K) := p.master.bind (·.1.result)

/-- A solution was installed, and with it one result per scenario, each of the length of its
subproblem, and the result of the first stage where there is one. -/
structure Installs (p : Program σ K) (c : Solution K) (results : List (SolveResult K))
    (master : Option (SolveResult K)) (p' : Program σ K) : Prop where
  /-- The solution. -/
  solution : p'.solution = some c
  /-- The results fit the subproblems, which are current. -/
  fits : List.Forall₂ p.Answers p.slots results
  /-- Each is loaded into its subproblem. -/
  slots : p'.slots = List.zipWith Slot.load p.slots results
  /-- The result of the first stage is loaded, or the one that was there is left. -/
  master : p'.master = match master with
    | some r => p.master.map fun m => (m.1.load r, m.2)
    | none => p.master

/-- What a run found was installed, the result of the first stage with it. -/
def Adopts (p : Program σ K) (label : String) (r : RunState K) (p' : Program σ K) : Prop :=
  ∃ decision result, r.decision = some decision ∧ r.masterResult = some result ∧
    p.Installs { decision, objective := r.objective
                 reducedCosts := r.reducedCosts.getD (Scalar.zeros decision.length)
                 duals := r.duals.getD [], status := .optimal, solver := label
                 iterations := r.iterations } r.secondStage (some result) p'

theorem commit_installs (c : Solution K) (results : List (SolveResult K))
    (master : Option (SolveResult K)) (p : Program σ K) :
    (commit c results master : Edit σ K Unit).Ensures p (fun _ p' => p.Installs c results master p')
      fun _ p' => p' = p := by
  refine (commit_ensures c results master p).mono ?_ fun _ _ h => h.2
  rintro _ _ ⟨htakes, rfl⟩
  exact ⟨rfl, htakes.2, slots_loadPartitions htakes.2.length_eq.le, rfl⟩

/-- A run that knows the result of the first stage is adopted as a whole or not at all. -/
theorem commitRun_adopts (label : String) {r : RunState K} (hr : r.Complete) (p : Program σ K) :
    (commitRun label r : Edit σ K Unit).Ensures p (fun _ p' => p.Adopts label r p')
      fun _ p' => p' = p := by
  unfold commitRun
  refine Change.ensures_bind (Change.ensures_state ?_)
  dsimp only
  split
  · exact Change.ensures_bind (Change.ensures_fail rfl)
  split
  · rename_i decision hstatus hdecision
    obtain ⟨result, hresult⟩ := Option.isSome_iff_exists.1 (hr hstatus)
    rw [hresult, hstatus]
    exact (commit_installs _ _ _ p).mono (fun _ _ h => ⟨decision, result, hdecision, hresult, h⟩)
      fun _ _ h => h
  · exact Change.ensures_fail rfl

/-- What becomes of a program when a solver finds an optimum: it was built and weighed, which
spares its models, and one run on what was there then was adopted. -/
def Optimized (p : Program σ K) (s : StructuredSolver σ K) (p' : Program σ K) : Prop :=
  ∃ (p₁ p₂ : Program σ K) (r : SolverRun K) (ledger ledger' : Ledger σ K),
    p.Spared p₁ ∧ p₁.isDeferred = false ∧ Marked p₁ p₂ ∧
      (s.solve.runOn p₁).run ledger = ((.ok (.optimal, r), p₂), ledger') ∧
        p₂.Adopts s.label r.common p'

/-- Solving and committing: an optimum is adopted, and else nothing is. -/
theorem solve_commit_adopts (s : StructuredSolver σ K) {p p₁ : Program σ K} (h : p.Spared p₁)
    (hkeeps : p.KeepsSolution p₁) :
    (do
      let (status, r) ← s.solve
      if status = .optimal then s.commit r
      return status : Edit σ K Status).Ensures p₁
      (fun status p' => if status = .optimal then p.Optimized s p'
        else p.Spared p' ∧ p.KeepsSolution p') fun _ p' => p.Spared p' ∧ p.KeepsSolution p' := by
  have hmarked : ∀ p₂, Marked p₁ p₂ → p.Spared p₂ ∧ p.KeepsSolution p₂ := by
    rintro _ ⟨generated, rfl⟩
    exact ⟨h.trans ⟨rfl, rfl, rfl⟩, hkeeps⟩
  refine Change.ensures_bind ((((solve_leaves s p₁).and (s.solve_ran p₁)).and
    (Change.ensures_runOn _ p₁)).mono ?_ fun _ _ h => hmarked _ h.1.1)
  rintro ⟨status, r⟩ p₂ ⟨⟨⟨hmark, hcurrent, -⟩, hran⟩, ledger, ledger', hsolve⟩
  dsimp only
  split
  · rename_i hstatus
    subst hstatus
    refine Change.ensures_bind ((commitRun_adopts s.label hran.complete p₂).mono ?_ ?_)
    · intro _ p' hadopts
      refine Change.ensures_pure ?_
      rw [if_pos rfl]
      exact ⟨p₁, p₂, r, ledger, ledger', h, hcurrent, hmark, hsolve, hadopts⟩
    · rintro _ _ rfl
      exact hmarked _ hmark
  · rename_i hstatus
    refine Change.ensures_pure ?_
    rw [if_neg hstatus]
    exact hmarked _ hmark

theorem optimize_adopts (solver : Option (Solver σ K)) (p : Program σ K) :
    (optimize solver).Ensures p
      (fun status p' => if status = .optimal then
          ∃ s, p.solverFor solver = .structured s ∧ p.Optimized s p'
        else p.Spared p' ∧ p.KeepsSolution p')
      fun _ p' => p.Spared p' ∧ p.KeepsSolution p' := by
  unfold optimize
  refine Change.ensures_bind (Change.ensures_state ?_)
  refine Change.ensures_bind ((generate_rebuilds p).mono ?_
    fun _ _ h => ⟨h.toSpared, Or.inl h.solution⟩)
  intro _ p₁ h₁
  have hweighed : ∀ p₂, p₁.SameModels p₂ ∧ p₁.KeepsSolution p₂ →
      p.Spared p₂ ∧ p.KeepsSolution p₂ :=
    fun p₂ h => ⟨h₁.toSpared.trans h.1, h₁.keepsSolution h.2⟩
  refine Change.ensures_bind ((validate_spares p₁).mono ?_ fun _ _ h => hweighed _ h)
  intro _ p₂ h₂
  split
  · exact Change.ensures_fail (hweighed _ h₂)
  · rename_i s hs
    have hsolve := solve_commit_adopts s (hweighed _ h₂).1 (hweighed _ h₂).2
    unfold StructuredSolver.solve at hsolve
    simp only [bind_assoc] at hsolve
    refine hsolve.mono ?_ fun _ _ h => h
    intro status p' h
    split at h
    · rename_i hstatus
      rw [if_pos hstatus]
      exact ⟨s, hs, h⟩
    · rename_i hstatus
      rw [if_neg hstatus]
      exact h

/-- Solutions are installed as a whole or not at all.  A commit that is refused leaves the
program as it is, and one that is not installs what it was handed, the result of the first
stage where there is one.  A run that is handed over always has one.  An optimization that is
refused or reports no optimum leaves every model with the result it had, and the solution,
unless the probabilities had to be rescaled; an optimum is that of one run, from which the
solution and all results come. -/
theorem installs_whole :
    (∀ (c : Solution K) (results : List (SolveResult K)) (master : Option (SolveResult K))
      (p : Program σ K), (commit c results master : Edit σ K Unit).Ensures p
        (fun _ p' => p.Installs c results master p') fun _ p' => p' = p) ∧
    (∀ (s : StructuredSolver σ K) (r : SolverRun K) (p : Program σ K), s.Ran r →
      (s.commit r).Ensures p (fun _ p' => p.Adopts s.label r.common p') fun _ p' => p' = p) ∧
    ∀ (solver : Option (Solver σ K)) (p : Program σ K), (optimize solver).Ensures p
      (fun status p' => if status = .optimal then
          ∃ s, p.solverFor solver = .structured s ∧ p.Optimized s p'
        else p.Spared p' ∧ p.KeepsSolution p')
      fun _ p' => p.Spared p' ∧ p.KeepsSolution p' :=
  ⟨commit_installs, fun s _ p hr => commitRun_adopts s.label hr.complete p, optimize_adopts⟩

/-! ## Commits without a result of the first stage -/

/-- The stock is set up and solved. -/
def solvedStock : List (Operation (Transcript ℚ) (Exact ℚ)) := stockSetup ++ [.optimize none]

theorem solvedStock_allowed : ∀ op ∈ solvedStock, op.Allowed :=
  List.forall_mem_append.2 ⟨stockSetup_allowed, by simp [Operation.Allowed]⟩

/-- The full stock is the decision, its value is that of the program, and it is loaded into
the first stage. -/
theorem stock_installs_whole : ∃ p p' : Program (Transcript ℚ) (Exact ℚ), Reachable p ∧
    p.Optimized StructuredSolver.standard p' ∧
      p'.solution.map (·.decision) = some [.finite 3] ∧
      p'.firstStageResult.map (·.point) = some [.finite 3] := by
  obtain ⟨p, hp, hstate⟩ := exists_reachable Setup.standard stockSetup_allowed ⟨fullStock, [], 0⟩
    (fun p =>
      let after := ((optimize none).runOn p).run ⟨fullStock, [], 0⟩
      after.1.1.toOption == some Status.optimal &&
        p.solver.isNone && after.1.2.solution.map (·.decision) == some [.finite 3] &&
        after.1.2.firstStageResult.map (·.point) == some [.finite 3])
    (by decide +kernel)
  generalize hrun : ((optimize none).runOn p).run ⟨fullStock, [], 0⟩ = after at hstate
  obtain ⟨⟨r, p'⟩, ledger'⟩ := after
  simp only [Bool.and_eq_true, beq_iff_eq, Option.isNone_iff_eq_none] at hstate
  obtain ⟨⟨⟨hoptimal, hsolver⟩, hdecision⟩, hpoint⟩ := hstate
  cases r with
  | error f => cases hoptimal
  | ok status =>
    cases hoptimal
    obtain ⟨s, hs, hoptimized⟩ := (installs_whole.2.2 none p).of_runOn hrun
    have hstandard : p.solverFor none = .structured StructuredSolver.standard := by
      rw [solverFor, hsolver]
      rfl
    cases hstandard.symm.trans hs
    exact ⟨p, p', hp, hoptimized, hdecision, hpoint⟩

/-- Nothing in stock. -/
def emptyStock : Solution (Exact ℚ) where
  decision := [0]
  objective := .finite 6
  reducedCosts := [0]
  duals := []
  status := .optimal
  solver := ""
  iterations := 0

/-- What an empty stock lacks, bought at some price. -/
def wholeShortage (price : ℚ) : SolveResult (Exact ℚ) where
  status := .optimal
  objective := .finite (3 * price)
  point := [0, .finite 3]
  duals := [.finite price]
  reducedCosts := none
  iterations := 0
  seconds := 0
  gap := 0

/-- The stock is full at the optimum.  Then the empty stock is committed without a result of
the first stage, and the first stage holds on to the full one. -/
theorem stock_installs_whole_false : ¬ ∀ (c : Solution (Exact ℚ))
    (results : List (SolveResult (Exact ℚ))) (master : Option (SolveResult (Exact ℚ)))
    (p : Program (Transcript ℚ) (Exact ℚ)), Reachable p →
      (commit c results master : Edit (Transcript ℚ) (Exact ℚ) Unit).Ensures p
        (fun _ p' => p'.solution = some c ∧ p'.firstStageResult = master) fun _ p' => p' = p := by
  intro hwhole
  obtain ⟨p, hp, hstate⟩ := exists_reachable Setup.standard solvedStock_allowed
    ⟨fullStock, [], 0⟩
    (fun p =>
      let after := ((commit emptyStock [wholeShortage 3, wholeShortage 1] none).runOn p).run
        ⟨fullStock, [], 0⟩
      after.1.1.toOption.isSome && after.1.2.firstStageResult.any (·.point == [.finite 3]))
    (by decide +kernel)
  generalize hrun : ((commit emptyStock [wholeShortage 3, wholeShortage 1] none).runOn p).run
    ⟨fullStock, [], 0⟩ = after at hstate
  obtain ⟨⟨r, p'⟩, ledger'⟩ := after
  have h := (hwhole emptyStock [wholeShortage 3, wholeShortage 1] none p hp).of_runOn hrun
  cases r with
  | ok a =>
    have hnone : p'.firstStageResult = none := h.2
    simp [hnone] at hstate
  | error f => cases hstate

end Program

end Recourse
