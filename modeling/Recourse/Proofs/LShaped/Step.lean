/-
  Proofs/LShaped/Step.lean --- every state of every run.

  A step keeps the invariant whatever its phase and whether or not it is refused
  (`step_ensures`).  `Reachable` collects the states of all runs: those that were built,
  and those after any number of steps, refusals and cancellations.
-/
import Recourse.Proofs.LShaped.Advance
import Recourse.Proofs.LShaped.Aggregate
import Recourse.Proofs.Solver.Solvable

set_option autoImplicit false
set_option linter.unusedSectionVars false

open scoped BigOperators

namespace Recourse

variable {F : Type} [Field F] [LinearOrder F] [IsStrictOrderedRing F] [FloorRing F] {σ : Type}
  [Host σ (Exact F)]

namespace LShaped

variable {s s' : State (Exact F)} {p : Program σ (Exact F)} {m : LShaped σ (Exact F)}

open State

/-! ## Configurations -/

/-- The rules are those of a configuration that was accepted. -/
def Configured (m : LShaped σ (Exact F)) : Prop :=
  ∃ c : Config (Exact F), c.kind = .lshaped ∧ c.check = .ok () ∧ c.rules = .ok m.rules

theorem rules_settles (c : Config (Exact F)) : Settles c.rules
    (fun r => Config.comparable c.masterBound = .ok r.masterBound) fun _ => True := by
  unfold Config.rules
  refine Settles.bind ((Settles.self _).mono ?_ fun _ => id)
  intro _ _
  refine Settles.bind ((Settles.self _).mono ?_ fun _ => id)
  intro _ _
  refine Settles.bind ((Settles.self _).mono ?_ fun _ => id)
  intro _ _
  exact Settles.bind ((Settles.self _).mono (fun _ hbound => hbound) fun _ => id)

/-- What passes the checks has a box with room in it. -/
theorem check_settles {c : Config (Exact F)} (hkind : c.kind = .lshaped) : Settles c.check
    (fun _ => ∀ b, Config.comparable c.masterBound = .ok b → Scalar.less 0 b = true)
    fun _ => True := by
  have hbound : Settles (do
      let bound ← Config.comparable c.masterBound
      if (!Scalar.less 0 bound) = true then
        throw (Fault.invalid (.notPositive "master_bound" c.masterBound))
      else pure ())
      (fun _ => ∀ b, Config.comparable c.masterBound = .ok b → Scalar.less 0 b = true)
      fun _ => True := by
    refine Settles.bind ((Settles.self _).mono ?_ fun _ => id)
    intro a ha
    split
    · trivial
    · rename_i hpositive
      intro b hb
      rw [ha] at hb
      cases hb
      simpa using hpositive
  unfold Config.check
  refine Settles.bind ((Settles.self _).mono ?_ fun _ => id)
  intro _ _
  dsimp only
  split
  · trivial
  refine Settles.bind ((Settles.self _).mono ?_ fun _ => id)
  intro _ _
  split
  · trivial
  split
  · exact hbound
  · refine Settles.bind ((Settles.self _).mono ?_ fun _ => id)
    intro _ _
    split
    · trivial
    · exact hbound

theorem Configured.masterBound (h : m.Configured) :
    Scalar.less 0 m.rules.masterBound = true := by
  obtain ⟨c, hkind, hcheck, hrules⟩ := h
  exact (check_settles hkind).of_ok hcheck _ ((rules_settles c).of_ok hrules)

/-! ## Building -/

/-- The state a run starts in. -/
theorem fresh_invariant (id : Nat) (started : Exact F) :
    (State.fresh (RunState.fresh id p.firstStage.goal.sign started)
      (p.firstStage.formAt []).minimized
      (if m.rules.multicut then p.scenarioCount else 1)).Invariant p m := by
  have hinactive : ∀ n g, (List.replicate n false).getD g false = false := by
    intro n g
    rw [List.getD_eq_getElem?_getD, List.getElem?_replicate]
    split <;> rfl
  refine ⟨⟨⟨rfl, rfl, ?_, fun c hc => absurd hc List.not_mem_nil, ?_⟩, Or.inl rfl,
    Or.inl ⟨rfl, rfl⟩⟩, ⟨rfl, rfl⟩, trivial⟩
  · simp only [fresh, List.length_replicate, groupCount]
  · intro g hg
    simp only [fresh] at hg
    rw [hinactive] at hg
    cases hg

/-- A run that was built satisfies the invariant, and its program is solvable. -/
theorem build_ensures (hp : p.Proper) :
    (m.build : Edit σ (Exact F) (State (Exact F))).Ensures p
      (fun s p' => p' = p ∧ p.Solvable ∧ s.Invariant p m) (fun _ _ => True) := by
  unfold build
  refine Change.ensures_bind (p.requireSolvable_ensures.mono ?_
    fun _ _ => id)
  intro master p' hp'
  obtain ⟨rfl, hsolvable, rfl⟩ := hp'
  rw [Model.standardForm_none hp.first hp.own]
  refine Change.ensures_bind (Change.ensures_pure ?_)
  refine Change.ensures_bind (Change.ensures_state ?_)
  refine Change.ensures_bind (Change.ensures_ofAct ?_)
  have hclock : (Host.clock : Act σ (Exact F) (Exact F)).Ensures (fun _ => True)
      fun _ => True := by
    intro ledger
    cases h : (Host.clock.run.run ledger : _ × Ledger σ (Exact F)).1 <;> trivial
  exact hclock.mono (fun started _ => Change.ensures_pure
    ⟨rfl, hsolvable, fresh_invariant p'.id started⟩) fun _ => id

/-! ## Steps -/

/-- Every phase does its part. -/
theorem runPhase_ensures (host : Host.Sound σ F) (hb : m.backend.Faithful) (hp : p.Proper)
    (hs : p.Solvable) (hbound : Scalar.less 0 m.rules.masterBound = true) (h : s.Invariant p m)
    (hstatus : s.status = .unsolved) :
    (runPhase m p s.phase).Ensures s (Advanced p m s) (Refused p m s) := by
  cases hphase : s.phase with
  | init => exact init_ensures h hphase hstatus
  | masterSolve => exact masterSolve_ensures host h hp hphase hstatus
  | broadcast => exact broadcast_ensures h hphase hstatus
  | subproblemSolve => exact subproblemSolve_ensures host hb hp hs hbound h hphase hstatus
  | aggregate => exact aggregate_ensures host hp hs hbound h hphase hstatus
  | converged => exact converge_ensures host h hphase
  | terminated =>
    exact Change.ensures_fail ⟨h, h.toCore.tightens rfl rfl, fun ⟨_, h⟩ => nomatch h⟩

/-- A step keeps the invariant and tightens the bounds, also where it is refused. -/
theorem step_ensures (host : Host.Sound σ F) (hb : m.backend.Faithful) (hp : p.Proper)
    (hs : p.Solvable) (hbound : Scalar.less 0 m.rules.masterBound = true) (h : s.Invariant p m) :
    (step m p).Ensures s (fun _ s' => s'.Invariant p m ∧ s.Tightens s') (Refused p m s) := by
  have htightens : s.Tightens s := h.toCore.tightens rfl rfl
  refine ensures_step_of_clock (host.clock.mono (fun _ => id) fun f hf => ?_)
    (fun _ => ⟨h, htightens⟩) (fun _ _ => ?_) (fun _ => ?_) fun hrunning => ?_
  · exact ⟨h, htightens, fun hcrossed =>
      absurd hcrossed (LinearProgram.not_isCrossed_of_isBreakdown hf)⟩
  · exact ⟨⟨h.toCore.congr rfl rfl rfl rfl rfl rfl rfl, trivial, trivial⟩,
      ⟨htightens.lower, htightens.upper⟩⟩
  · exact ⟨⟨h.toCore.congr rfl rfl rfl rfl rfl rfl rfl, trivial, trivial⟩,
      ⟨htightens.lower, htightens.upper⟩⟩
  · have hstatus : s.status = .unsolved := by
      unfold RunState.isDone at hrunning
      simpa using hrunning
    exact (runPhase_ensures host hb hp hs hbound h hstatus).mono
      (fun _ _ hs' => ⟨hs'.invariant, ⟨hs'.tightens.lower, hs'.tightens.upper⟩⟩) fun _ _ => id

/-! ## Runs -/

/-- The states of runs on a program: a run that was built, and what any number of steps
makes of it, with refusals and cancellations on the way. -/
inductive Reachable (m : LShaped σ (Exact F)) (p : Program σ (Exact F)) :
    State (Exact F) → Prop where
  /-- A run that was built. -/
  | built {ledger ledger' : Ledger σ (Exact F)} {s : State (Exact F)} {p' : Program σ (Exact F)}
      (h : (m.build.runOn p).run ledger = ((.ok s, p'), ledger')) : Reachable m p s
  /-- A step, which may be refused. -/
  | step {s : State (Exact F)} (h : Reachable m p s) (ledger : Ledger σ (Exact F)) :
      Reachable m p (((LShaped.step m p).runOn s).run ledger).1.2
  /-- A cancellation. -/
  | cancel {s : State (Exact F)} (h : Reachable m p s) : Reachable m p { s with cancelled := true }

/-- The program of a run is solvable. -/
theorem Reachable.solvable (hp : p.Proper) (h : Reachable m p s) : p.Solvable := by
  induction h with
  | built h => exact ((build_ensures hp).of_runOn h).2.1
  | step _ _ ih => exact ih
  | cancel _ ih => exact ih

/-- A cancellation changes nothing but the wish to stop. -/
theorem State.Invariant.cancel (h : s.Invariant p m) :
    ({ s with cancelled := true } : State (Exact F)).Invariant p m := by
  refine ⟨h.toCore.congr rfl rfl rfl rfl rfl rfl rfl, ?_, ?_⟩
  · have hphase := h.phase
    unfold PhaseHolds at hphase ⊢
    cases hcase : s.phase <;> rw [hcase] at hphase <;> simp only at hphase ⊢
    · exact hphase
    · obtain ⟨r, x, hcurrent⟩ := hphase
      exact ⟨r, x, hcurrent.congr rfl rfl rfl rfl rfl rfl rfl⟩
    · obtain ⟨r, x, hcurrent, hround⟩ := hphase
      exact ⟨r, x, hcurrent.congr rfl rfl rfl rfl rfl rfl rfl, hround⟩
    · intro round hround
      obtain ⟨r, x, hcurrent, hdescribes⟩ := hphase round hround
      exact ⟨r, x, hcurrent.congr rfl rfl rfl rfl rfl rfl rfl, hdescribes⟩
    · obtain ⟨u, i, x, y, hu, hi, hnearly⟩ := hphase
      exact ⟨u, i, x, y, hu, hi, hnearly.candidate, hnearly.solves, hnearly.near, hnearly.closed⟩
  · have houtcome := h.outcome
    unfold OutcomeHolds at houtcome ⊢
    cases hcase : s.status <;> rw [hcase] at houtcome <;> simp only at houtcome ⊢
    · obtain ⟨⟨u, i, x, y, hu, hi, hnearly⟩, hincumbent, hobjective⟩ := houtcome
      exact ⟨⟨u, i, x, y, hu, hi, hnearly.candidate, hnearly.solves, hnearly.near,
        hnearly.closed⟩, hincumbent, hobjective⟩
    · intro hcuts
      rcases houtcome hcuts with hnone | ⟨hboxed, hfails⟩
      · exact Or.inl hnone
      · exact Or.inr ⟨hboxed, hfails.unbounded, hfails.nothing⟩
    · rcases houtcome with hrecourse | hended
      · exact Or.inl hrecourse
      · exact Or.inr ⟨hended.boxed, hended.last⟩

/-- Every reachable state satisfies the invariant. -/
theorem Reachable.invariant (host : Host.Sound σ F) (hb : m.backend.Faithful) (hp : p.Proper)
    (hbound : Scalar.less 0 m.rules.masterBound = true) (h : Reachable m p s) :
    s.Invariant p m := by
  induction h with
  | built h => exact ((build_ensures hp).of_runOn h).2.2
  | @step s h ledger ih =>
    have hstep := step_ensures host hb hp (h.solvable hp) hbound ih ledger
    show (((LShaped.step m p).run.run (s, ledger)).2.1).Invariant p m
    cases hresult : ((LShaped.step m p).run.run (s, ledger)).1 with
    | ok next => exact (hstep.of_ok hresult).1
    | error f => exact (hstep.of_error hresult).invariant
  | cancel _ ih => exact ih.cancel

/-- A step from a reachable state leads to one, also where it is refused. -/
theorem step_reachable (h : Reachable m p s) :
    (LShaped.step m p).Ensures s (fun _ s' => Reachable m p s')
      (fun _ s' => Reachable m p s') := by
  intro ledger
  have hreach := h.step ledger
  cases hresult : ((LShaped.step m p).run.run (s, ledger)).1 <;> exact hreach

/-- A run ends in a reachable state, with its status. -/
theorem run_reachable (h : Reachable m p s) :
    (run m p).Ensures s (fun status s' => Reachable m p s' ∧ s'.status = status)
      (fun _ s' => Reachable m p s') :=
  ensures_run (fun _ hs => step_reachable hs) h

/-- The state after some steps of a run. -/
def stateAfter (m : LShaped σ (Exact F)) (p : Program σ (Exact F)) (ledger : Ledger σ (Exact F))
    (steps : Nat) : Option (State (Exact F)) :=
  match (m.build.runOn p).run ledger with
  | ((.ok s, _), ledger) => some (((runSteps m p steps).runOn s).run ledger).1.2
  | _ => none

theorem reachable_of_stateAfter {ledger : Ledger σ (Exact F)} {steps : Nat}
    (h : stateAfter m p ledger steps = some s) : Reachable m p s := by
  unfold stateAfter at h
  split at h
  · rename_i s₀ p' ledger' hbuild
    cases h
    have hbuilt : Reachable m p s₀ := .built hbuild
    have hrun : (runSteps m p steps).Ensures s₀ (fun _ s' => Reachable m p s')
        fun _ s' => Reachable m p s' := ensures_runSteps (fun _ hs => step_reachable hs) steps hbuilt
    exact hrun.after ledger'
  · cases h

/-- A run that can be evaluated reaches a state that passes a check. -/
theorem exists_reachable (m : LShaped σ (Exact F)) (p : Program σ (Exact F))
    (ledger : Ledger σ (Exact F)) (steps : Nat) (q : State (Exact F) → Bool)
    (h : (stateAfter m p ledger steps).any q = true) : ∃ s, Reachable m p s ∧ q s = true := by
  cases hs : stateAfter m p ledger steps with
  | none => rw [hs] at h; cases h
  | some s => exact ⟨s, reachable_of_stateAfter hs, by rwa [hs] at h⟩

end LShaped

end Recourse
