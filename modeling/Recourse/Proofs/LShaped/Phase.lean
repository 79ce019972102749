/-
  Proofs/LShaped/Phase.lean --- what the phases up to the round leave behind.

  One lemma for each phase says what it leaves behind where it ends and where it is
  refused midway: the invariant again (`Advanced`, `Refused`), and bounds that are at
  least as tight.
-/
import Recourse.Proofs.LShaped.Box

set_option autoImplicit false
set_option linter.unusedSectionVars false

open scoped BigOperators

namespace Recourse

variable {F : Type} [Field F] [LinearOrder F] [IsStrictOrderedRing F] [FloorRing F] {σ : Type}

namespace LShaped

namespace State

variable {s s' : State (Exact F)} {p : Program σ (Exact F)} {m : LShaped σ (Exact F)}

/-! ## Changes that matter to nothing -/

theorem Core.congr (h : s.Core p m) (hfirst : s'.first = s.first) (hsign : s'.sign = s.sign)
    (hactive : s'.active = s.active) (hcuts : s'.cuts = s.cuts)
    (hlower : s'.lowerBound = s.lowerBound) (hupper : s'.upperBound = s.upperBound)
    (hincumbent : s'.incumbent = s.incumbent) : s'.Core p m := by
  obtain ⟨⟨h1, h2, h3, h4, h5⟩, h6, h7⟩ := h
  refine ⟨⟨hfirst ▸ h1, hsign ▸ h2, hactive ▸ h3, by rwa [hcuts, hactive],
    by rwa [hactive, hcuts]⟩, ?_, ?_⟩
  · unfold LowerHolds allActive freeMaster master masterCost firstColumns recourseLower
      recourseUpper cutRow at h6 ⊢
    rwa [hfirst, hactive, hcuts, hlower]
  · unfold UpperHolds at h7 ⊢
    rwa [hupper, hincumbent]

theorem Current.congr {r : SolveResult (Exact F)} {x : List (Exact F)} (h : s.Current m r x)
    (hfirst : s'.first = s.first) (hactive : s'.active = s.active) (hcuts : s'.cuts = s.cuts)
    (hlower : s'.lowerBound = s.lowerBound) (hboxed : s'.boxed = s.boxed)
    (hsolution : s'.masterSolution = s.masterSolution) (hcandidate : s'.candidate = s.candidate) :
    s'.Current m r x := by
  obtain ⟨h1, h2, h3, h4, h5, h6⟩ := h
  refine ⟨hsolution ▸ h1, hcandidate ▸ h2, ?_, ?_, ?_, ?_⟩
  · rwa [firstColumns, hfirst]
  · unfold solvedMaster boxedMaster freeMaster master masterCost firstColumns recourseLower
      recourseUpper cutRow at h4 ⊢
    rwa [hfirst, hactive, hcuts, hboxed]
  · unfold freeMaster master masterCost firstColumns recourseLower recourseUpper cutRow at h5 ⊢
    rwa [hfirst, hactive, hcuts, hboxed]
  · unfold allActive at h6 ⊢
    rwa [hactive, hboxed, hfirst, hlower]

/-! ## Bounds that only get tighter -/

/-- The bounds of a later state are at least as tight. -/
structure Tightens (s s' : State (Exact F)) : Prop where
  /-- The lower bound did not fall. -/
  lower : Scalar.atMost s.lowerBound s'.lowerBound = true
  /-- The upper bound did not rise. -/
  upper : Scalar.atMost s'.upperBound s.upperBound = true

theorem atMost_refl {a : Exact F} (h : a ≠ .undefined) : Scalar.atMost a a = true := by
  cases a with
  | undefined => exact absurd rfl h
  | finite a => simp
  | plusInfinity => rfl
  | minusInfinity => rfl

theorem Core.lowerBound_ne (h : s.Core p m) : s.lowerBound ≠ .undefined := by
  rcases h.lower with hl | ⟨l, hl, -⟩ <;> rw [hl] <;> exact fun h => nomatch h

theorem Core.upperBound_ne (h : s.Core p m) : s.upperBound ≠ .undefined := by
  rcases h.upper with ⟨hu, -⟩ | ⟨u, i, hu, -⟩ <;> rw [hu] <;> exact fun h => nomatch h

theorem Core.tightens (h : s.Core p m) (hlower : s'.lowerBound = s.lowerBound)
    (hupper : s'.upperBound = s.upperBound) : s.Tightens s' :=
  ⟨by rw [hlower]; exact atMost_refl h.lowerBound_ne,
    by rw [hupper]; exact atMost_refl h.upperBound_ne⟩

/-! ## What a phase leaves behind -/

/-- A phase ended in state `s'` and named the next one. -/
structure Advanced (p : Program σ (Exact F)) (m : LShaped σ (Exact F)) (s : State (Exact F))
    (next : Phase) (s' : State (Exact F)) : Prop where
  /-- The invariant holds in the next phase. -/
  invariant : ({ s' with phase := next } : State (Exact F)).Invariant p m
  /-- The bounds are at least as tight. -/
  tightens : s.Tightens s'

/-- A phase was refused in state `s'`. -/
structure Refused (p : Program σ (Exact F)) (m : LShaped σ (Exact F)) (s : State (Exact F))
    (f : Fault (Exact F)) (s' : State (Exact F)) : Prop where
  /-- The invariant holds. -/
  invariant : s'.Invariant p m
  /-- The bounds are at least as tight. -/
  tightens : s.Tightens s'
  /-- Crossed bounds are those of a box that was needed. -/
  crossed : f.IsCrossed → s'.boxed = true ∧ s'.BoxFails m.rules.masterBound

/-- A running state in which nothing is relied on satisfies the invariant. -/
theorem Core.invariant (h : s.Core p m) (hphase : s.PhaseHolds p m)
    (hstatus : s.status = .unsolved) : s.Invariant p m :=
  ⟨h, hphase, by rw [OutcomeHolds, hstatus]; trivial⟩

/-- Going on to the next master problem. -/
theorem Core.advanced_masterSolve (h : s'.Core p m) (hstatus : s'.status = .unsolved)
    (ht : s.Tightens s') : Advanced p m s .masterSolve s' :=
  ⟨Core.invariant (h.congr rfl rfl rfl rfl rfl rfl rfl) trivial hstatus, ht⟩

/-- Ending the run. -/
theorem Core.finish_ensures (h : s'.Core p m) (ht : s.Tightens s') (status : Status)
    (houtcome : ({ s' with status, phase := .terminated } : State (Exact F)).OutcomeHolds p m)
    {E : Fault (Exact F) → State (Exact F) → Prop} :
    (finish status : Run σ (Exact F) Phase).Ensures s' (Advanced p m s) E := by
  refine Change.ensures_bind (Change.ensures_update (Change.ensures_pure ?_))
  exact ⟨⟨h.congr rfl rfl rfl rfl rfl rfl rfl, trivial, houtcome⟩, ⟨ht.lower, ht.upper⟩⟩

/-! ## The first phase and the master problem -/

theorem phaseHolds_masterSolve (h : s.phase = .masterSolve) : s.PhaseHolds p m := by
  unfold PhaseHolds
  rw [h]
  trivial

/-- A refusal that left everything that matters as it was. -/
theorem Core.refused (h : s'.Core p m) (hphase : s'.PhaseHolds p m)
    (hstatus : s'.status = .unsolved) (ht : s.Tightens s') {f : Fault (Exact F)}
    (hf : f.IsCrossed → s'.boxed = true ∧ s'.BoxFails m.rules.masterBound) :
    Refused p m s f s' := ⟨h.invariant hphase hstatus, ht, hf⟩

theorem init_ensures (h : s.Invariant p m) (hphase : s.phase = .init)
    (hstatus : s.status = .unsolved) [Host σ (Exact F)] :
    (runPhase m p .init).Ensures s (Advanced p m s) (Refused p m s) := by
  have hbounds := h.phase
  unfold PhaseHolds at hbounds
  rw [hphase] at hbounds
  refine Change.ensures_bind (Change.ensures_update (Change.ensures_pure ?_))
  have hcore : ({ s with lowerBound := Scalar.negInfinity, upperBound := Scalar.infinity } :
      State (Exact F)).Core p m :=
    h.toCore.congr rfl rfl rfl rfl hbounds.1.symm hbounds.2.symm rfl
  exact hcore.advanced_masterSolve hstatus (h.toCore.tightens hbounds.1.symm hbounds.2.symm)

section MasterSolve

variable {r : SolveResult (Exact F)}

/-- Taking over a master solution keeps the bounds right and tightens the lower one. -/
theorem Core.lower_takeMaster (h : s.Core p m) (hp : p.Proper)
    (hr : r.Certifies (s.solvedMaster m.rules.masterBound)) :
    (takeMaster r s).LowerHolds ∧ Scalar.atMost s.lowerBound (takeMaster r s).lowerBound = true ∧
      (s.allActive = true → s.boxed = false →
        Scalar.atMost (r.objective + s.first.constant) (takeMaster r s).lowerBound = true) := by
  have hobjective : r.objective = .finite (costAt s.masterCost (coord r.point)) := by
    rw [hr.objective, cost_solvedMaster]
  obtain ⟨k, hk⟩ : ∃ k, s.first.constant = .finite k :=
    (Exact.isFinite_iff _).1 (h.loss_first hp fun _ => 0).1
  -- Only a master problem with all recourse variables active, solved without the box, bounds the
  -- program from below.
  by_cases htake : s.allActive = true ∧ s.boxed = false
  · have hbound : (takeMaster r s).lowerBound =
        Scalar.larger s.lowerBound (.finite (costAt s.masterCost (coord r.point) + k)) := by
      simp only [takeMaster, htake.1, htake.2, hobjective, hk, Bool.not_false, Bool.and_true,
        if_true, Exact.finite_add]
    have hmaster : s.solvedMaster m.rules.masterBound = s.freeMaster := by
      rw [solvedMaster, htake.2]
      rfl
    rw [hmaster] at hr
    have hbelow : ∀ v, s.freeMaster.Feasible v →
        costAt s.masterCost (coord r.point) + k ≤ costAt s.masterCost v + s.first.constant.value := by
      intro v hv
      rw [hk, Exact.value_finite]
      exact add_le_add_left (hr.optimal hv) k
    rw [hbound, hobjective, hk, Exact.finite_add]
    rcases h.lower with hnone | ⟨l, hl, -, hold⟩
    · have hlarger : Scalar.larger s.lowerBound
          (.finite (costAt s.masterCost (coord r.point) + k)) =
            .finite (costAt s.masterCost (coord r.point) + k) := by
        rw [hnone]
        rfl
      rw [hlarger, hnone]
      exact ⟨Or.inr ⟨_, hbound.trans hlarger, htake.1, hbelow⟩, rfl, fun _ _ => by simp⟩
    · have hlarger : Scalar.larger s.lowerBound
          (.finite (costAt s.masterCost (coord r.point) + k)) =
            .finite (max l (costAt s.masterCost (coord r.point) + k)) := by
        rw [hl, Exact.larger_finite]
      rw [hlarger, hl]
      exact ⟨Or.inr ⟨_, hbound.trans hlarger, htake.1, fun v hv => max_le (hold v hv) (hbelow v hv)⟩,
        by simp, fun _ _ => by simp⟩
  · have hbound : (takeMaster r s).lowerBound = s.lowerBound := by
      have hif : (s.allActive && !s.boxed) = false := by
        rw [Bool.and_eq_false_iff, Bool.not_eq_false']
        by_contra hnot
        push Not at hnot
        exact htake ⟨by simpa using hnot.1, by simpa using hnot.2⟩
      simp only [takeMaster, hif, Bool.false_eq_true, if_false]
    rw [hbound]
    refine ⟨?_, atMost_refl h.lowerBound_ne, fun ha hb => absurd ⟨ha, hb⟩ htake⟩
    have hlower := h.lower
    unfold LowerHolds at hlower ⊢
    rwa [hbound]

theorem Core.takeMaster_advanced (h : s.Core p m) (hp : p.Proper) (hstatus : s.status = .unsolved)
    (hr : r.Certifies (s.solvedMaster m.rules.masterBound))
    (hunbounded : s.boxed = true → s.freeMaster.Unbounded) :
    Advanced p m s .broadcast (takeMaster r s) := by
  obtain ⟨hlower, hle, hbounded⟩ := h.lower_takeMaster hp hr
  have hcore : (takeMaster r s).Core p m :=
    ⟨⟨h.first, h.sign, h.groups, h.cuts, h.covered⟩, hlower, h.upper⟩
  have hcurrent : (takeMaster r s).Current m r (r.point.take s.firstColumns) :=
    ⟨rfl, rfl, rfl, hr, hunbounded, hbounded⟩
  refine ⟨Core.invariant (hcore.congr rfl rfl rfl rfl rfl rfl rfl) ?_ hstatus,
    ⟨hle, atMost_refl h.upperBound_ne⟩⟩
  exact ⟨r, _, hcurrent.congr rfl rfl rfl rfl rfl rfl rfl⟩

/-- What the verdict on the master problem means for the program. -/
theorem Core.excluded (h : s.Core p m) (hp : p.Proper)
    (hunbounded : s.boxed = true → s.freeMaster.Unbounded)
    (hnone : ∀ v, ¬ (s.solvedMaster m.rules.masterBound).Feasible v) : s.Excluded p m := by
  unfold solvedMaster at hnone
  by_cases hboxed : s.boxed = true
  · rw [if_pos hboxed] at hnone
    exact Or.inr ⟨hboxed, hunbounded hboxed, Or.inr hnone⟩
  · rw [if_neg hboxed] at hnone
    exact Or.inl fun x y hxy => hnone _ (h.masterPoint_feasible hp hxy)

/-- Once the master problem was solved, its answer is taken over or ends the run. -/
theorem Core.answer_ensures (h : s.Core p m) (hp : p.Proper)
    (hstatus : s.status = .unsolved) (hr : r.Answers (s.solvedMaster m.rules.masterBound))
    (hordered : (s.solvedMaster m.rules.masterBound).Ordered)
    (hunbounded : s.boxed = true → s.freeMaster.Unbounded)
    (hfree : s.boxed = false → r.status ≠ .unbounded) :
    (match r.status with
      | .optimal => do
          Change.update (takeMaster r)
          pure .broadcast
      | .infeasible => finish .infeasible
      | .unbounded => finish .unbounded
      | status => Change.fail (.solveFailure status none .master) :
        Run σ (Exact F) Phase).Ensures s (Advanced p m s) (Refused p m s) := by
  have htightens : s.Tightens s := h.tightens rfl rfl
  unfold SolveResult.Answers at hr
  cases hanswer : r.status with
  | optimal =>
    rw [hanswer] at hr
    exact Change.ensures_bind (Change.ensures_update (Change.ensures_pure
      (h.takeMaster_advanced hp hstatus hr hunbounded)))
  | infeasible =>
    rw [hanswer] at hr
    apply h.finish_ensures htightens .infeasible
    intro _
    have hcore : ({ s with status := .infeasible, phase := .terminated } :
        State (Exact F)).Core p m := h.congr rfl rfl rfl rfl rfl rfl rfl
    exact hcore.excluded hp hunbounded hr
  | unbounded =>
    rw [hanswer] at hr
    refine h.finish_ensures htightens .unbounded (Or.inr ?_)
    have hboxed : s.boxed = true := by
      by_contra hnot
      exact hfree (by simpa using hnot) hanswer
    rw [solvedMaster, if_pos hboxed] at hr hordered
    exact ⟨hboxed, s, ⟨h.toFramed, hunbounded hboxed, Or.inl ⟨hr, hordered⟩⟩, rfl, fun _ _ => rfl⟩
  | _ =>
    rw [hanswer] at hr
    exact hr.elim

theorem masterSolve_ensures [Host σ (Exact F)] (host : Host.Sound σ F) (h : s.Invariant p m)
    (hp : p.Proper) (hphase : s.phase = .masterSolve) (hstatus : s.status = .unsolved) :
    (masterSolve m : Run σ (Exact F) Phase).Ensures s (Advanced p m s) (Refused p m s) := by
  have hcore := h.toCore
  have hsame : ∀ (n : Int) (b : Bool), ({ s with iterations := n, boxed := b } :
      State (Exact F)).Core p m := fun n b => hcore.congr rfl rfl rfl rfl rfl rfl rfl
  have htightens : s.Tightens s := hcore.tightens rfl rfl
  unfold masterSolve
  refine Change.ensures_bind (Change.ensures_state ?_)
  split
  · exact hcore.finish_ensures htightens .iterationLimit trivial
  refine Change.ensures_bind (Change.ensures_update ?_)
  have hregular : ∀ lower upper, (s.master lower upper).Regular := fun lower upper =>
    hcore.toFramed.master_regular lower upper hp
  refine Change.ensures_bind (Change.ensures_ofAct (((LinearProgram.solve_ensures host
    (hregular _ _) m.backend.params).and (LinearProgram.solve_ordered _ _)).mono ?_ ?_))
  · intro free hfree
    obtain ⟨hfree, -, hordered⟩ := hfree
    refine Change.ensures_bind (Change.ensures_update ?_)
    -- Where the master problem is unbounded without the box, it is solved once more inside it.
    by_cases hunbounded : free.status = .unbounded
    · have hboxed : (free.status == .unbounded) = true := by rw [hunbounded]; rfl
      have hfree : s.freeMaster.Unbounded := by
        unfold SolveResult.Answers at hfree
        rwa [hunbounded] at hfree
      rw [hboxed, if_pos rfl]
      refine Change.ensures_bind (Change.ensures_ofAct (((LinearProgram.solve_ensures host
        (hregular _ _) m.backend.params).and (LinearProgram.solve_ordered _ _)).mono ?_ ?_))
      · intro r hr
        refine ((hsame (s.iterations + 1) true).answer_ensures hp hstatus hr.1 hr.2.2
          (fun _ => hfree) (fun hb => nomatch hb)).mono ?_ ?_
        · intro next s' hs'
          exact ⟨hs'.invariant, ⟨hs'.tightens.lower, hs'.tightens.upper⟩⟩
        · intro f s' hs'
          exact ⟨hs'.invariant, ⟨hs'.tightens.lower, hs'.tightens.upper⟩, hs'.crossed⟩
      · intro f hf
        refine (hsame (s.iterations + 1) true).refused (phaseHolds_masterSolve hphase) hstatus
          ⟨htightens.lower, htightens.upper⟩ fun hcrossed => ⟨rfl, ?_⟩
        exact ⟨hfree, Or.inl (hf.1 hcrossed)⟩
    · have hboxed : (free.status == .unbounded) = false := by
        rw [beq_eq_false_iff_ne]
        exact hunbounded
      rw [hboxed, if_neg (by simp)]
      refine Change.ensures_bind (Change.ensures_pure ?_)
      refine ((hsame (s.iterations + 1) false).answer_ensures hp hstatus hfree hordered
        (fun hb => nomatch hb) (fun _ => hunbounded)).mono ?_ ?_
      · intro next s' hs'
        exact ⟨hs'.invariant, ⟨hs'.tightens.lower, hs'.tightens.upper⟩⟩
      · intro f s' hs'
        exact ⟨hs'.invariant, ⟨hs'.tightens.lower, hs'.tightens.upper⟩, hs'.crossed⟩
  · intro f hf
    refine (hsame (s.iterations + 1) s.boxed).refused (phaseHolds_masterSolve hphase) hstatus
      ⟨htightens.lower, htightens.upper⟩ ?_
    -- Without the box no bounds cross, so that a refusal for crossed bounds comes from the box.
    intro hcrossed
    exact absurd (hcore.toFramed.crossed_freeMaster hp) (hf.1 hcrossed)

/-- Where the box fails, a master problem that is answered ends the run. -/
theorem masterSolve_of_boxFails [Host σ (Exact F)] (host : Host.Sound σ F)
    (h : s.Framed p m.rules.multicut) (hp : p.Proper) (hfails : s.BoxFails m.rules.masterBound)
    (hiterations : Scalar.atMost m.rules.maxIterations (Scalar.ofInt s.iterations) = false) :
    (masterSolve m : Run σ (Exact F) Phase).Ensures s (fun _ s' => s'.status = .infeasible)
      (fun _ _ => True) := by
  have hregular : ∀ lower upper, (s.master lower upper).Regular := fun lower upper =>
    h.master_regular lower upper hp
  unfold masterSolve
  refine Change.ensures_bind (Change.ensures_state ?_)
  rw [if_neg (by simp [hiterations])]
  refine Change.ensures_bind (Change.ensures_update ?_)
  refine Change.ensures_bind (Change.ensures_ofAct ((LinearProgram.solve_ensures host
    (hregular _ _) m.backend.params).mono ?_ fun _ _ => trivial))
  intro free hfree
  have hunbounded : free.status = .unbounded := hfree.status_unbounded hfails.unbounded
  have hboxed : (free.status == .unbounded) = true := by rw [hunbounded]; rfl
  refine Change.ensures_bind (Change.ensures_update ?_)
  rw [hboxed, if_pos rfl]
  refine Change.ensures_bind (Change.ensures_ofAct (((LinearProgram.solve_ensures host
    (hregular _ _) m.backend.params).and (LinearProgram.solve_ordered _ _)).mono
    ?_ fun _ _ => trivial))
  intro r hr
  obtain ⟨hr, hlength, hordered⟩ := hr
  have hnone := hfails.nothing.resolve_left (not_not.2 (hordered.crossed_eq_nil hlength))
  simp only [hr.status_infeasible hnone]
  exact Change.ensures_bind (Change.ensures_update (Change.ensures_pure rfl))

end MasterSolve

/-! ## The round -/

theorem broadcast_ensures (h : s.Invariant p m) (hphase : s.phase = .broadcast)
    (hstatus : s.status = .unsolved) :
    (broadcast : Run σ (Exact F) Phase).Ensures s (Advanced p m s) (Refused p m s) := by
  have hcurrent := h.phase
  unfold PhaseHolds at hcurrent
  rw [hphase] at hcurrent
  obtain ⟨r, x, hcurrent⟩ := hcurrent
  refine Change.ensures_bind (Change.ensures_update (Change.ensures_pure ?_))
  have hround : s.candidate.getD [] = x := by rw [hcurrent.candidate]; rfl
  rw [hround]
  refine ⟨Core.invariant (h.toCore.congr rfl rfl rfl rfl rfl rfl rfl) ?_ hstatus,
    ⟨(h.toCore.tightens rfl rfl).lower, (h.toCore.tightens rfl rfl).upper⟩⟩
  exact ⟨r, x, hcurrent.congr rfl rfl rfl rfl rfl rfl rfl, rfl⟩

theorem subproblemSolve_ensures [Host σ (Exact F)] (host : Host.Sound σ F)
    (hb : m.backend.Faithful) (hp : p.Proper) (hs : p.Solvable)
    (hbound : Scalar.less 0 m.rules.masterBound = true) (h : s.Invariant p m)
    (hphase : s.phase = .subproblemSolve) (hstatus : s.status = .unsolved) :
    (subproblemSolve m p).Ensures s (Advanced p m s) (Refused p m s) := by
  have hcurrent := h.phase
  unfold PhaseHolds at hcurrent
  rw [hphase] at hcurrent
  obtain ⟨r, x, hcurrent, hround⟩ := hcurrent
  obtain ⟨hx, hlength, -⟩ := hcurrent.decision h.toFramed hp hbound
  have htightens : s.Tightens s := h.toCore.tightens rfl rfl
  unfold subproblemSolve
  refine Change.ensures_bind (Change.ensures_state ?_)
  rw [hround]
  refine Change.ensures_bind (Change.ensures_ofAct ((Program.solveRound_ensures host hb hp
    hs.current hx hlength).mono ?_ ?_))
  · intro round hdescribes
    refine Change.ensures_bind (Change.ensures_update (Change.ensures_pure ?_))
    refine ⟨Core.invariant (h.toCore.congr rfl rfl rfl rfl rfl rfl rfl) ?_ hstatus,
      ⟨htightens.lower, htightens.upper⟩⟩
    intro found hfound
    cases hfound
    exact ⟨r, x, hcurrent.congr rfl rfl rfl rfl rfl rfl rfl, hdescribes⟩
  · intro f hf
    exact ⟨h, htightens, fun hcrossed => absurd hcrossed hf⟩

end State

end LShaped

end Recourse
