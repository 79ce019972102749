/-
  Proofs/Solver/Results.lean --- how many results a run leaves.

  A run that ends with an optimum has one result per scenario: on the deterministic
  equivalent per scenario of the program that it was set up on, and by the L-shaped method
  per scenario of the program that it was run on.  The L-shaped method carries the number
  from the round that was solved to the incumbent, and from there to the solution.
-/
import Recourse.Proofs.LShaped.Advance
import Recourse.Proofs.Solver.Extensive
import Recourse.Solver.Run

set_option autoImplicit false
set_option linter.unusedSectionVars false

namespace Recourse

variable {σ K : Type} [Scalar K] [Host σ K]

/-! ## The deterministic equivalent -/

namespace ExtensiveForm

theorem length_build (master : Model K) (scenarios : List (K × Model K)) :
    (build master scenarios).columns.length = scenarios.length ∧
      (build master scenarios).rows.length = scenarios.length := by
  unfold build
  rw [← List.foldr_reverse, ← @List.length_reverse _ scenarios]
  induction scenarios.reverse with
  | nil => exact ⟨rfl, rfl⟩
  | cons s scenarios ih =>
    simp only [List.foldr_cons, addScenario, List.length_append, List.length_cons]
    exact ⟨congrArg (· + 1) ih.1, congrArg (· + 1) ih.2⟩

end ExtensiveForm

namespace ExtensiveState

theorem unpackAll_settles (p : Program σ K) (f : ExtensiveForm K) (r : SolveResult K) (i : Nat)
    (maps : List (List Nat × List Nat)) :
    Settles (unpackAll p f r i maps) (fun results => results.length = maps.length)
      fun _ => True := by
  induction maps generalizing i with
  | nil => rfl
  | cons m maps ih =>
    refine Settles.bind ((Settles.self _).mono (fun sub _ => ?_) fun _ h => h)
    refine Settles.bind ((Settles.self _).mono (fun one _ => ?_) fun _ h => h)
    refine Settles.bind ((ih (i + 1)).mono (fun rest hrest => ?_) fun _ h => h)
    exact congrArg (· + 1) hrest

/-- An optimum comes with the result of every scenario of the deterministic equivalent. -/
theorem run_counts (c : Config K) (b : Backend σ K) (p : Program σ K) {s : ExtensiveState K}
    (hstatus : s.status ≠ .optimal) (ledger : Ledger σ K) :
    let s' : ExtensiveState K := (((run c b p).runOn s).run ledger).1.2
    s'.status = .optimal → s'.secondStage.length = (s.form.columns.zip s.form.rows).length := by
  refine Change.Ensures.after (P := fun s' : ExtensiveState K => s'.status = .optimal →
    s'.secondStage.length = (s.form.columns.zip s.form.rows).length) ?_ ledger
  unfold run
  refine Change.ensures_bind (Change.ensures_state ?_)
  split
  · exact Change.ensures_bind (Change.ensures_update (Change.ensures_pure fun h => nomatch h))
  refine Change.ensures_ofAct_bind (fun r => ?_) fun _ h => absurd h hstatus
  refine Change.ensures_bind (Change.ensures_update ?_)
  dsimp only
  split
  · exact Change.ensures_bind (Change.ensures_fail fun h => absurd h hstatus)
  split
  · refine Change.ensures_bind (Change.ensures_update (Change.ensures_bind (Change.ensures_lift
      ((unpackAll_settles _ _ _ _ _).mono (fun second hsecond => ?_) fun _ _ h => absurd h hstatus))))
    refine Change.ensures_bind (Change.ensures_update (Change.ensures_bind
      (Change.ensures_update (Change.ensures_pure fun _ => hsecond))))
  · rename_i hother
    exact Change.ensures_bind (Change.ensures_update (Change.ensures_pure fun h => absurd h hother))

end ExtensiveState

/-! ## Rounds -/

theorem Partition.visit_ensures {β : Type} (q : Partition K) (epoch : Option Int) (offset : Int)
    (job : Int → Scenario K → Option (Model K) → Act σ K β) :
    (q.visit epoch offset job).Ensures (fun xs => xs.length = q.size) fun _ => True := by
  have heach : ∀ f : Slot K × Nat → Act σ K β,
      (Act.forEach f q.slots.zipIdx).Ensures (fun xs => xs.length = q.size) fun _ => True := by
    intro f
    refine (Act.ensures_forEach (R := fun _ _ => True) _ fun s _ ledger =>
      (Settles.self _).mono (fun _ _ => trivial) fun _ h => h).mono ?_ fun _ h => h
    intro xs hxs
    rw [← hxs.length_eq, List.length_zipIdx]
    rfl
  unfold visit
  split
  · exact heach _
  · dsimp only
    split
    · exact Act.ensures_bind (Act.ensures_fail trivial)
    · exact heach _

namespace Program

/-- A job on every scenario has as many answers as there are scenarios. -/
theorem collect_length {β : Type} (p : Program σ K) (withSubproblems : Bool)
    (job : Int → Scenario K → Option (Model K) → Act σ K β) :
    (p.collect withSubproblems job).Ensures (fun xs => xs.length = p.scenarioCount)
      fun _ => True := by
  unfold collect
  refine Act.ensures_bind ((Transport.map_ensures p.transport
    (R := fun (q : Partition K × Nat) (xs : List β) => xs.length = q.1.size) _ fun q _ =>
      Partition.visit_ensures q.1 _ q.2 job).mono ?_ fun _ h => h)
  intro chunks hchunks
  refine Act.ensures_pure ?_
  have hsizes : chunks.map List.length = (p.placed.map (·.1)).map Partition.size := by
    rw [List.map_map]
    refine (eq_map_of_forall₂ (g := Partition.size ∘ Prod.fst) ?_)
    exact List.forall₂_map_right_iff.2 hchunks
  rw [List.length_flatten, hsizes, map_fst_placed, scenarioCount, slots, List.length_flatMap]
  rfl

/-- A round without failures has an outcome for every scenario. -/
theorem solveRound_length (p : Program σ K) (b : Backend σ K) (x : List K) :
    (p.solveRound b x).Ensures
      (fun r => r.isComplete = true → r.outcomes.length = p.scenarioCount) fun _ => True := by
  unfold solveRound
  refine Act.ensures_bind ((collect_length p true _).mono (fun answers hanswers => ?_)
    fun _ h => h)
  refine Act.ensures_pure fun hcomplete => ?_
  have hnone : answers.filterMap Sum.getRight? = [] := List.isEmpty_iff.1 hcomplete
  rw [← hanswers]
  show (answers.filterMap Sum.getLeft?).length = answers.length
  clear hanswers hcomplete
  induction answers with
  | nil => rfl
  | cons a answers ih =>
    cases a with
    | inl o => simpa using ih (by simpa using hnone)
    | inr f => simp at hnone

end Program

theorem Round.length_results (r : Round K) : r.results.length = r.outcomes.length := by
  rw [results, List.length_map]
  exact (Sorting.sorted_perm _ _).length_eq

/-! ## The L-shaped method -/

namespace LShaped

/-- Between two phases: the round that becomes the incumbent, the incumbent and the
solution have as many results as there are scenarios. -/
structure State.Counts (n : Nat) (phase : Phase) (s : State K) : Prop where
  /-- A complete round that was solved. -/
  round : phase = .aggregate → ∀ r, s.round = some r → r.isComplete = true → r.outcomes.length = n
  /-- The incumbent. -/
  incumbent : ∀ i, s.incumbent = some i → i.round.outcomes.length = n
  /-- The solution. -/
  solution : s.status = .optimal → s.secondStage.length = n

variable {n : Nat} {s : State K} {m : LShaped σ K} {p : Program σ K}

/-- Nothing that is counted was touched. -/
structure State.Still (s s' : State K) : Prop where
  /-- The phase. -/
  phase : s'.phase = s.phase
  /-- The round. -/
  round : s'.round = s.round
  /-- The incumbent. -/
  incumbent : s'.incumbent = s.incumbent
  /-- The results. -/
  secondStage : s'.secondStage = s.secondStage
  /-- How the run ended. -/
  status : s'.status = s.status

namespace State

theorem Still.refl (s : State K) : s.Still s := ⟨rfl, rfl, rfl, rfl, rfl⟩

theorem Still.trans {s' s'' : State K} (h : s.Still s') (h' : s'.Still s'') : s.Still s'' :=
  ⟨h'.phase.trans h.phase, h'.round.trans h.round, h'.incumbent.trans h.incumbent,
    h'.secondStage.trans h.secondStage, h'.status.trans h.status⟩

/-- What was counted is counted on to a phase that does not look at the round, or where
there is none. -/
theorem Counts.still {phase : Phase} {s' : State K} (h : s.Counts n phase) (hstill : s.Still s')
    {next : Phase} (hnext : next = .aggregate → phase = .aggregate) : s'.Counts n next :=
  ⟨fun hp r hr => h.round (hnext hp) r (hstill.round ▸ hr),
    fun i hi => h.incumbent i (hstill.incumbent ▸ hi),
    fun hs => hstill.secondStage ▸ h.solution (hstill.status ▸ hs)⟩

theorem Counts.refused {s' : State K} (h : s.Counts n s.phase) (hstill : s.Still s') :
    s'.Counts n s'.phase := h.still hstill fun hp => hstill.phase ▸ hp

end State

/-- A phase counts on, and what was counted is left where it is refused. -/
def PhaseCounts (n : Nat) (s : State K) (c : Run σ K Phase) : Prop :=
  c.Ensures s (fun next s' => s'.Counts n next) fun _ s' => s'.Counts n s'.phase

/-- A run ends without an optimum. -/
theorem finish_counts {phase : Phase} (h : s.Counts n phase) {status : Status}
    (hstatus : status ≠ .optimal) : PhaseCounts n s (finish (σ := σ) status) :=
  Change.ensures_bind (Change.ensures_update (Change.ensures_pure
    ⟨fun hp => (nomatch hp), h.incumbent, fun hs => absurd hs hstatus⟩))

/-- What a master solution leads to. -/
theorem verdict_counts {s' : State K} (h : s.Counts n s.phase)
    (hstill : s.Still s') (r : SolveResult K) :
    PhaseCounts n s' (match r.status with
      | .optimal => do Change.update (takeMaster r); return .broadcast
      | .infeasible => finish .infeasible
      | .unbounded => finish .unbounded
      | status => Change.fail (.solveFailure status none .master) : Run σ K Phase) := by
  have hs' := h.refused hstill
  split
  · refine Change.ensures_bind (Change.ensures_update (Change.ensures_pure ?_))
    have htaken : s'.Still (takeMaster r s') := ⟨rfl, rfl, rfl, rfl, rfl⟩
    exact h.still (hstill.trans htaken) fun hp => nomatch hp
  · exact finish_counts hs' fun hs => nomatch hs
  · exact finish_counts hs' fun hs => nomatch hs
  · exact Change.ensures_fail hs'

theorem masterSolve_counts (h : s.Counts n s.phase) :
    PhaseCounts n s (masterSolve m) := by
  unfold masterSolve
  refine Change.ensures_bind (Change.ensures_state ?_)
  split
  · exact finish_counts h fun hs => nomatch hs
  refine Change.ensures_bind (Change.ensures_update (Change.ensures_ofAct_bind (fun free => ?_)
    fun _ => h.refused ⟨rfl, rfl, rfl, rfl, rfl⟩))
  refine Change.ensures_bind (Change.ensures_update ?_)
  dsimp only
  split
  · refine Change.ensures_ofAct_bind (fun r => ?_) fun _ => h.refused ⟨rfl, rfl, rfl, rfl, rfl⟩
    refine verdict_counts (σ := σ) h ?_ r
    exact ⟨rfl, rfl, rfl, rfl, rfl⟩
  · refine Change.ensures_bind (Change.ensures_pure (verdict_counts (σ := σ) h ?_ free))
    exact ⟨rfl, rfl, rfl, rfl, rfl⟩

theorem subproblemSolve_counts (h : s.Counts p.scenarioCount s.phase) :
    PhaseCounts p.scenarioCount s (subproblemSolve m p) := by
  unfold subproblemSolve
  refine Change.ensures_bind (Change.ensures_state ?_)
  split
  · exact Change.ensures_fail h
  · refine Change.ensures_bind (Change.ensures_ofAct ((p.solveRound_length m.backend _).mono
      (fun r hr => ?_) fun _ _ => h))
    refine Change.ensures_bind (Change.ensures_update (Change.ensures_pure
      ⟨fun _ r' hr' => ?_, h.incumbent, h.solution⟩))
    cases hr'
    exact hr

/-! ## Aggregating -/

/-- Failures become cuts, and cuts are not counted. -/
theorem handleFailure_still (x : List K) (f : RoundFailure K) :
    (handleFailure m p x f).Ensures s
      (fun next s' => s.Still s' ∧ ∀ status, next = some status → status ≠ .optimal)
      fun _ s' => s.Still s' := by
  unfold handleFailure
  refine Change.ensures_bind (Change.ensures_state ?_)
  split
  · split
    · refine Change.ensures_pure ⟨.refl s, ?_⟩
      rintro status ⟨⟩ hs
      cases hs
    refine Change.ensures_lift_bind (fun sub _ => ?_) fun _ => .refl s
    refine Change.ensures_ofAct_bind (fun found => ?_) fun _ => .refl s
    dsimp only
    split
    · exact Change.ensures_bind (Change.ensures_fail (.refl s))
    · exact Change.ensures_bind (Change.ensures_update (Change.ensures_pure
        ⟨⟨rfl, rfl, rfl, rfl, rfl⟩, fun _ hs => nomatch hs⟩))
  · refine Change.ensures_pure ⟨.refl s, ?_⟩
    rintro status ⟨⟩ hs
    cases hs
  · exact Change.ensures_fail (.refl s)

theorem handleFailures_counts (h : s.Counts n s.phase) (x : List K)
    (failures : List (RoundFailure K)) :
    PhaseCounts n s (handleFailures m p x failures) := by
  induction failures generalizing s with
  | nil => exact Change.ensures_pure (h.still (.refl s) fun hp => nomatch hp)
  | cons f failures ih =>
    unfold handleFailures
    refine Change.ensures_bind ((handleFailure_still x f).mono ?_ fun _ _ hs => h.refused hs)
    rintro next s' ⟨hstill, hnext⟩
    have hs' := h.refused hstill
    cases next with
    | none => exact ih hs'
    | some status => exact finish_counts hs' (hnext status rfl)

theorem addOptimalityCuts_still (x recourse : List K) (groups : List (Nat × List (Outcome K))) :
    (addOptimalityCuts m x recourse groups).Ensures s (fun _ s' => s.Still s')
      fun _ s' => s.Still s' := by
  have hone : ∀ (s : State K) g, (addOptimalityCut m x recourse g).Ensures s
      (fun _ s' => s.Still s') fun _ s' => s.Still s' := by
    intro s g
    unfold addOptimalityCut
    refine Change.ensures_bind (Change.ensures_state (Change.ensures_lift_bind (fun value _ => ?_)
      fun _ => .refl s))
    split
    · exact Change.ensures_pure (.refl s)
    · exact Change.ensures_bind (Change.ensures_update (Change.ensures_pure
        ⟨rfl, rfl, rfl, rfl, rfl⟩))
  induction groups generalizing s with
  | nil => exact Change.ensures_pure (.refl s)
  | cons g groups ih =>
    unfold addOptimalityCuts
    refine Change.ensures_bind ((hone s g).mono ?_ fun _ _ hs => hs)
    intro added s' hs'
    refine Change.ensures_bind (ih.mono ?_ fun _ _ hs => hs'.trans hs)
    exact fun others s'' hs'' => Change.ensures_pure (hs'.trans hs'')

theorem aggregate_counts (hphase : s.phase = .aggregate) (h : s.Counts n s.phase) :
    PhaseCounts n s (aggregate m p) := by
  unfold aggregate
  refine Change.ensures_bind (Change.ensures_state (Change.ensures_bind (Change.ensures_update ?_)))
  have hidle : ({ s with round := none } : State K).Counts n s.phase :=
    ⟨fun _ r hr => (nomatch hr), h.incumbent, h.solution⟩
  split
  · rename_i r master hr hmaster
    split
    · exact handleFailures_counts hidle _ _
    rename_i hcomplete
    have himproved : (improve r master { s with round := none }).Counts n s.phase := by
      unfold improve
      dsimp only
      split
      · refine ⟨fun _ r hr => (nomatch hr), ?_, h.solution⟩
        rintro i ⟨⟩
        exact h.round hphase r hr (by simpa using hcomplete)
      · exact hidle
    have hphase' : (improve r master { s with round := none }).phase = s.phase := by
      unfold improve
      dsimp only
      split <;> rfl
    refine Change.ensures_bind (Change.ensures_update (Change.ensures_bind
      ((addOptimalityCuts_still _ _ _).mono ?_ fun _ s' hs => ?_)))
    · intro added s' hs
      have hs' : ∀ next, next ≠ .aggregate → s'.Counts n next := fun next hnext =>
        himproved.still hs fun hp => absurd hp hnext
      refine Change.ensures_bind (Change.ensures_state ?_)
      split
      · split
        · exact finish_counts (hs' .terminated (by simp)) fun hs => nomatch hs
        · exact Change.ensures_pure (hs' _ (by simp))
      · exact Change.ensures_pure (hs' _ (by simp))
    · exact himproved.still hs fun hp => hphase' ▸ hs.phase ▸ hp
  · exact Change.ensures_fail hidle

theorem converge_counts (h : s.Counts n s.phase) : PhaseCounts n s (converge (σ := σ)) := by
  unfold converge
  refine Change.ensures_bind (Change.ensures_state ?_)
  split
  · rename_i i latest hi hlatest
    refine Change.ensures_ofAct_bind (fun now => ?_) fun _ => h
    refine Change.ensures_bind (Change.ensures_update (Change.ensures_bind
      (Change.ensures_update (Change.ensures_pure ⟨fun hp => (nomatch hp), h.incumbent, fun _ => ?_⟩))))
    exact i.round.length_results.trans (h.incumbent i hi)
  · exact Change.ensures_fail h

/-! ## Runs -/

theorem runPhase_counts (h : s.Counts p.scenarioCount s.phase) :
    PhaseCounts p.scenarioCount s (runPhase m p s.phase) := by
  cases hphase : s.phase with
  | init =>
    exact Change.ensures_bind (Change.ensures_update (Change.ensures_pure
      ⟨fun hp => (nomatch hp), h.incumbent, h.solution⟩))
  | masterSolve => exact masterSolve_counts h
  | broadcast =>
    exact Change.ensures_bind (Change.ensures_update (Change.ensures_pure
      ⟨fun hp => (nomatch hp), h.incumbent, h.solution⟩))
  | subproblemSolve => exact subproblemSolve_counts h
  | aggregate => exact aggregate_counts hphase h
  | converged => exact converge_counts h
  | terminated => exact Change.ensures_fail h

theorem step_counts (h : s.Counts p.scenarioCount s.phase) :
    (step m p).Ensures s (fun _ s' => s'.Counts p.scenarioCount s'.phase)
      fun _ s' => s'.Counts p.scenarioCount s'.phase := by
  refine ensures_step (fun _ => h) (fun _ => h) (fun _ _ => ?_) (fun _ => ?_) fun _ => ?_
  · exact ⟨fun hp => (nomatch hp), h.incumbent, fun hs => nomatch hs⟩
  · exact ⟨fun hp => (nomatch hp), h.incumbent, fun hs => nomatch hs⟩
  · exact (runPhase_counts h).mono (fun _ _ hs => ⟨hs.round, hs.incumbent, hs.solution⟩)
      fun _ _ => id

/-- An optimum comes with the result of every scenario of the program it was found for. -/
theorem run_counts (h : s.Counts p.scenarioCount s.phase) (ledger : Ledger σ K) :
    let s' : State K := (((run m p).runOn s).run ledger).1.2
    s'.status = .optimal → s'.secondStage.length = p.scenarioCount :=
  Change.Ensures.after ((ensures_run (fun _ hs => step_counts hs) h).mono
    (fun _ _ hs => hs.1.solution) fun _ _ hs => hs.solution) ledger

end LShaped

end Recourse
