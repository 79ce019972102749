/-
  Proofs/Layout/Solvers.lean --- structured solvers on two layouts.

  Once all subproblems are current, a solver reads them by global index and solves them as
  jobs on every scenario.  So it builds the same run on both layouts, takes it through the
  same steps, and installs the same results in the same slots.
-/
import Recourse.Proofs.Layout.Work
import Recourse.Proofs.Program.Committed

set_option autoImplicit false
set_option linter.unusedSectionVars false

namespace Recourse

variable {F : Type} [Field F] [LinearOrder F] [IsStrictOrderedRing F] [FloorRing F] {σ : Type}
  [Host σ (Exact F)] {strict : Prop} {t : Transport} {p q : Program σ (Exact F)}

namespace Program

/-! ## Building a run -/

theorem Relaid.checkGoals_eq (h : p.Relaid q) (hp : p.AllCurrent) (master : Model (Exact F))
    (is : List Nat) : q.checkGoals master is = p.checkGoals master is := by
  induction is with
  | nil => rfl
  | cons i is ih =>
    unfold checkGoals
    rw [ih, subproblemAt, subproblemAt, h.subproblem_eq hp]

theorem requireSolvable_agrees (h : Layouts t p q) :
    (requireSolvable : Edit σ (Exact F) (Model (Exact F))).Agrees strict requireSolvable p q
      (fun master p' master' q' => master' = master ∧ Layouts t p' q' ∧ p'.AllCurrent)
      (Layouts t) := by
  unfold requireSolvable
  refine Change.agrees_bind (Change.agrees_state ?_)
  rw [h.relaid.isDeferred]
  split
  · exact Change.agrees_bind (Change.agrees_fail h)
  rename_i hcurrent
  have hall : p.AllCurrent := isCurrent_of_not_isDeferred (by simpa using hcurrent)
  refine Change.agrees_bind ((validate_agrees h _).mono ?_ fun _ _ h => h)
  rintro _ p' _ q' ⟨h', hcurrent'⟩
  refine Change.agrees_bind (Change.agrees_state ?_)
  refine Change.agrees_bind (Change.agrees_lift_eq h'.relaid.stageOneModel h' fun master _ => ?_)
  have hgoals := h'.relaid.checkGoals_eq (hcurrent' hall) master (List.range p'.scenarioCount)
  rw [h'.relaid.scenarioCount]
  refine Change.agrees_bind (Change.agrees_lift_eq hgoals h' fun _ _ => ?_)
  exact Change.agrees_pure ⟨rfl, h', hcurrent' hall⟩

/-- The deterministic equivalent is the same. -/
theorem extensiveForm_agrees (h : Layouts t p q) :
    (extensiveForm : Edit σ (Exact F) (ExtensiveForm (Exact F))).Agrees strict extensiveForm p q
      (fun form p' form' q' => form' = form ∧ Layouts t p' q' ∧ p'.AllCurrent) (Layouts t) := by
  unfold extensiveForm
  refine Change.agrees_bind ((generate_agrees h).mono ?_ fun _ _ h => h)
  rintro _ p' _ q' ⟨h', hcurrent⟩
  refine Change.agrees_bind (Change.agrees_state ?_)
  refine Change.agrees_bind (Change.agrees_lift_eq h'.relaid.stageOneModel h' fun master _ => ?_)
  refine Change.agrees_bind
    (Change.agrees_lift_eq (h'.relaid.subproblems_eq hcurrent) h' fun subs _ => ?_)
  rw [h'.relaid.probabilities]
  exact Change.agrees_pure ⟨rfl, h', hcurrent⟩

end Program

theorem ExtensiveState.build_agrees (h : Program.Layouts t p q) :
    (ExtensiveState.build : Edit σ (Exact F) (ExtensiveState (Exact F))).Agrees strict
      ExtensiveState.build p q
      (fun s p' s' q' => s' = s ∧ Program.Layouts t p' q' ∧ p'.AllCurrent) (Program.Layouts t) := by
  unfold ExtensiveState.build
  refine Change.agrees_bind ((Program.requireSolvable_agrees h).mono ?_ fun _ _ h => h)
  rintro master p' _ q' ⟨rfl, h', -⟩
  refine Change.agrees_bind ((Program.extensiveForm_agrees h').mono ?_ fun _ _ h => h)
  rintro form p'' _ q'' ⟨rfl, h'', hcurrent⟩
  refine Change.agrees_bind (Change.agrees_state ?_)
  refine Change.agrees_bind (Change.agrees_ofAct (.refl _) h'' ?_)
  rintro started _ rfl
  have hid : q''.id = p''.id := h''.relaid.congr (·.id) fun _ => rfl
  rw [hid]
  exact Change.agrees_pure ⟨rfl, h'', hcurrent⟩

theorem LShaped.build_agrees (m : LShaped σ (Exact F)) (h : Program.Layouts t p q) :
    (m.build : Edit σ (Exact F) (LShaped.State (Exact F))).Agrees strict m.build p q
      (fun s p' s' q' => s' = s ∧ Program.Layouts t p' q' ∧ p'.AllCurrent) (Program.Layouts t) := by
  unfold LShaped.build
  refine Change.agrees_bind ((Program.requireSolvable_agrees h).mono ?_ fun _ _ h => h)
  rintro master p' _ q' ⟨rfl, h', hcurrent⟩
  refine Change.agrees_bind (Change.agrees_lift_eq rfl h' fun form _ => ?_)
  refine Change.agrees_bind (Change.agrees_state ?_)
  refine Change.agrees_bind (Change.agrees_ofAct (.refl _) h' ?_)
  rintro started _ rfl
  have hid : q'.id = p'.id := h'.relaid.congr (·.id) fun _ => rfl
  rw [hid, h'.relaid.scenarioCount]
  exact Change.agrees_pure ⟨rfl, h', hcurrent⟩

/-! ## Taking a run to its end -/

theorem Program.Relaid.unpackAll_eq (h : p.Relaid q) (hp : p.AllCurrent) (f : ExtensiveForm (Exact F))
    (r : SolveResult (Exact F)) (i : Nat) (maps : List (List Nat × List Nat)) :
    ExtensiveState.unpackAll q f r i maps = ExtensiveState.unpackAll p f r i maps := by
  induction maps generalizing i with
  | nil => rfl
  | cons m maps ih =>
    unfold ExtensiveState.unpackAll
    rw [ih, subproblemAt, subproblemAt, h.subproblem_eq hp]

/-- The deterministic equivalent is solved in the same way. -/
theorem ExtensiveState.run_eq (h : p.Relaid q) (hp : p.AllCurrent) (c : Config (Exact F))
    (b : Backend σ (Exact F)) : ExtensiveState.run c b q = ExtensiveState.run c b p := by
  unfold ExtensiveState.run
  simp only [h.unpackAll_eq hp]

/-- Every subproblem is solved at a decision, with the same answers. -/
theorem Program.solveRound_agrees (h : Layouts t p q) (hp : p.AllCurrent)
    (b : Backend σ (Exact F)) (x : List (Exact F)) :
    (p.solveRound b x).Agrees (t = .sequential) (q.solveRound b x)
      fun round round' => round' = round := by
  unfold solveRound
  refine Act.agrees_bind ((collect_agrees h (fun _ => hp) _).mono ?_)
  rintro answers _ rfl
  exact Act.agrees_pure rfl

namespace LShaped

variable (m : LShaped σ (Exact F))

theorem handleFailure_eq (h : p.Relaid q) (hp : p.AllCurrent) (x : List (Exact F))
    (f : RoundFailure (Exact F)) : handleFailure m q x f = handleFailure m p x f := by
  unfold handleFailure
  rw [h.subproblem_eq hp]

theorem handleFailures_eq (h : p.Relaid q) (hp : p.AllCurrent) (x : List (Exact F))
    (fs : List (RoundFailure (Exact F))) : handleFailures m q x fs = handleFailures m p x fs := by
  induction fs with
  | nil => rfl
  | cons f fs ih =>
    unfold handleFailures
    rw [handleFailure_eq m h hp, ih]

/-- Every phase comes to the same in both layouts. -/
theorem runPhase_coincides (h : Program.Layouts t p q) (hp : p.AllCurrent) (phase : Phase) :
    (runPhase m p phase).Coincides (t = .sequential) (runPhase m q phase) := by
  cases phase with
  | subproblemSolve =>
    unfold runPhase subproblemSolve
    refine (Change.Coincides.of_eq rfl).bind fun s => ?_
    cases s.round with
    | none => exact .of_eq rfl
    | some announced =>
      exact (Change.Coincides.ofAct (Program.solveRound_agrees h hp _ _)).bind fun _ => .of_eq rfl
  | aggregate =>
    refine .of_eq ?_
    unfold runPhase aggregate
    simp only [handleFailures_eq m h.relaid hp]
  | init => exact .of_eq rfl
  | masterSolve => exact .of_eq rfl
  | broadcast => exact .of_eq rfl
  | converged => exact .of_eq rfl
  | terminated => exact .of_eq rfl

/-- A step leads to the same state in both layouts. -/
theorem step_coincides (h : Program.Layouts t p q) (hp : p.AllCurrent) :
    (step m p).Coincides (t = .sequential) (step m q) := by
  unfold step
  refine (Change.Coincides.of_eq rfl).bind fun s => ?_
  split
  · exact .of_eq rfl
  dsimp only
  split
  · exact .of_eq rfl
  refine (Change.Coincides.of_eq rfl).bind fun late => ?_
  split
  · exact .of_eq rfl
  · exact (runPhase_coincides m h hp s.phase).bind fun _ => .of_eq rfl

/-- And so does any number of steps. -/
theorem runSteps_coincides (h : Program.Layouts t p q) (hp : p.AllCurrent) (n : Nat) :
    (runSteps m p n).Coincides (t = .sequential) (runSteps m q n) := by
  induction n with
  | zero => exact .of_eq rfl
  | succ n ih =>
    unfold runSteps
    refine (Change.Coincides.of_eq rfl).bind fun s => ?_
    split
    · exact .of_eq rfl
    · exact (step_coincides m h hp).bind fun _ => ih

theorem run_coincides (h : Program.Layouts t p q) (hp : p.AllCurrent) :
    (m.run p).Coincides (t = .sequential) (m.run q) :=
  (runSteps_coincides m h hp _).bind fun _ => .of_eq rfl

end LShaped

namespace StructuredSolver

/-- The same run is set up on both layouts. -/
theorem build_agrees (s : StructuredSolver σ (Exact F)) (h : Program.Layouts t p q) :
    (s.build : Edit σ (Exact F) (SolverRun (Exact F))).Agrees strict s.build p q
      (fun r p' r' q' => r' = r ∧ Program.Layouts t p' q' ∧ p'.AllCurrent)
      (Program.Layouts t) := by
  unfold build
  cases s.method with
  | extensive =>
    refine Change.agrees_bind ((ExtensiveState.build_agrees h).mono ?_ fun _ _ h => h)
    rintro r p' _ q' ⟨rfl, h'⟩
    exact Change.agrees_pure ⟨rfl, h'⟩
  | lshaped =>
    refine Change.agrees_bind (Change.agrees_lift_eq rfl h fun m _ => ?_)
    refine Change.agrees_bind ((m.build_agrees h).mono ?_ fun _ _ h => h)
    rintro r p' _ q' ⟨rfl, h'⟩
    exact Change.agrees_pure ⟨rfl, h'⟩

/-- A run comes to the same end on both layouts. -/
theorem run_coincides (s : StructuredSolver σ (Exact F)) (h : Program.Layouts t p q)
    (hp : p.AllCurrent) : (s.run p).Coincides (t = .sequential) (s.run q) := by
  intro r ledger
  cases r with
  | extensive e =>
    rw [run_extensive, run_extensive, ExtensiveState.run_eq h.relaid hp]
    exact ⟨(Agree.refl _).mono (fun _ _ h => ⟨h, rfl⟩) fun _ => rfl, fun _ => rfl⟩
  | lshaped l =>
    cases hm : s.lshaped with
    | error f =>
      rw [run_refused hm, run_refused hm]
      exact ⟨⟨rfl, rfl⟩, fun _ => rfl⟩
    | ok m =>
      obtain ⟨hresult, hledger⟩ := m.run_coincides h hp l ledger
      rw [run_lshaped hm, run_lshaped hm]
      exact ⟨hresult.mono (fun _ _ h => ⟨h.1, congrArg SolverRun.lshaped h.2⟩)
        (congrArg SolverRun.lshaped), hledger⟩

end StructuredSolver

/-! ## Installing what was found -/

namespace Program

/-- Results are loaded into the same slots. -/
theorem Layouts.install (h : Layouts t p q) {results : List (SolveResult (Exact F))}
    (hlength : results.length = p.scenarioCount) (c : Solution (Exact F))
    (master : Option (SolveResult (Exact F))) :
    Layouts t (p.install c results master) (q.install c results master) where
  relaid := by
    refine ⟨?_, ?_⟩
    · show (loadPartitions q.partitions results).flatMap (·.slots) =
        (loadPartitions p.partitions results).flatMap (·.slots)
      rw [slots_loadPartitions (h.relaid.scenarioCount.trans hlength.symm).le,
        slots_loadPartitions hlength.ge]
      exact congrArg (List.zipWith Slot.load · results) h.relaid.slots
    · rw [h.relaid.rest]
      rfl
  weighted := by
    refine forall_of_forall₂ (forall₂_loadPartitions p.partitions results) h.weighted ?_
    intro s s' hloaded hs
    rwa [hloaded.scenario_eq]
  transport := h.transport

/-- A solution is checked and installed in the same way. -/
theorem commit_agrees (h : Layouts t p q) (hp : p.AllCurrent) (c : Solution (Exact F))
    (results : List (SolveResult (Exact F))) (master : Option (SolveResult (Exact F))) :
    (commit c results master : Edit σ (Exact F) Unit).Agrees strict (commit c results master) p q
      (fun _ p' _ q' => Layouts t p' q') (Layouts t) := by
  unfold commit
  refine Change.agrees_bind (Change.agrees_state ?_)
  have hcount : q.decisionCount = p.decisionCount := h.relaid.congr _ fun _ => rfl
  refine Change.agrees_bind (Change.agrees_lift_eq hcount h fun n _ => ?_)
  rw [h.relaid.scenarioCount]
  dsimp only
  by_cases hdecision : c.decision.length ≠ n
  · rw [if_pos hdecision, if_pos hdecision]
    exact Change.agrees_bind (Change.agrees_fail h)
  rw [if_neg hdecision, if_neg hdecision]
  by_cases hlength : results.length ≠ p.scenarioCount
  · rw [if_pos hlength, if_pos hlength]
    exact Change.agrees_bind (Change.agrees_fail h)
  rw [if_neg hlength, if_neg hlength]
  refine Change.agrees_bind
    (Change.agrees_lift_eq (h.relaid.subproblems_eq hp) h fun models _ => ?_)
  refine Change.agrees_bind (Change.agrees_lift_eq rfl h fun _ _ => ?_)
  exact Change.agrees_update (h.install (not_not.1 hlength) c master)

theorem commitRun_agrees (h : Layouts t p q) (hp : p.AllCurrent) (solver : String)
    (r : RunState (Exact F)) :
    (commitRun solver r : Edit σ (Exact F) Unit).Agrees strict (commitRun solver r) p q
      (fun _ p' _ q' => Layouts t p' q') (Layouts t) := by
  unfold commitRun
  refine Change.agrees_bind (Change.agrees_state ?_)
  have hid : q.id = p.id := h.relaid.congr (·.id) fun _ => rfl
  rw [hid]
  dsimp only
  split
  · exact Change.agrees_bind (Change.agrees_fail h)
  split
  · exact commit_agrees h hp _ _ _
  · exact Change.agrees_fail h

/-- Both layouts are solved in the same way: with the same status, and the same solution is
installed. -/
theorem optimize_agrees (h : Layouts t p q) (solver : Option (Solver σ (Exact F))) :
    (optimize solver : Edit σ (Exact F) Status).Agrees (t = .sequential) (optimize solver) p q
      (fun status p' status' q' => status' = status ∧ Layouts t p' q') (Layouts t) := by
  unfold optimize
  refine Change.agrees_bind (Change.agrees_state ?_)
  have hsolver : q.solverFor solver = p.solverFor solver :=
    h.relaid.congr (·.solverFor solver) fun _ => rfl
  rw [hsolver]
  refine Change.agrees_bind ((generate_agrees h).mono ?_ fun _ _ h => h)
  rintro _ p₁ _ q₁ ⟨h₁, -⟩
  refine Change.agrees_bind ((validate_agrees h₁ none).mono ?_ fun _ _ h => h)
  rintro _ p₂ _ q₂ ⟨h₂, -⟩
  cases p.solverFor solver with
  | linear b => exact Change.agrees_fail h₂
  | structured s =>
    refine Change.agrees_bind ((s.build_agrees h₂).mono ?_ fun _ _ h => h)
    rintro r p₃ _ q₃ ⟨hr, h₃, hcurrent⟩
    rw [hr]
    refine Change.agrees_bind (Change.agrees_state ?_)
    refine Change.agrees_bind (Change.agrees_ofAct
      (Change.agrees_apply (s.run_coincides h₃ hcurrent r)) h₃ ?_)
    rintro ⟨status, r'⟩ ⟨status', r''⟩ ⟨hstatus, hr⟩
    obtain rfl : status' = status := hstatus
    obtain rfl : r'' = r' := hr
    dsimp only
    split
    · refine Change.agrees_bind ((commitRun_agrees h₃ hcurrent s.label r''.common).mono ?_
        fun _ _ h => h)
      exact fun _ p₄ _ q₄ h₄ => Change.agrees_pure ⟨rfl, h₄⟩
    · exact Change.agrees_pure ⟨rfl, h₃⟩

end Program

end Recourse
