/-
  Proofs/Solver/Untouched.lean --- what solving leaves of the environment.

  A run of a solver asks an engine and a clock, and hands results to its backend.  What a
  view shows of the environment, and none of these touches, stands after the run as it stood
  before, however the run ends (`StructuredSolver.run_keeps`).
-/
import Recourse.Proofs.Ledger
import Recourse.Solver.Run

set_option autoImplicit false
set_option linter.unusedSectionVars false

namespace Recourse

variable {σ K τ α β : Type} {view : Ledger σ K → τ}

/-! ## What is called -/

/-- Neither the engine nor the clock touches what the view shows, which is nothing of what
the library records itself. -/
structure Host.Spares [Host σ K] (view : Ledger σ K → τ) : Prop where
  /-- The engine. -/
  optimize : ∀ h effort, (Host.optimize h effort : Act σ K (Verdict K)).Keeps view
  /-- The clock. -/
  clock : (Host.clock : Act σ K K).Keeps view
  /-- The records. -/
  records : ∀ (ledger : Ledger σ K) (notices : List (Notice K)) (issued : Nat),
    view { ledger with notices, issued } = view ledger

/-- Reporting a result does not touch what the view shows. -/
def Backend.Spares (view : Ledger σ K → τ) (b : Backend σ K) : Prop :=
  ∀ r, (b.report r).Keeps view

/-- Nor does the backend of a solver. -/
def Solver.Spares (view : Ledger σ K → τ) : Solver σ K → Prop
  | .linear b => b.Spares view
  | .structured s => s.backend.Spares view

/-! ## Work on the scenarios -/

theorem Transport.map_keeps (t : Transport) {f : α → Act σ K β} (items : List α)
    (h : ∀ a ∈ items, (f a).Keeps view) : (t.map f items).Keeps view := by
  cases t with
  | sequential => exact Act.keeps_forEach items h
  | threads n =>
    exact Act.keeps_bind (Act.keeps_forEach items fun a ha => Act.keeps_attempt (h a ha))
      fun results => fun _ => rfl

theorem Partition.visit_keeps {job : Int → Scenario K → Option (Model K) → Act σ K α}
    (h : ∀ i c m, (job i c m).Keeps view) (q : Partition K) (epoch : Option Int) (offset : Int) :
    (q.visit epoch offset job).Keeps view := by
  unfold Partition.visit
  split
  · exact Act.keeps_forEach _ fun s _ => h _ _ _
  · exact Act.keeps_guard (Act.keeps_forEach _ fun s _ => h _ _ _)

theorem Program.collect_keeps {job : Int → Scenario K → Option (Model K) → Act σ K α}
    (h : ∀ i c m, (job i c m).Keeps view) (p : Program σ K) (withSubproblems : Bool) :
    (p.collect withSubproblems job).Keeps view :=
  Act.keeps_bind (Transport.map_keeps p.transport _ fun q _ => Partition.visit_keeps h q.1 _ q.2)
    fun _ => Act.keeps_pure _

/-! ## Cuts -/

namespace LShaped

variable [Scalar K]

theorem finish_keeps (status : Status) (s : State K) :
    (finish status : Run σ K Phase).Keeps view (fun _ => True) s := fun _ => ⟨rfl, trivial⟩

theorem addOptimalityCuts_keeps (m : LShaped σ K) (x recourse : List K)
    (groups : List (Nat × List (Outcome K))) (s : State K) :
    (addOptimalityCuts m x recourse groups).Keeps view (fun _ => True) s := by
  induction groups generalizing s with
  | nil => exact Change.keeps_pure trivial
  | cons g groups ih =>
    refine Change.keeps_bind ?_ fun added s' _ =>
      Change.keeps_bind (ih s') fun _ _ _ => Change.keeps_pure trivial
    refine Change.keeps_state_bind (Change.keeps_lift_bind trivial fun value _ => ?_)
    split
    · exact Change.keeps_pure trivial
    · exact Change.keeps_update_bind (Change.keeps_pure trivial)

end LShaped

/-! ## Solving models -/

variable [Scalar K] [Host σ K] (host : Host.Spares view)

include host

theorem LinearProgram.solve_keeps (p : LinearProgram K) (params : Setting K) :
    (p.solve params : Act σ K (SolveResult K)).Keeps view := by
  unfold LinearProgram.solve
  refine Act.keeps_bind (Act.keeps_lift _) fun _ => Act.keeps_bind (Act.keeps_lift _)
    fun limits => ?_
  refine Act.keeps_bind (Act.keeps_lift _) fun split => Act.keeps_bind (Act.keeps_lift _)
    fun effort => ?_
  refine Act.keeps_guard (Act.keeps_bind (host.optimize _ effort) fun verdict => ?_)
  cases verdict <;> exact Act.keeps_pure _

theorem Backend.Spares.optimize_keeps {b : Backend σ K} (hb : b.Spares view) (m : Model K)
    (x : Option (List K)) : (b.optimize m x).Keeps view := by
  unfold Backend.optimize
  refine Act.keeps_bind (Act.keeps_lift _) fun form => ?_
  exact Act.keeps_bind (LinearProgram.solve_keeps host _ b.params) fun r => hb _

theorem Model.phaseOne_keeps (m : Model K) (x : List K) (dims : Nat) (params : Setting K) :
    (m.phaseOne x dims params : Act σ K (K × List K)).Keeps view := by
  unfold Model.phaseOne
  refine Act.keeps_bind (Act.keeps_lift _) fun form => ?_
  refine Act.keeps_bind (LinearProgram.solve_keeps host _ params) fun r => ?_
  exact Act.keeps_guard (Act.keeps_bind (Act.keeps_lift _) fun _ => Act.keeps_pure _)

namespace Program

theorem answer_keeps {b : Backend σ K} (hb : b.Spares view) (x : List K) (index : Int)
    (s : Scenario K) (m : Option (Model K)) : (answer b x index s m).Keeps view := by
  unfold answer
  cases m with
  | none => exact fun _ => rfl
  | some m =>
    refine Act.keeps_bind (Act.keeps_pure m) fun m => ?_
    refine Act.keeps_bind (hb.optimize_keeps host m (some x)) fun r => ?_
    split
    · exact Act.keeps_pure _
    · exact Act.keeps_bind (Act.keeps_lift _) fun _ => Act.keeps_pure _

theorem solveRound_keeps {b : Backend σ K} (hb : b.Spares view) (p : Program σ K) (x : List K) :
    (p.solveRound b x).Keeps view :=
  Act.keeps_bind (collect_keeps (answer_keeps host hb x) p true) fun _ => Act.keeps_pure _

end Program

/-! ## The L-shaped method -/

namespace LShaped

variable {m : LShaped σ K} (hb : m.backend.Spares view)

theorem masterSolve_keeps (m : LShaped σ K) (s : State K) :
    (masterSolve m).Keeps view (fun _ => True) s := by
  unfold masterSolve
  refine Change.keeps_state_bind ?_
  split
  · exact finish_keeps _ s
  refine Change.keeps_update_bind (Change.keeps_ofAct_bind trivial
    (LinearProgram.solve_keeps host _ _) fun free => Change.keeps_update_bind ?_)
  split
  · refine Change.keeps_ofAct_bind trivial (LinearProgram.solve_keeps host _ _) fun r => ?_
    dsimp only
    split <;> exact fun _ => ⟨rfl, trivial⟩
  · rw [pure_bind]
    dsimp only
    split <;> exact fun _ => ⟨rfl, trivial⟩

include hb in
theorem subproblemSolve_keeps (p : Program σ K) (s : State K) :
    (subproblemSolve m p).Keeps view (fun _ => True) s := by
  unfold subproblemSolve
  refine Change.keeps_state_bind ?_
  split
  · exact Change.keeps_fail trivial
  · refine Change.keeps_ofAct_bind trivial (p.solveRound_keeps host hb _) fun round => ?_
    exact Change.keeps_update_bind (Change.keeps_pure trivial)

theorem handleFailure_keeps (m : LShaped σ K) (p : Program σ K) (x : List K) (f : RoundFailure K)
    (s : State K) : (handleFailure m p x f).Keeps view (fun _ => True) s := by
  unfold handleFailure
  refine Change.keeps_state_bind ?_
  split
  · dsimp only
    split
    · exact Change.keeps_pure trivial
    refine Change.keeps_lift_bind trivial fun sub _ => ?_
    refine Change.keeps_ofAct_bind trivial (sub.phaseOne_keeps host x _ _) fun r => ?_
    exact Change.keeps_guard trivial (Change.keeps_update_bind (Change.keeps_pure trivial))
  · exact Change.keeps_pure trivial
  · exact Change.keeps_fail trivial

theorem handleFailures_keeps (m : LShaped σ K) (p : Program σ K) (x : List K)
    (fs : List (RoundFailure K)) (s : State K) :
    (handleFailures m p x fs).Keeps view (fun _ => True) s := by
  induction fs generalizing s with
  | nil => exact Change.keeps_pure trivial
  | cons f fs ih =>
    refine Change.keeps_bind (handleFailure_keeps host m p x f s) fun ended s' _ => ?_
    cases ended with
    | some status => exact finish_keeps status s'
    | none => exact ih s'

theorem aggregate_keeps (m : LShaped σ K) (p : Program σ K) (s : State K) :
    (aggregate m p).Keeps view (fun _ => True) s := by
  unfold aggregate
  refine Change.keeps_state_bind (Change.keeps_update_bind ?_)
  split
  · split
    · exact handleFailures_keeps host m p _ _ _
    refine Change.keeps_update_bind (Change.keeps_bind (addOptimalityCuts_keeps m _ _ _ _)
      fun added s' _ => Change.keeps_state_bind ?_)
    split
    · split
      · exact finish_keeps _ s'
      · exact Change.keeps_pure trivial
    · exact Change.keeps_pure trivial
  · exact Change.keeps_fail trivial

theorem converge_keeps (s : State K) : (converge : Run σ K Phase).Keeps view (fun _ => True) s := by
  unfold converge
  refine Change.keeps_state_bind ?_
  split
  · refine Change.keeps_ofAct_bind trivial host.clock fun now => ?_
    exact Change.keeps_update_bind (finish_keeps _ _)
  · exact Change.keeps_fail trivial

theorem outOfTime_keeps (m : LShaped σ K) (s : State K) :
    (outOfTime m).Keeps view (fun _ => True) s := by
  unfold outOfTime
  split
  · exact Change.keeps_pure trivial
  · refine Change.keeps_ofAct_bind trivial host.clock fun now => ?_
    exact Change.keeps_state_bind (Change.keeps_pure trivial)

include hb

theorem runPhase_keeps (p : Program σ K) (phase : Phase) (s : State K) :
    (runPhase m p phase).Keeps view (fun _ => True) s := by
  cases phase with
  | init => exact Change.keeps_update_bind (Change.keeps_pure trivial)
  | masterSolve => exact masterSolve_keeps host m s
  | broadcast => exact Change.keeps_update_bind (Change.keeps_pure trivial)
  | subproblemSolve => exact subproblemSolve_keeps host hb p s
  | aggregate => exact aggregate_keeps host m p s
  | converged => exact converge_keeps host s
  | terminated => exact Change.keeps_fail trivial

theorem step_keeps (p : Program σ K) (s : State K) : (step m p).Keeps view (fun _ => True) s := by
  unfold step
  refine Change.keeps_state_bind ?_
  split
  · exact Change.keeps_pure trivial
  have hnext {c : Run σ K Phase} {s : State K} (hc : c.Keeps view (fun _ => True) s) : (do
      let next ← c
      Change.update fun s => { s with phase := next }
      return next : Run σ K Phase).Keeps view (fun _ => True) s :=
    Change.keeps_bind hc fun next s' _ => Change.keeps_update_bind (Change.keeps_pure trivial)
  split
  · exact Change.keeps_update_bind (hnext (finish_keeps _ _))
  · refine Change.keeps_bind (outOfTime_keeps host m s) fun late s' _ => ?_
    split
    · exact hnext (finish_keeps _ s')
    · exact hnext (runPhase_keeps host hb p s.phase s')

theorem runSteps_keeps (p : Program σ K) (n : Nat) (s : State K) :
    (runSteps m p n).Keeps view (fun _ => True) s := by
  induction n generalizing s with
  | zero => exact Change.keeps_pure trivial
  | succ n ih =>
    unfold runSteps
    refine Change.keeps_state_bind ?_
    split
    · exact Change.keeps_pure trivial
    · exact Change.keeps_bind (step_keeps host hb p s) fun _ s' _ => ih s'

theorem run_keeps (p : Program σ K) (s : State K) : (run m p).Keeps view (fun _ => True) s :=
  Change.keeps_bind (runSteps_keeps host hb p _ s) fun _ _ _ =>
    Change.keeps_state_bind (Change.keeps_pure trivial)

end LShaped

/-! ## Runs -/

theorem ExtensiveState.run_keeps {b : Backend σ K} (hb : b.Spares view) (c : Config K)
    (p : Program σ K) (s : ExtensiveState K) :
    (ExtensiveState.run c b p).Keeps view (fun _ => True) s := by
  have hlimited : (ExtensiveState.backendFor c b).Spares view := by
    unfold ExtensiveState.backendFor Backend.withParam
    split
    · exact hb
    · split <;> exact hb
  unfold ExtensiveState.run
  refine Change.keeps_state_bind ?_
  dsimp only
  split
  · exact Change.keeps_update_bind (Change.keeps_pure trivial)
  refine Change.keeps_ofAct_bind trivial (hlimited.optimize_keeps host _ none) fun r => ?_
  refine Change.keeps_update_bind (Change.keeps_guard trivial ?_)
  split
  · refine Change.keeps_update_bind (Change.keeps_lift_bind trivial fun second _ => ?_)
    exact Change.keeps_update_bind (Change.keeps_update_bind (Change.keeps_pure trivial))
  · exact Change.keeps_update_bind (Change.keeps_pure trivial)

theorem StructuredSolver.run_keeps {s : StructuredSolver σ K} (hs : s.backend.Spares view)
    (p : Program σ K) (r : SolverRun K) : (s.run p).Keeps view (fun _ => True) r := by
  intro ledger
  cases r with
  | extensive e =>
    rw [run_extensive]
    exact ⟨(ExtensiveState.run_keeps host hs s.config p e ledger).1, trivial⟩
  | lshaped l =>
    cases hm : s.lshaped with
    | error f =>
      rw [run_refused hm]
      exact ⟨rfl, trivial⟩
    | ok m =>
      have hbackend : m.backend = s.backend := by
        obtain ⟨rules, -, hrules⟩ := bind_eq_ok_iff.1 hm
        cases hrules
        rfl
      rw [run_lshaped hm]
      exact ⟨(LShaped.run_keeps host (hbackend ▸ hs) p l ledger).1, trivial⟩

end Recourse
