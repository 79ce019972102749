/-
  Proofs/LShaped/Verdict.lean --- what the verdicts of a run mean.

  A run that ends gives a verdict about its program.  The invariant says what stands
  behind each; here it is set against the deterministic equivalent.
-/
import Recourse.Proofs.LShaped.Bounds
import Recourse.Proofs.Solver.Extensive

set_option autoImplicit false
set_option linter.unusedSectionVars false

open scoped BigOperators

namespace Recourse

variable {F : Type} [Field F] [LinearOrder F] [IsStrictOrderedRing F] [FloorRing F] {σ : Type}
  [Host σ (Exact F)]

namespace LShaped

variable {s : State (Exact F)} {p : Program σ (Exact F)} {m : LShaped σ (Exact F)}

/-! ## Optimal -/

/-- Where the box fails at a master problem, a step that is not refused ends the run. -/
theorem step_of_boxFails (host : Host.Sound σ F) (hp : p.Proper)
    (h : s.Framed p m.rules.multicut) (hfails : s.BoxFails m.rules.masterBound)
    (hphase : s.phase = .masterSolve) (hcancelled : s.cancelled = false)
    (hiterations : Scalar.atMost m.rules.maxIterations (Scalar.ofInt s.iterations) = false)
    (hstatus : s.status = .unsolved) :
    (step m p).Ensures s (fun _ s' => s'.status = .infeasible ∨ s'.status = .timeLimit)
      (fun _ _ => True) := by
  have hdone : s.isDone = false := by
    unfold RunState.isDone
    rw [hstatus]
    rfl
  refine ensures_step (fun _ => trivial) (fun hover => ?_) (fun _ hstop => ?_)
    (fun _ => Or.inr rfl) fun _ => ?_
  · rw [hdone] at hover
    cases hover
  · rw [hcancelled] at hstop
    cases hstop
  · rw [hphase]
    exact (State.masterSolve_of_boxFails host h hp hfails hiterations).mono
      (fun _ _ => Or.inl) fun _ _ _ => trivial

/-- On a program with a feasible plan, with feasibility cuts, a run ends infeasible or is
refused for crossed bounds only where the box fails.  Then the plan is outside the box.
Conversely, where the box fails at a master problem the next step does not go on. -/
theorem Reachable.infeasible_verdict (host : Host.Sound σ F) (hb : m.backend.Faithful)
    (hm : m.Configured) (hp : p.Proper) (h : Reachable m p s)
    (hcuts : m.rules.feasibilityCuts = true) {x : Nat → F} {y : Nat → Nat → F}
    (hxy : p.Feasible x y) :
    (s.status = .infeasible → s.boxed = true ∧ s.BoxFails m.rules.masterBound) ∧
    (∀ ledger f, (((LShaped.step m p).runOn s).run ledger).1.1 = .error f → f.IsCrossed →
      (((LShaped.step m p).runOn s).run ledger).1.2.BoxFails m.rules.masterBound) ∧
    (s.BoxFails m.rules.masterBound → ¬ InBox p m.rules.masterBound x) ∧
    (s.BoxFails m.rules.masterBound → s.phase = .masterSolve → s.cancelled = false →
      Scalar.atMost m.rules.maxIterations (Scalar.ofInt s.iterations) = false →
      s.status = .unsolved → ∀ ledger next,
        (((LShaped.step m p).runOn s).run ledger).1.1 = .ok next →
          (((LShaped.step m p).runOn s).run ledger).1.2.status = .infeasible ∨
            (((LShaped.step m p).runOn s).run ledger).1.2.status = .timeLimit) := by
  have hinvariant := h.invariant host hb hp hm.masterBound
  refine ⟨?_, ?_,
    fun hfails => hinvariant.toFramed.not_inBox hp hfails hxy, ?_⟩
  · intro hstatus
    have houtcome := hinvariant.outcome
    rw [State.OutcomeHolds, hstatus] at houtcome
    rcases houtcome hcuts with hnone | hfails
    · exact absurd hxy (hnone x y)
    · exact hfails
  · intro ledger f hf hcrossed
    have hstep := step_ensures host hb hp (h.solvable hp) hm.masterBound hinvariant ledger
    exact ((hstep.of_error hf).crossed hcrossed).2
  · intro hfails hphase hcancelled hiterations hstatus ledger next hnext
    have hstep := step_of_boxFails host hp hinvariant.toFramed hfails hphase hcancelled
      hiterations hstatus ledger
    exact hstep.of_ok hnext

/-- At least twice the standard box is promised, at unit gain. -/
def quota : Model (Exact ℚ) :=
  { (Model.empty "quota" : Model (Exact ℚ)) with
    columns := [⟨0, .finite 2000000, .plusInfinity, some "x", none⟩]
    objective? := some ⟨[(0, -1)], 0, []⟩ }

/-- What was promised is delivered, at twice the gain. -/
def delivery : Model (Exact ℚ) :=
  { (Model.empty "delivery" : Model (Exact ℚ)) with
    columns := [⟨0, .minusInfinity, .plusInfinity, some "x", some 0⟩,
      ⟨1, 0, .plusInfinity, some "y", none⟩]
    rows := [⟨⟨[(0, -1), (1, 1)], 0, []⟩, .atLeast, 0, none, 0, 0⟩]
    objective? := some ⟨[(1, .finite 2)], 0, []⟩ }

/-- A promise and its delivery. -/
def quotaProgram : Program (Transcript ℚ) (Exact ℚ) := .ofModels quota [(1, delivery)]

/-- Nothing bounds the promise at first. -/
def quotaTranscript : Transcript ℚ where
  findings := [.unbounded [2000000, 0] [1, 0]]

theorem quotaProgram_proper : quotaProgram.Proper := by decide +kernel

theorem quotaProgram_feasible :
    quotaProgram.Feasible (fun _ => 2000000) (fun _ _ => 2000000) := by
  decide +kernel

/-- A result that is refused for crossed bounds. -/
def isRefusedCrossed {K α : Type} : Except (Fault K) α → Bool
  | .error (.invalid (.boundsCrossed _)) => true
  | _ => false

/-- The promise is outside the box, and the run is refused. -/
theorem quota_infeasible_verdict : ∃ s : State (Exact ℚ), Reachable exactMethod quotaProgram s ∧
    ∃ ledger f, (((LShaped.step exactMethod quotaProgram).runOn s).run ledger).1.1 = .error f ∧
      f.IsCrossed ∧ (((LShaped.step exactMethod quotaProgram).runOn s).run ledger).1.2.BoxFails
        (.finite 1000000) := by
  obtain ⟨s, hs, hstep⟩ := exists_reachable exactMethod quotaProgram ⟨quotaTranscript, [], 0⟩ 1
    (fun s => isRefusedCrossed (((LShaped.step exactMethod quotaProgram).runOn s).run
        ⟨quotaTranscript, [], 0⟩).1.1) (by decide +kernel)
  obtain ⟨f, hf, hcrossed⟩ : ∃ f, (((LShaped.step exactMethod quotaProgram).runOn s).run
      ⟨quotaTranscript, [], 0⟩).1.1 = .error f ∧ f.IsCrossed := by
    unfold isRefusedCrossed at hstep
    split at hstep
    · rename_i columns hrefused
      exact ⟨_, hrefused, columns, rfl⟩
    · cases hstep
  obtain ⟨-, hrefused, -, -⟩ := Reachable.infeasible_verdict Transcript.sound
    Backend.plain_faithful exactMethod_configured quotaProgram_proper hs rfl
      quotaProgram_feasible
  exact ⟨s, hs, _, f, hf, hcrossed, hrefused _ f hf hcrossed⟩

/-! ## Unbounded -/

/-- The method with a box of size one. -/
def boxedMethod : LShaped (Transcript ℚ) (Exact ℚ) :=
  { exactMethod with rules := { exactMethod.rules with masterBound := .finite 1 } }

theorem boxedMethod_configured : boxedMethod.Configured :=
  ⟨{ exactConfig with masterBound := Config.real 1 }, rfl, rfl, rfl⟩

/-- Two rounds in the box, at its edge. -/
def saleTranscript : Transcript ℚ where
  findings :=
    [.unbounded [0, 0] [1, 0],
      .optimal ⟨[1, 0], -1, [], [], [0, 1], [-1, 0], 0⟩,
      .optimal ⟨[1, 0], 0, [0], [], [0, 1], [0, 0], 0⟩,
      .unbounded [0, 0] [1, 0],
      .optimal ⟨[1, 0], -1, [-1], [], [0, 0], [-1, 0], 0⟩,
      .optimal ⟨[1, 0], 0, [0], [], [0, 1], [0, 0], 0⟩]

end LShaped

end Recourse
