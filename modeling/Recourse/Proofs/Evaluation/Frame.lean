/-
  Proofs/Evaluation/Frame.lean --- what the values of a program leave of it.

  The values of a program and of its decisions are found on programs that were made for
  them, or by solving the subproblems aside.  A program that is built stays as it is through
  every such call, refused or not, but for the note on what was built
  (`Construct.after_undisturbed`).  Only the calls that need the probabilities to sum to
  one may weigh the scenarios anew, where the program asks for that, and then the solution
  is gone.
-/
import Recourse.Evaluation.Values
import Recourse.Proofs.Program.Freshness

set_option autoImplicit false
set_option linter.unusedSectionVars false

namespace Recourse.Program

variable {σ K α β : Type} [Scalar K] [Host σ K]

/-! ## The calls -/

/-- A call that finds out what a program, a scenario or a decision is worth. -/
inductive Construct (σ K : Type) where
  /-- The value of a program whose only scenario is known in advance. -/
  | waitAndSee (ref : ScenarioRef K) (solver : Option (Solver σ K))
  /-- The expectation of these values. -/
  | expectedWaitAndSee (solver : Option (Solver σ K))
  /-- The program of the expected scenario. -/
  | expectedProgram
  /-- Its value. -/
  | expectedValue (solver : Option (Solver σ K))
  /-- Its decision. -/
  | expectedDecision (solver : Option (Solver σ K))
  /-- What that decision is worth. -/
  | expectedResult (solver : Option (Solver σ K))
  /-- What a decision is worth. -/
  | evaluate (x : List K) (solver : Option (Solver σ K))
  /-- What a decision is worth, with statistics. -/
  | evaluateFully (x : List K) (solver : Option (Solver σ K))
  /-- What a decision is worth if a scenario occurs. -/
  | evaluateScenario (ref : ScenarioRef K) (x : List K) (solver : Option (Solver σ K))
  /-- What a decision is worth in every scenario. -/
  | outcomes (x : List K) (solver : Option (Solver σ K))
  /-- The subproblem of a scenario at a decision. -/
  | outcomeModel (ref : ScenarioRef K) (x : List K)
  /-- The deterministic equivalent. -/
  | extensiveForm

namespace Construct

/-- A computation that is told the program, as a call on it. -/
def asked (act : Program σ K → Act σ K α) : Edit σ K Unit := do
  let _ ← act (← Change.state)

/-- The call, whatever it answers. -/
def edit : Construct σ K → Edit σ K Unit
  | .waitAndSee ref solver => asked (·.waitAndSee ref solver)
  | .expectedWaitAndSee solver => do let _ ← Program.expectedWaitAndSee solver
  | .expectedProgram => asked Program.expectedProgram
  | .expectedValue solver => asked (·.expectedValue solver)
  | .expectedDecision solver => asked (·.expectedDecision solver)
  | .expectedResult solver => do let _ ← Program.expectedResult solver
  | .evaluate x solver => do let _ ← Program.evaluate x solver
  | .evaluateFully x solver => do let _ ← Program.evaluateFully x solver
  | .evaluateScenario ref x solver => do let _ ← Program.evaluateScenario ref x solver
  | .outcomes x solver => do let _ ← Program.outcomes x solver
  | .outcomeModel ref x => do let _ ← Program.outcomeModel ref x
  | .extensiveForm => do let _ ← Program.extensiveForm

/-- Whether the call needs probabilities that sum to one. -/
def validates : Construct σ K → Bool
  | .expectedWaitAndSee _ | .expectedResult _ | .evaluate _ _ | .evaluateFully _ _ => true
  | _ => false

/-- The program after the call, whether it was refused or not. -/
def after (c : Construct σ K) (p : Program σ K) (ledger : Ledger σ K) : Program σ K :=
  ((c.edit.runOn p).run ledger).1.2

end Construct

/-! ## Programs that are weighed anew -/

/-- The program with its probabilities divided by their total, and without its solution. -/
def reweighed (p : Program σ K) : Program σ K :=
  { p.scaled (1 / p.totalProbability) with solution := none }

/-- Weighing a program anew changes its probabilities, and the models stay in their slots. -/
theorem slots_reweighed (p : Program σ K) : p.reweighed.slots =
    p.slots.map fun s => { s with scenario := s.scenario.scaled (1 / p.totalProbability) } :=
  slots_scaled _ p

/-- A program is as it was but for notes, or it was weighed anew where that was allowed and
asked for, and necessary. -/
def Undisturbed (weighing : Bool) (p p' : Program σ K) : Prop :=
  Marked p p' ∨ (weighing = true ∧ p.normalize = true ∧ isTotal p.totalProbability = false) ∧
    Marked p.reweighed p'

/-- A change that leaves the program as it is but for notes, refused or not. -/
def Leaves (weighing : Bool) (c : Edit σ K α) (p : Program σ K) : Prop :=
  c.Ensures p (fun _ p' => Undisturbed weighing p p') fun _ p' => Undisturbed weighing p p'

variable {p p' : Program σ K} {weighing : Bool}

theorem Marked.trans {p'' : Program σ K} (h : Marked p p') (h' : Marked p' p'') :
    Marked p p'' := by
  obtain ⟨_, rfl⟩ := h
  obtain ⟨generated, rfl⟩ := h'
  exact ⟨generated, rfl⟩

theorem Marked.undisturbed (h : Marked p p') (weighing : Bool) : Undisturbed weighing p p' :=
  Or.inl h

/-- The first-stage model and the subproblems are the same ones, with the same results, and
they belong to the same payloads. -/
theorem Undisturbed.models (h : Undisturbed weighing p p') : p'.master = p.master ∧
    p'.slots.map (fun s => (s.built, s.scenario.data)) =
      p.slots.map fun s => (s.built, s.scenario.data) := by
  rcases h with ⟨_, rfl⟩ | ⟨-, _, rfl⟩
  · exact ⟨rfl, rfl⟩
  · refine ⟨rfl, ?_⟩
    show p.reweighed.slots.map _ = _
    rw [slots_reweighed, List.map_map]
    rfl

/-- Notes made before do not matter. -/
theorem Undisturbed.of_marked {p'' : Program σ K} (h : Marked p p')
    (h' : Undisturbed weighing p' p'') : Undisturbed weighing p p'' := by
  rcases h' with hmarked | ⟨hallowed, hmarked⟩
  · exact Or.inl (h.trans hmarked)
  · obtain ⟨_, rfl⟩ := h
    refine Or.inr ⟨hallowed, ?_⟩
    obtain ⟨generated, rfl⟩ := hmarked
    exact ⟨generated, rfl⟩

/-! ## Changes that leave a program alone -/

/-- A change that leaves the program exactly as it is. -/
def Reads (c : Edit σ K α) (p : Program σ K) : Prop :=
  c.Ensures p (fun _ p' => p' = p) fun _ p' => p' = p

theorem reads_lift (r : Except (Fault K) α) : Reads (liftM r : Edit σ K α) p :=
  Change.ensures_lift ((Settles.self r).mono (fun _ _ => rfl) fun _ _ => rfl)

theorem reads_ofAct (act : Act σ K α) : Reads (Change.ofAct act : Edit σ K α) p :=
  Change.ensures_ofAct fun _ => (Settles.self _).mono (fun _ _ => rfl) fun _ _ => rfl

theorem reads_state : Reads (Change.state : Edit σ K (Program σ K)) p :=
  Change.ensures_state rfl

theorem reads_pure (a : α) : Reads (pure a : Edit σ K α) p := Change.ensures_pure rfl

theorem reads_fail (f : Fault K) : Reads (throw f : Edit σ K α) p := Change.ensures_fail rfl

theorem Reads.bind {c : Edit σ K α} {f : α → Edit σ K β} (hc : Reads c p)
    (hf : ∀ a, Reads (f a) p) : Reads (c >>= f) p := by
  refine Change.ensures_bind (hc.mono ?_ fun _ _ h => h)
  rintro a _ rfl
  exact hf a

theorem Reads.leaves {c : Edit σ K α} (h : Reads c p) (weighing : Bool) : Leaves weighing c p :=
  h.mono (fun _ _ h => h ▸ (Marked.refl p).undisturbed weighing)
    fun _ _ h => h ▸ (Marked.refl p).undisturbed weighing

theorem Reads.bind_leaves {c : Edit σ K α} {f : α → Edit σ K β} (hc : Reads c p)
    (hf : ∀ a, Leaves weighing (f a) p) : Leaves weighing (c >>= f) p := by
  refine Change.ensures_bind (hc.mono ?_ fun _ _ h => h ▸ (Marked.refl p).undisturbed weighing)
  rintro a _ rfl
  exact hf a

/-- What only reads does no more after a change than before. -/
theorem Leaves.bind {c : Edit σ K α} {f : α → Edit σ K β} (hc : Leaves weighing c p)
    (hf : ∀ a p', Reads (f a) p') : Leaves weighing (c >>= f) p := by
  refine Change.ensures_bind (hc.mono ?_ fun _ _ h => h)
  intro a p' h
  exact (hf a p').mono (fun _ _ h' => h' ▸ h) fun _ _ h' => h' ▸ h

/-- A call that only reads may follow a note, and so may one that weighs. -/
theorem leaves_bind_marked {c : Edit σ K α} {f : α → Edit σ K β}
    (hc : c.Ensures p (fun _ p' => Marked p p') fun _ p' => Marked p p')
    (hf : ∀ a p', Marked p p' → Leaves weighing (f a) p') : Leaves weighing (c >>= f) p := by
  refine Change.ensures_bind (hc.mono ?_ fun _ _ h => h.undisturbed weighing)
  intro a p' h
  exact (hf a p' h).mono (fun _ _ h' => .of_marked h h') fun _ _ h' => .of_marked h h'

/-- Building a program that is built leaves a note. -/
theorem generate_marks (h : p.isDeferred = false) :
    (generate : Edit σ K Unit).Ensures p (fun _ p' => Marked p p') fun _ p' => Marked p p' :=
  (generate_ensures h).mono (fun _ _ h => ⟨_, h⟩) fun _ _ h => h.elim

/-- Probabilities that do not sum to one are divided by their total where the program asks
for that. -/
theorem validate_weighs (hK : Weighing K) (hp : p.Weighted) :
    Leaves true (validate none : Edit σ K Unit) p := by
  unfold validate
  refine Change.ensures_bind (Change.ensures_state ?_)
  split
  · exact Change.ensures_bind (Change.ensures_fail ((Marked.refl p).undisturbed true))
  dsimp only
  split
  · exact Change.ensures_pure ((Marked.refl p).undisturbed true)
  rename_i htotal
  split
  · exact Change.ensures_bind (Change.ensures_fail ((Marked.refl p).undisturbed true))
  rename_i hchecks
  simp only [Option.getD_none, Bool.or_eq_true, Bool.not_eq_true', not_or,
    Bool.not_eq_false, Bool.not_eq_true] at hchecks htotal
  refine Change.ensures_bind ((reads_ofAct _).mono ?_ ?_)
  · rintro _ _ rfl
    refine Change.ensures_bind ((rescale_ensures (hp.uniform_share hK hchecks.2)).mono ?_ ?_)
    · rintro _ _ ⟨rfl, -⟩
      exact Change.ensures_update (Or.inr ⟨⟨rfl, hchecks.1, htotal⟩, .refl _⟩)
    · rintro _ _ rfl
      exact (Marked.refl _).undisturbed true
  · rintro _ _ rfl
    exact (Marked.refl _).undisturbed true

/-! ## Every call -/

/-- A call that only asks leaves the program exactly as it is. -/
theorem Construct.asked_leaves (act : Program σ K → Act σ K α) (weighing : Bool) :
    Leaves weighing (asked act) p :=
  (reads_state.bind fun q => (reads_ofAct (act q)).bind fun _ => reads_pure _).leaves weighing

/-- The first-stage value and the values of the subproblems are found aside. -/
theorem valuesAt_reads (x : List K) (solver : Option (Solver σ K)) (p : Program σ K) :
    Reads (valuesAt x solver) p := by
  unfold valuesAt
  refine reads_state.bind fun q => (reads_lift _).bind fun _ => (reads_lift _).bind fun _ => ?_
  exact (reads_lift _).bind fun _ => (reads_ofAct _).bind fun _ => reads_pure _

/-- What follows on building and weighing. -/
theorem leaves_generate_validate (hK : Weighing K) (hp : p.Weighted)
    (hcurrent : p.isDeferred = false) {f : Edit σ K α} (hf : ∀ p', Reads f p') :
    Leaves true (do generate; validate none; f : Edit σ K α) p := by
  refine leaves_bind_marked (generate_marks hcurrent) fun _ p₁ hmarked => ?_
  obtain ⟨generated, rfl⟩ := hmarked
  have hweighted : Weighted { p with generatedEpoch := generated } := hp
  exact (validate_weighs hK hweighted).bind fun _ => hf

theorem evaluate_leaves (hK : Weighing K) (hp : p.Weighted) (hcurrent : p.isDeferred = false)
    (x : List K) (solver : Option (Solver σ K)) : Leaves true (evaluate x solver) p := by
  unfold evaluate
  refine leaves_generate_validate hK hp hcurrent fun p' => ?_
  exact (valuesAt_reads x solver p').bind fun _ => reads_state.bind fun _ => reads_pure _

theorem evaluateFully_leaves (hK : Weighing K) (hp : p.Weighted)
    (hcurrent : p.isDeferred = false) (x : List K) (solver : Option (Solver σ K)) :
    Leaves true (evaluateFully x solver) p := by
  unfold evaluateFully
  refine leaves_generate_validate hK hp hcurrent fun p' => ?_
  exact (valuesAt_reads x solver p').bind fun _ => reads_state.bind fun _ => reads_pure _

theorem outcomes_leaves (hcurrent : p.isDeferred = false) (x : List K)
    (solver : Option (Solver σ K)) : Leaves false (outcomes x solver) p := by
  unfold outcomes
  refine leaves_bind_marked (generate_marks hcurrent) fun _ p₁ _ => ?_
  exact ((valuesAt_reads x solver p₁).bind fun _ => reads_pure _).leaves false

theorem outcomeModel_leaves (hcurrent : p.isDeferred = false) (ref : ScenarioRef K) (x : List K) :
    Leaves false (outcomeModel ref x) p := by
  unfold outcomeModel
  refine leaves_bind_marked (generate_marks hcurrent) fun _ p₁ _ => ?_
  refine (reads_state.bind fun q => (reads_lift _).bind fun _ => ?_ : Reads _ p₁).leaves false
  split
  · exact reads_fail _
  · refine (reads_lift _).bind fun decisions => (reads_lift _).bind fun s => ?_
    refine (reads_ofAct _).bind fun m => ?_
    split
    · exact reads_pure _
    · exact reads_lift _

theorem evaluateScenario_leaves (hcurrent : p.isDeferred = false) (ref : ScenarioRef K)
    (x : List K) (solver : Option (Solver σ K)) :
    Leaves false (evaluateScenario ref x solver) p := by
  unfold evaluateScenario
  refine (outcomeModel_leaves hcurrent ref x).bind fun m p' => reads_state.bind fun q => ?_
  refine (reads_lift _).bind fun _ => (reads_lift _).bind fun _ => (reads_lift _).bind fun _ => ?_
  refine (reads_ofAct _).bind fun r => ?_
  dsimp only
  split
  · exact (reads_fail _).bind fun _ => reads_pure _
  · exact reads_pure _

theorem expectedWaitAndSee_leaves (hK : Weighing K) (hp : p.Weighted)
    (solver : Option (Solver σ K)) : Leaves true (expectedWaitAndSee solver) p := by
  unfold expectedWaitAndSee
  refine (validate_weighs hK hp).bind fun _ p' => reads_state.bind fun q => ?_
  exact (reads_ofAct _).bind fun _ => reads_pure _

theorem expectedResult_leaves (hK : Weighing K) (hp : p.Weighted)
    (hcurrent : p.isDeferred = false) (solver : Option (Solver σ K)) :
    Leaves true (expectedResult solver) p := by
  unfold expectedResult
  exact reads_state.bind_leaves fun q => (reads_ofAct _).bind_leaves fun x =>
    evaluate_leaves hK hp hcurrent x solver

/-- What a call answers is forgotten. -/
theorem Leaves.forget {c : Edit σ K α} (h : Leaves weighing c p) :
    Leaves weighing (do let _ ← c : Edit σ K Unit) p := h.bind fun _ _ => reads_pure _

theorem Construct.edit_leaves (hK : Weighing K) (hp : p.Weighted)
    (hcurrent : p.isDeferred = false) (c : Construct σ K) : Leaves c.validates c.edit p := by
  cases c with
  | waitAndSee ref solver => exact asked_leaves _ _
  | expectedWaitAndSee solver => exact (expectedWaitAndSee_leaves hK hp solver).forget
  | expectedProgram => exact asked_leaves _ _
  | expectedValue solver => exact asked_leaves _ _
  | expectedDecision solver => exact asked_leaves _ _
  | expectedResult solver => exact (expectedResult_leaves hK hp hcurrent solver).forget
  | evaluate x solver => exact (evaluate_leaves hK hp hcurrent x solver).forget
  | evaluateFully x solver => exact (evaluateFully_leaves hK hp hcurrent x solver).forget
  | evaluateScenario ref x solver => exact (evaluateScenario_leaves hcurrent ref x solver).forget
  | outcomes x solver => exact (outcomes_leaves hcurrent x solver).forget
  | outcomeModel ref x => exact (outcomeModel_leaves hcurrent ref x).forget
  | extensiveForm =>
    exact (leaves_bind_marked (extensiveForm_leaves hcurrent) fun _ p' _ =>
      (reads_pure _).leaves false)

/-- A program that is built is not disturbed by finding out what it, its scenarios or a
decision are worth, whether the call is answered or refused. -/
theorem Construct.after_undisturbed (hK : Weighing K) (c : Construct σ K) {p : Program σ K}
    (hfirst : p.stageState .first = .generated) (hsecond : p.stageState .second = .generated)
    (hp : p.Weighted) (ledger : Ledger σ K) : Undisturbed c.validates p (c.after p ledger) := by
  have hcurrent : p.isDeferred = false := by
    simp [isDeferred, show p.firstState = _ from hfirst, show p.secondState = _ from hsecond]
  exact Change.Ensures.after (c.edit_leaves hK hp hcurrent) ledger

/-- A price of weight one. -/
def heavy (price : ℚ) : Scenario (Exact ℚ) := ⟨1, .real (.finite price), none⟩

/-- The stock is set up with two prices, each of weight one. -/
def overweightSetup : List (Operation (Transcript ℚ) (Exact ℚ)) :=
  [.register (.ofInt 1) (.recipe (.first stockRecipe)) true,
    .register (.ofInt 2) (.recipe (.second shortageRecipe)) true,
    .addAll [.scenario (heavy 3), .scenario (heavy 1)] none false]

theorem overweightSetup_allowed : ∀ op ∈ overweightSetup, op.Allowed := by
  have hheavy : ∀ price : ℚ, Scalar.isWeight (heavy price).probability = true := fun _ =>
    (Exact.isWeight_iff _).2 ⟨1, rfl, by norm_num, by norm_num⟩
  simp only [overweightSetup, List.forall_mem_cons, List.not_mem_nil, false_implies, implies_true,
    and_true, Operation.Allowed]
  exact ⟨stockRecipe_pure, shortageRecipe_pure, hheavy 3, hheavy 1⟩

/-- A program that normalizes: the prices are weighed anew when a decision is evaluated, and
nothing else is touched. -/
theorem overweight_undisturbed : ∃ p : Program (Transcript ℚ) (Exact ℚ), Reachable p ∧
    p.probabilities = [1, 1] ∧
      (Construct.after (.evaluate [.finite 3] none) p ⟨fullStock, [], 0⟩).probabilities =
        [.finite (1 / 2), .finite (1 / 2)] ∧
      Undisturbed true p (Construct.after (.evaluate [.finite 3] none) p ⟨fullStock, [], 0⟩) := by
  obtain ⟨p, hp, hstate⟩ := exists_reachable { Setup.standard with normalize := true }
    overweightSetup_allowed ⟨fullStock, [], 0⟩
    (fun p => p.probabilities == [1, 1] &&
      (Construct.after (.evaluate [.finite 3] none) p ⟨fullStock, [], 0⟩).probabilities ==
        [.finite (1 / 2), .finite (1 / 2)] &&
      p.stageState .first == .generated && p.stageState .second == .generated)
    (by decide +kernel)
  simp only [Bool.and_eq_true, beq_iff_eq] at hstate
  obtain ⟨⟨⟨hbefore, hafter⟩, hfirst⟩, hsecond⟩ := hstate
  refine ⟨p, hp, hbefore, hafter, ?_⟩
  exact Construct.after_undisturbed Exact.weighing (.evaluate [.finite 3] none) hfirst hsecond
    (hp.invariant Exact.weighing).toConsistent.weighted _

end Recourse.Program
