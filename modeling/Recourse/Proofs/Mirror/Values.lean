/-
  Proofs/Mirror/Values.lean --- the values of a program with its sense turned.

  What a decision is worth, the value of the recourse problem, of the expected scenario
  and of its decision, and the expectation of the wait-and-see values are exchanged with
  their opposites.  The values of information compare two of them in minimization form,
  so they stay.
-/
import Recourse.Proofs.Mirror.Creation
import Recourse.Proofs.Mirror.Run

set_option autoImplicit false
set_option linter.unusedSectionVars false

namespace Recourse

namespace Program

variable {σ K : Type} [Scalar K] [Scalar.Symmetric K] [Host σ K]

/-- A change that keeps a program and its image alike, with opposite results. -/
abbrev Odd (c c' : Edit σ K K) : Prop := c.Alike Program.mirror c' fun a b => b = -a

theorem committed_mirror (p : Program σ K) :
    p.mirror.committed = p.committed.map Solution.mirror := by
  unfold committed
  rw [show p.mirror.solution = p.solution.map Solution.mirror from rfl]
  cases p.solution <;> rfl

theorem resolve_mirror (p : Program σ K) (ref : ScenarioRef K) :
    p.mirror.resolve ref = p.resolve ref := by
  cases ref with
  | index i => exact p.scenario_mirror i
  | scenario t => rfl

/-! ## What a decision is worth -/

theorem firstStageValue_mirror (master : Model K) (x : List K) :
    firstStageValue master.mirror x = (firstStageValue master x).map (-·) := by
  unfold firstStageValue
  rw [Model.standardForm_mirror, Model.evaluateObjective_mirror]
  cases master.standardForm none with
  | error f => rfl
  | ok form =>
    dsimp only [Except.map, bind, Except.bind]
    rw [show form.mirror.lower = form.lower from rfl, show form.mirror.upper = form.upper from rfl,
      show violatedRows form.mirror x = violatedRows form x from rfl]
    split
    · rfl
    · cases violatedRows form x with
      | cons row rows => rfl
      | nil => rfl

variable {s : StructuredSolver σ K} (hs : s.backend.Even)

include hs

/-- The subproblems have opposite values at a decision. -/
theorem recourseValues_alike (p : Program σ K) (x : List K) :
    (p.recourseValues x s.backend).Alike (p.mirror.recourseValues x s.backend)
      fun vs vs' => vs' = Scalar.negated vs := by
  unfold recourseValues
  refine collect_alike (fun i t m => ?_) p true
  cases m with
  | none => exact Act.alike_fail (.refl _)
  | some m =>
    refine Act.alike_bind (R := fun m m' => m' = m.mirror) (Act.alike_pure rfl) ?_
    rintro m _ rfl
    refine Act.alike_bind_map (Backend.optimize_mirror hs m (some x)) fun r => ?_
    rw [show r.mirror.status = r.status from rfl]
    split
    · exact Act.alike_fail (.refl _)
    · exact Act.alike_pure rfl

theorem valuesAt_alike (x : List K) : (valuesAt x (some (.structured s))).Alike Program.mirror
    (valuesAt x (some (.structured s))) fun v v' => v' = (-v.1, Scalar.negated v.2) := by
  unfold valuesAt
  refine Change.alike_bind_map Change.alike_state fun p => ?_
  refine Change.alike_bind_map (Change.alike_lift (.refl _)) fun _ => ?_
  refine Change.alike_bind_map (Change.alike_lift (.of_eq p.stageOneModel_mirror)) fun master => ?_
  refine Change.alike_bind_map (Change.alike_lift (.of_eq (firstStageValue_mirror master x)))
    fun first => ?_
  refine Change.alike_bind_map (Change.alike_ofAct (recourseValues_alike hs p x)) fun recourse => ?_
  exact Change.alike_pure rfl

/-- A decision is worth the opposite in every scenario. -/
theorem outcomes_alike (x : List K) : (outcomes x (some (.structured s))).Alike Program.mirror
    (outcomes x (some (.structured s))) fun vs vs' => vs' = Scalar.negated vs := by
  unfold outcomes
  refine Change.alike_bind_map generate_even fun _ => ?_
  refine Change.alike_bind (valuesAt_alike hs x) ?_
  rintro ⟨first, recourse⟩ _ rfl
  refine Change.alike_pure ?_
  show (Scalar.negated recourse).map (-first + ·) = Scalar.negated (recourse.map (first + ·))
  rw [Scalar.negated, Scalar.negated, List.map_map, List.map_map]
  exact congrArg (List.map · recourse)
    (funext fun v => Scalar.Symmetric.neg_add_neg first v)

/-- A decision is worth the opposite. -/
theorem evaluate_odd (x : List K) :
    Odd (evaluate x (some (.structured s))) (evaluate x (some (.structured s))) := by
  unfold evaluate
  refine Change.alike_bind_map generate_even fun _ => ?_
  refine Change.alike_bind_map (validate_even none) fun _ => ?_
  refine Change.alike_bind (valuesAt_alike hs x) ?_
  rintro ⟨first, recourse⟩ _ rfl
  refine Change.alike_bind_map Change.alike_state fun p => ?_
  refine Change.alike_pure ?_
  show -first + Scalar.dot p.mirror.probabilities (Scalar.negated recourse) = _
  rw [probabilities_mirror, Scalar.dot_negated_right, Scalar.Symmetric.neg_add_neg]

/-! ## Values of solved programs -/

theorem solved_alike (refusal : Status → Fault K) :
    (solved s refusal).Alike Program.mirror (solved s refusal) fun a a' => a' = a.mirror := by
  unfold solved
  refine Change.alike_bind_map (optimize_even hs) fun status => ?_
  dsimp only
  split
  · exact Change.alike_fail (.refl _)
  · refine Change.alike_bind_map Change.alike_state fun p => ?_
    exact Change.alike_lift (.of_eq p.committed_mirror)

theorem recourseProblem_odd :
    Odd (recourseProblem (some (.structured s))) (recourseProblem (some (.structured s))) := by
  unfold recourseProblem
  refine Change.alike_bind_map Change.alike_state fun p => ?_
  refine Change.alike_bind_map (solved_alike hs _) fun a => ?_
  exact Change.alike_pure rfl

theorem waitAndSee_alike (p : Program σ K) (ref : ScenarioRef K) :
    (p.waitAndSee ref (some (.structured s))).Alike
      (p.mirror.waitAndSee ref (some (.structured s))) fun v v' => v' = -v := by
  unfold waitAndSee
  rw [resolve_mirror]
  refine Act.alike_bind_map (Act.Alike.refl _) fun t => ?_
  refine Act.alike_bind_map (p.restricted_alike t) fun single => ?_
  refine Change.alike_apply_bind (solved_alike hs _) single ?_
  rintro a _ q rfl
  exact Act.alike_pure rfl

theorem expectedWaitAndSee_odd : Odd (expectedWaitAndSee (some (.structured s)))
    (expectedWaitAndSee (some (.structured s))) := by
  unfold expectedWaitAndSee
  refine Change.alike_bind_map (validate_even none) fun _ => ?_
  refine Change.alike_bind_map Change.alike_state fun p => ?_
  refine Change.alike_bind_map (g := Scalar.negated) (Change.alike_ofAct
    (collect_alike (fun i t m => ?_) p false)) fun vs => Change.alike_pure (Scalar.sum_negated vs)
  refine Act.alike_bind_map (waitAndSee_alike hs p (.scenario t)) fun v => ?_
  exact Act.alike_pure (Scalar.Symmetric.mul_neg t.probability v)

theorem expectedSolution_alike (p : Program σ K) :
    (p.expectedSolution (some (.structured s))).Alike
      (p.mirror.expectedSolution (some (.structured s))) fun a a' => a' = a.mirror := by
  unfold expectedSolution
  refine Act.alike_bind_map p.expectedProgram_alike fun single => ?_
  exact Change.alike_apply_bind (solved_alike hs _) single fun _ _ _ ha => Act.alike_pure ha

theorem expectedValue_alike (p : Program σ K) :
    (p.expectedValue (some (.structured s))).Alike
      (p.mirror.expectedValue (some (.structured s))) fun v v' => v' = -v := by
  unfold expectedValue
  refine Act.alike_bind_map (expectedSolution_alike hs p) fun a => ?_
  exact Act.alike_pure rfl

theorem expectedDecision_alike (p : Program σ K) :
    (p.expectedDecision (some (.structured s))).Alike
      (p.mirror.expectedDecision (some (.structured s))) fun x x' => x' = x := by
  unfold expectedDecision
  refine Act.alike_bind_map (expectedSolution_alike hs p) fun a => ?_
  exact Act.alike_pure rfl

theorem expectedResult_odd :
    Odd (expectedResult (some (.structured s))) (expectedResult (some (.structured s))) := by
  unfold expectedResult
  refine Change.alike_bind_map Change.alike_state fun p => ?_
  refine Change.alike_bind_map (Change.alike_ofAct (expectedDecision_alike hs p)) fun x => ?_
  exact evaluate_odd hs x

/-! ## Values of information -/

theorem perfectInformation_even : Even (perfectInformation (some (.structured s)))
    (perfectInformation (some (.structured s))) := by
  unfold perfectInformation
  refine Change.alike_bind_map (recourseProblem_odd hs) fun vrp => ?_
  refine Change.alike_bind_map (expectedWaitAndSee_odd hs) fun ews => ?_
  refine Change.alike_bind_map Change.alike_state fun p => ?_
  refine Change.alike_bind_map (Change.alike_lift (.of_eq p.sign_mirror)) fun sign => ?_
  refine Change.alike_pure ?_
  rw [Scalar.sub_neg_neg, Scalar.Symmetric.neg_mul, Scalar.Symmetric.mul_neg,
    Scalar.Symmetric.neg_neg]

theorem stochasticSolution_even : Even (stochasticSolution (some (.structured s)))
    (stochasticSolution (some (.structured s))) := by
  unfold stochasticSolution
  refine Change.alike_bind_map (recourseProblem_odd hs) fun vrp => ?_
  refine Change.alike_bind_map (expectedResult_odd hs) fun eev => ?_
  refine Change.alike_bind_map Change.alike_state fun p => ?_
  refine Change.alike_bind_map (Change.alike_lift (.of_eq p.sign_mirror)) fun sign => ?_
  refine Change.alike_pure ?_
  rw [Scalar.sub_neg_neg, Scalar.Symmetric.neg_mul, Scalar.Symmetric.mul_neg,
    Scalar.Symmetric.neg_neg]

end Program

end Recourse
