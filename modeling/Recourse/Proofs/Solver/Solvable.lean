/-
  Proofs/Solver/Solvable.lean --- what solvers require of a program.
-/
import Recourse.Proofs.Program.Meaning
import Recourse.Solver.RunState

set_option autoImplicit false
set_option linter.unusedSectionVars false

namespace Recourse

namespace Program

section Required

variable {σ K : Type} [Scalar K]

/-- Probabilities that have to sum to one as they are. -/
theorem validate_leaves (p : Program σ K) : (validate (some false) : Edit σ K Unit).Ensures p
    (fun _ p' => p' = p ∧ 0 < p.scenarioCount ∧ isTotal p.totalProbability = true)
    fun _ p' => p' = p := by
  unfold validate
  refine Change.ensures_bind (Change.ensures_state ?_)
  split
  · exact Change.ensures_bind (Change.ensures_fail rfl)
  rename_i hnonempty
  dsimp only
  split
  · rename_i htotal
    exact Change.ensures_pure ⟨rfl, Nat.pos_of_ne_zero hnonempty, htotal⟩
  · simp only [Option.getD_some, Bool.not_false, Bool.true_or, if_true]
    exact Change.ensures_bind (Change.ensures_fail rfl)

/-- Probabilities that sum to one are never refused, and left as they are. -/
theorem validate_of_isTotal {p : Program σ K} (normalize : Option Bool)
    (hnonempty : 0 < p.scenarioCount) (htotal : isTotal p.totalProbability = true) :
    (validate normalize : Edit σ K Unit).Ensures p (fun _ p' => p' = p) fun _ _ => False := by
  unfold validate
  refine Change.ensures_bind (Change.ensures_state ?_)
  rw [if_neg hnonempty.ne']
  dsimp only
  rw [if_pos htotal]
  exact Change.ensures_pure rfl

/-- What was checked of a program whose first-stage model a solver gets.  The program is
left as it was, also where it is refused. -/
theorem requireSolvable_leaves (p : Program σ K) :
    (requireSolvable : Edit σ K (Model K)).Ensures p
      (fun master p' => p' = p ∧ p.isDeferred = false ∧ 0 < p.scenarioCount ∧
        isTotal p.totalProbability = true ∧ p.stageOneModel = .ok master ∧
        p.checkGoals master (List.range p.scenarioCount) = .ok ())
      fun _ p' => p' = p := by
  unfold requireSolvable
  refine Change.ensures_bind (Change.ensures_state ?_)
  split
  · exact Change.ensures_bind (Change.ensures_fail rfl)
  rename_i hdeferred
  refine Change.ensures_bind ((validate_leaves p).mono ?_ fun _ _ h => h)
  rintro _ _ ⟨rfl, hnonempty, htotal⟩
  refine Change.ensures_bind (Change.ensures_state (Change.ensures_lift_bind
    (fun master hmaster => ?_) fun _ => rfl))
  refine Change.ensures_lift_bind (fun _ hgoals => ?_) fun _ => rfl
  exact Change.ensures_pure ⟨rfl, by simpa using hdeferred, hnonempty, htotal, hmaster, hgoals⟩

end Required

variable {F : Type} [Field F] [LinearOrder F] [IsStrictOrderedRing F] [FloorRing F] {σ : Type}
  {p : Program σ (Exact F)}

theorem checkGoals_settles (hcurrent : p.isDeferred = false) (is : List Nat)
    (his : ∀ i ∈ is, i < p.scenarioCount) :
    Settles (p.checkGoals p.firstStage is)
      (fun _ => ∀ i ∈ is, (p.recourse i).goal = p.firstStage.goal) (fun _ => True) := by
  induction is with
  | nil => exact fun i hi => absurd hi List.not_mem_nil
  | cons i is ih =>
    unfold checkGoals
    rw [subproblemAt_eq hcurrent (his i List.mem_cons_self)]
    refine Settles.bind ?_
    show Settles (if _ then _ else _) _ _
    split
    · trivial
    · rename_i hgoal
      refine (ih fun j hj => his j (List.mem_cons_of_mem _ hj)).mono ?_ fun _ h => h
      intro _ hrest j hj
      rcases List.mem_cons.1 hj with rfl | hj
      · exact not_not.1 hgoal
      · exact hrest j hj

/-- A program that solvers accept is solvable, and it is left as it was. -/
theorem requireSolvable_ensures (p : Program σ (Exact F)) :
    (requireSolvable : Edit σ (Exact F) (Model (Exact F))).Ensures p
      (fun master p' => p' = p ∧ p.Solvable ∧ master = p.firstStage) (fun _ _ => True) := by
  refine (requireSolvable_leaves p).mono ?_ fun _ _ _ => trivial
  rintro master _ ⟨rfl, hcurrent, hnonempty, htotal, hmaster, hgoals⟩
  rw [stageOneModel_eq hcurrent] at hmaster
  cases hmaster
  have hsame := (checkGoals_settles hcurrent _ fun i hi => List.mem_range.1 hi).of_ok hgoals
  exact ⟨rfl, ⟨hcurrent, hnonempty, htotal, fun i hi => hsame i (List.mem_range.2 hi)⟩, rfl⟩

end Program

end Recourse
