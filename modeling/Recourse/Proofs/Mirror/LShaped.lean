/-
  Proofs/Mirror/LShaped.lean --- the L-shaped method with the sense turned.

  The master problem is kept in minimization form, so a run on the image of a program
  has the same master problem, the same cuts and the same bounds; only what it keeps in
  the sense of the program is exchanged with its opposite.  A round at a decision is the
  image of the round of the program there, and the sign that turns with the sense makes
  the same cut and the same value of it.  Every step keeps a state and its image alike,
  and so does a whole run.
-/
import Recourse.Proofs.Mirror.Extensive
import Recourse.LShaped.Step

set_option autoImplicit false
set_option linter.unusedSectionVars false

namespace Recourse

variable {σ K : Type} [Scalar K]

/-! ## Mirror images -/

/-- The opposite outcome. -/
def Outcome.mirror (o : Outcome K) : Outcome K :=
  { o with
    objective := -o.objective
    gradient := Scalar.negated o.gradient
    result := o.result.mirror }

/-- A round with the opposite outcomes. -/
def Round.mirror (r : Round K) : Round K := { r with outcomes := r.outcomes.map Outcome.mirror }

namespace LShaped

/-- The best decision with the opposite outcomes. -/
def Incumbent.mirror (i : Incumbent K) : Incumbent K := { i with round := i.round.mirror }

/-- A run with what it keeps in the sense of the program exchanged with its opposite.  The
master problem, its solutions, cuts and bounds are in minimization form and stay. -/
def State.mirror (s : State K) : State K :=
  { s with
    toRunState := s.toRunState.mirror
    round := s.round.map Round.mirror
    incumbent := s.incumbent.map Incumbent.mirror }

end LShaped

/-! ## Rounds -/

theorem Sorting.sorted_map {α β : Type} (atMost : α → α → Bool) (atMost' : β → β → Bool)
    {g : α → β} (h : ∀ a b, atMost' (g a) (g b) = atMost a b) (xs : List α) :
    sorted atMost' (xs.map g) = (sorted atMost xs).map g := by
  have hplace (a : α) (ys : List α) :
      place atMost' (g a) (ys.map g) = (place atMost a ys).map g := by
    induction ys with
    | nil => rfl
    | cons b ys ih =>
      rw [List.map_cons, place, place, h, ih]
      split <;> rfl
  induction xs with
  | nil => rfl
  | cons a xs ih => rw [List.map_cons, sorted, sorted, ih, hplace]

/-- The results of the image of a round are the images of its results. -/
theorem Round.results_mirror (r : Round K) :
    r.mirror.results = r.results.map SolveResult.mirror := by
  unfold Round.results Round.mirror
  rw [Sorting.sorted_map (fun a b => decide (a.index ≤ b.index)) _ fun _ _ => rfl, List.map_map,
    List.map_map]
  rfl

variable [Scalar.Symmetric K]

theorem Round.expectedRecourse_mirror (r : Round K) :
    r.mirror.expectedRecourse = -r.expectedRecourse := by
  unfold Round.expectedRecourse Round.mirror
  rw [List.map_map, ← Scalar.sum_map_neg]
  exact congrArg (fun f => Scalar.sum (r.outcomes.map f))
    (funext fun o => Scalar.Symmetric.mul_neg o.probability o.objective)

namespace Program

variable [Host σ K]

/-- What a scenario answers at a decision. -/
theorem answer_alike {b : Backend σ K} (hb : b.Even) (x : List K) (i : Int) (s : Scenario K)
    (m : Option (Model K)) : (answer b x i s m).Alike (answer b x i s (m.map Model.mirror))
      fun a a' => a' = a.map Outcome.mirror fun f => f := by
  unfold answer
  cases m with
  | none => exact Act.alike_fail (.refl _)
  | some m =>
    refine Act.alike_bind (R := fun m m' => m' = m.mirror) (Act.alike_pure rfl) ?_
    rintro m _ rfl
    refine Act.alike_bind_map (Backend.optimize_mirror hb m (some x)) fun r => ?_
    rw [show r.mirror.status = r.status from rfl]
    split
    · exact Act.alike_pure rfl
    · refine Act.alike_bind_map (Act.alike_lift (.of_eq (m.recourseGradient_mirror r x.length)))
        fun g => ?_
      exact Act.alike_pure rfl

/-- The round of the image of a program is the image of its round. -/
theorem solveRound_alike {b : Backend σ K} (hb : b.Even) (p : Program σ K) (x : List K) :
    (p.solveRound b x).Alike (p.mirror.solveRound b x) fun r r' => r' = r.mirror := by
  unfold solveRound
  refine Act.alike_bind_map (collect_alike (answer_alike hb x) p true) fun answers => ?_
  refine Act.alike_pure ?_
  unfold Round.ofAnswers Round.mirror
  rw [List.filterMap_map, List.filterMap_map, List.map_filterMap]
  have houtcome (a : Outcome K ⊕ RoundFailure K) :
      (a.map Outcome.mirror fun f => f).getLeft? = a.getLeft?.map Outcome.mirror := by
    cases a <;> rfl
  have hfailure (a : Outcome K ⊕ RoundFailure K) :
      (a.map Outcome.mirror fun f => f).getRight? = a.getRight? := by
    cases a <;> rfl
  simp only [Function.comp_def, houtcome, hfailure]

end Program

/-- In minimization form both are the same. -/
theorem StandardForm.minimized_mirror (f : StandardForm K) : f.mirror.minimized = f.minimized := by
  have hcost : Scalar.scale f.mirror.sign f.mirror.cost = Scalar.scale f.sign f.cost :=
    congrArg LinearProgram.cost f.toProgram_mirror
  have hconstant : f.mirror.sign * f.mirror.constant = f.sign * f.constant := by
    show f.goal.flip.sign * -f.constant = f.goal.sign * f.constant
    rw [Goal.sign_flip, Scalar.Symmetric.neg_mul, Scalar.Symmetric.mul_neg,
      Scalar.Symmetric.neg_neg]
  unfold StandardForm.minimized
  rw [hcost, hconstant]
  rfl

namespace LShaped

/-! ## Cuts and values -/

/-- A sign that turns with the sense makes the same cut of the opposite outcomes. -/
theorem optimalityCut_mirror (sign : K) (x : List K) (outcomes : List (Outcome K)) :
    optimalityCut (-sign) x (outcomes.map Outcome.mirror) = optimalityCut sign x outcomes := by
  have hweighed : (outcomes.map Outcome.mirror).map
      (fun o => Scalar.scale o.probability o.gradient) =
        (outcomes.map fun o => Scalar.scale o.probability o.gradient).map Scalar.negated := by
    rw [List.map_map, List.map_map]
    exact congrArg (List.map · outcomes)
      (funext fun o => Scalar.scale_negated o.probability o.gradient)
  have hsum (gradients : List (List K)) (g : List K) :
      (gradients.map Scalar.negated).foldl (List.zipWith (· + ·)) (Scalar.negated g) =
        Scalar.negated (gradients.foldl (List.zipWith (· + ·)) g) := by
    induction gradients generalizing g with
    | nil => rfl
    | cons h gradients ih =>
      rw [List.map_cons, List.foldl_cons, List.foldl_cons, Scalar.zipWith_add_negated, ih]
  have hzeros := hsum (outcomes.map fun o => Scalar.scale o.probability o.gradient)
    (Scalar.zeros x.length)
  rw [Scalar.negated_zeros, ← hweighed] at hzeros
  have hvalue : Scalar.sum ((outcomes.map Outcome.mirror).map fun o =>
      o.probability * o.objective) =
        -Scalar.sum (outcomes.map fun o => o.probability * o.objective) := by
    rw [List.map_map, ← Scalar.sum_map_neg]
    exact congrArg (fun f => Scalar.sum (outcomes.map f))
      (funext fun o => Scalar.Symmetric.mul_neg o.probability o.objective)
  have hscenarios : (outcomes.map Outcome.mirror).map (·.index) = outcomes.map (·.index) :=
    List.map_map
  unfold optimalityCut
  dsimp only
  rw [hzeros, hvalue, hscenarios, Scalar.scale_neg, Scalar.scale_negated, Scalar.negated_negated,
    Scalar.Symmetric.neg_mul, Scalar.Symmetric.mul_neg, Scalar.Symmetric.neg_neg]

/-- A decision has the same value in minimization form. -/
theorem valueOf_mirror (s : State K) (r : Round K) :
    valueOf s.mirror r.mirror = valueOf s r := by
  show Scalar.dot s.first.cost r.decision + s.first.constant +
    -s.sign * r.mirror.expectedRecourse = _
  rw [Round.expectedRecourse_mirror, Scalar.Symmetric.neg_mul, Scalar.Symmetric.mul_neg,
    Scalar.Symmetric.neg_neg]
  rfl

theorem improve_mirror (r : Round K) (master : SolveResult K) (s : State K) :
    improve r.mirror master s.mirror = (improve r master s).mirror := by
  unfold improve
  rw [valueOf_mirror]
  show (if Scalar.less (valueOf s r) s.upperBound = true then _ else _) =
    State.mirror (if Scalar.less (valueOf s r) s.upperBound = true then _ else _)
  split <;> rfl

theorem conclude_mirror (i : Incumbent K) (latest : SolveResult K) (seconds : K) (s : State K) :
    conclude i.mirror latest seconds s.mirror = (conclude i latest seconds s).mirror := by
  unfold conclude
  simp only [State.mirror, RunState.mirror, Incumbent.mirror, SolveResult.mirror,
    Scalar.scale_neg, Scalar.Symmetric.neg_mul, Round.results_mirror, Option.map_some]
  rfl

/-! ## Phases -/

/-- A part of a run that keeps a state and its image alike, with one result for both. -/
abbrev Even {α : Type} (c c' : Run σ K α) : Prop := c.Alike State.mirror c' fun a b => b = a

variable [Host σ K]

theorem build_alike (m : LShaped σ K) : (build m).Alike Program.mirror (build m)
    fun s s' => s' = s.mirror := by
  unfold build
  refine Change.alike_bind_map Program.requireSolvable_alike fun master => ?_
  refine Change.alike_bind_map (Change.alike_lift (.of_eq (master.standardForm_mirror none)))
    fun form => ?_
  refine Change.alike_bind_map Change.alike_state fun p => ?_
  refine Change.alike_bind_map (Change.alike_ofAct (.refl _)) fun started => ?_
  refine Change.alike_pure ?_
  have hrun := RunState.fresh_mirror p.id (master.goal.sign : K) started
  rw [← Goal.sign_flip] at hrun
  rw [form.minimized_mirror, Program.scenarioCount_mirror,
    show master.mirror.goal = master.goal.flip from rfl, show p.mirror.id = p.id from rfl, hrun]
  rfl

theorem finish_even (status : Status) : Even (finish (σ := σ) (K := K) status) (finish status) := by
  unfold finish
  refine Change.alike_bind_map (Change.alike_update fun _ => rfl) fun _ => ?_
  exact Change.alike_pure rfl

/-- The master problem of a run and of its image is the same. -/
theorem masterSolve_even (m : LShaped σ K) : Even (masterSolve m) (masterSolve m) := by
  unfold masterSolve
  refine Change.alike_bind_map Change.alike_state fun s => ?_
  rw [show s.mirror.iterations = s.iterations from rfl]
  split
  · exact finish_even _
  · refine Change.alike_bind_map (Change.alike_update fun _ => rfl) fun _ => ?_
    refine Change.alike_bind_map (Change.alike_ofAct (.refl _)) fun free => ?_
    refine Change.alike_bind_map (Change.alike_update fun _ => rfl) fun _ => ?_
    dsimp only
    split
    on_goal 1 => refine Change.alike_bind_map (Change.alike_ofAct (.refl _)) fun r => ?_
    on_goal 2 => rw [pure_bind]
    -- A run goes on in the same way from a solution in the box as from one without it.
    all_goals
      split
      · refine Change.alike_bind_map (Change.alike_update fun _ => rfl) fun _ => ?_
        exact Change.alike_pure rfl
      · exact finish_even _
      · exact finish_even _
      · exact Change.alike_fail (.refl _)

theorem broadcast_even : Even (broadcast : Run σ K Phase) broadcast := by
  unfold broadcast
  refine Change.alike_bind_map (Change.alike_update fun _ => rfl) fun _ => ?_
  exact Change.alike_pure rfl

theorem subproblemSolve_even {m : LShaped σ K} (hm : m.backend.Even) (p : Program σ K) :
    Even (subproblemSolve m p) (subproblemSolve m p.mirror) := by
  unfold subproblemSolve
  refine Change.alike_bind_map Change.alike_state fun s => ?_
  rw [show s.mirror.round = s.round.map Round.mirror from rfl]
  cases s.round with
  | none => exact Change.alike_fail (.refl _)
  | some announced =>
    refine Change.alike_bind_map
        (Change.alike_ofAct (Program.solveRound_alike hm p announced.decision))
      fun round => ?_
    refine Change.alike_bind_map (Change.alike_update fun _ => rfl) fun _ => ?_
    exact Change.alike_pure rfl

theorem handleFailure_even (m : LShaped σ K) (p : Program σ K) (x : List K) (f : RoundFailure K) :
    Even (handleFailure m p x f) (handleFailure m p.mirror x f) := by
  unfold handleFailure
  refine Change.alike_bind_map Change.alike_state fun s => ?_
  dsimp only
  split
  · split
    · exact Change.alike_pure rfl
    · refine Change.alike_bind_map (Change.alike_lift (.of_eq (p.subproblem_mirror _)))
        fun sub => ?_
      rw [sub.phaseOne_mirror]
      refine Change.alike_bind_map (Change.alike_ofAct (.refl _)) fun violation => ?_
      split
      · exact Change.alike_fail (.refl _)
      · refine Change.alike_bind_map (Change.alike_update fun _ => rfl) fun _ => ?_
        exact Change.alike_pure rfl
  · exact Change.alike_pure rfl
  · exact Change.alike_fail (.refl _)

theorem handleFailures_even (m : LShaped σ K) (p : Program σ K) (x : List K)
    (fs : List (RoundFailure K)) :
    Even (handleFailures m p x fs) (handleFailures m p.mirror x fs) := by
  induction fs with
  | nil => exact Change.alike_pure rfl
  | cons f fs ih =>
    rw [handleFailures, handleFailures]
    refine Change.alike_bind_map (handleFailure_even m p x f) fun status => ?_
    cases status with
    | none => exact ih
    | some status => exact finish_even status

theorem addOptimalityCut_even (m : LShaped σ K) (x recourse : List K) (i : Nat)
    (outcomes : List (Outcome K)) : Even (addOptimalityCut m x recourse (i, outcomes))
      (addOptimalityCut m x recourse (i, outcomes.map Outcome.mirror)) := by
  unfold addOptimalityCut
  refine Change.alike_bind_map Change.alike_state fun s => ?_
  rw [show s.mirror.sign = -s.sign from rfl, optimalityCut_mirror]
  dsimp only
  refine Change.alike_bind_map (Change.alike_lift (.refl _)) fun value => ?_
  rw [show s.mirror.active = s.active from rfl]
  split
  · exact Change.alike_pure rfl
  · refine Change.alike_bind_map (Change.alike_update fun _ => rfl) fun _ => ?_
    exact Change.alike_pure rfl

theorem addOptimalityCuts_even (m : LShaped σ K) (x recourse : List K)
    (groups : List (Nat × List (Outcome K))) : Even (addOptimalityCuts m x recourse groups)
      (addOptimalityCuts m x recourse (groups.map fun g => (g.1, g.2.map Outcome.mirror))) := by
  induction groups with
  | nil => exact Change.alike_pure rfl
  | cons g groups ih =>
    rw [List.map_cons, addOptimalityCuts, addOptimalityCuts]
    refine Change.alike_bind_map (addOptimalityCut_even m x recourse g.1 g.2) fun added => ?_
    refine Change.alike_bind_map ih fun others => ?_
    exact Change.alike_pure rfl

theorem groups_mirror (multicut : Bool) (outcomes : List (Outcome K)) :
    groups multicut (outcomes.map Outcome.mirror) =
      (groups multicut outcomes).map fun g => (g.1, g.2.map Outcome.mirror) := by
  unfold groups
  split
  · rw [List.map_map, List.map_map]
    rfl
  · rfl

theorem aggregate_even (m : LShaped σ K) (p : Program σ K) :
    Even (aggregate m p) (aggregate m p.mirror) := by
  unfold aggregate
  refine Change.alike_bind_map Change.alike_state fun s => ?_
  refine Change.alike_bind_map (Change.alike_update fun _ => rfl) fun _ => ?_
  rw [show s.mirror.round = s.round.map Round.mirror from rfl,
    show s.mirror.masterSolution = s.masterSolution from rfl]
  cases s.round with
  | none => exact Change.alike_fail (.refl _)
  | some r =>
    cases s.masterSolution with
    | none => exact Change.alike_fail (.refl _)
    | some master =>
      dsimp only [Option.map_some]
      rw [show r.mirror.isComplete = r.isComplete from rfl]
      split
      · exact handleFailures_even m p r.decision r.failures
      · refine Change.alike_bind_map (Change.alike_update (improve_mirror r master)) fun _ => ?_
        rw [show r.mirror.outcomes = r.outcomes.map Outcome.mirror from rfl, groups_mirror]
        refine Change.alike_bind_map (addOptimalityCuts_even m r.decision _ _) fun added => ?_
        refine Change.alike_bind_map Change.alike_state fun t => ?_
        rw [show t.mirror.allActive = t.allActive from rfl, show t.mirror.gap = t.gap from rfl,
          show t.mirror.boxed = t.boxed from rfl]
        split
        · split
          · exact finish_even _
          · exact Change.alike_pure rfl
        · exact Change.alike_pure rfl

theorem converge_even : Even (converge : Run σ K Phase) converge := by
  unfold converge
  refine Change.alike_bind_map Change.alike_state fun s => ?_
  rw [show s.mirror.incumbent = s.incumbent.map Incumbent.mirror from rfl,
    show s.mirror.masterSolution = s.masterSolution from rfl]
  cases s.incumbent with
  | none => exact Change.alike_fail (.refl _)
  | some i =>
    cases s.masterSolution with
    | none => exact Change.alike_fail (.refl _)
    | some latest =>
      refine Change.alike_bind_map (Change.alike_ofAct (.refl _)) fun now => ?_
      refine Change.alike_bind_map (Change.alike_update fun t => conclude_mirror i latest _ t)
        fun _ => ?_
      exact finish_even .optimal

/-! ## Steps -/

theorem outOfTime_even (m : LShaped σ K) : Even (outOfTime m) (outOfTime m) := by
  unfold outOfTime
  cases m.rules.timeLimit with
  | none => exact Change.alike_pure rfl
  | some limit =>
    refine Change.alike_bind_map (Change.alike_ofAct (.refl _)) fun now => ?_
    refine Change.alike_bind_map Change.alike_state fun s => ?_
    exact Change.alike_pure rfl

theorem runPhase_even {m : LShaped σ K} (hm : m.backend.Even) (p : Program σ K) (phase : Phase) :
    Even (runPhase m p phase) (runPhase m p.mirror phase) := by
  cases phase with
  | init =>
    refine Change.alike_bind_map (Change.alike_update fun _ => rfl) fun _ => ?_
    exact Change.alike_pure rfl
  | masterSolve => exact masterSolve_even m
  | broadcast => exact broadcast_even
  | subproblemSolve => exact subproblemSolve_even hm p
  | aggregate => exact aggregate_even m p
  | converged => exact converge_even
  | terminated => exact Change.alike_fail (.refl _)

/-- One step keeps a state and its image alike. -/
theorem step_even {m : LShaped σ K} (hm : m.backend.Even) (p : Program σ K) :
    Even (step m p) (step m p.mirror) := by
  have hphase (next : Phase) : Even (σ := σ) (K := K)
      (do
        Change.update fun s => { s with phase := next }
        return next)
      (do
        Change.update fun s => { s with phase := next }
        return next) := by
    refine Change.alike_bind_map (Change.alike_update fun _ => rfl) fun _ => ?_
    exact Change.alike_pure rfl
  unfold step
  refine Change.alike_bind_map Change.alike_state fun s => ?_
  rw [show s.mirror.isDone = s.isDone from rfl, show s.mirror.cancelled = s.cancelled from rfl,
    show s.mirror.phase = s.phase from rfl]
  dsimp only
  split
  · exact Change.alike_pure rfl
  · split
    · refine Change.alike_bind_map (Change.alike_update fun _ => rfl) fun _ => ?_
      refine Change.alike_bind_map (finish_even _) fun next => ?_
      exact hphase next
    · refine Change.alike_bind_map (outOfTime_even m) fun late => ?_
      split
      · refine Change.alike_bind_map (finish_even _) fun next => ?_
        exact hphase next
      · refine Change.alike_bind_map (runPhase_even hm p s.phase) fun next => ?_
        exact hphase next

/-- So does any number of steps. -/
theorem runSteps_even {m : LShaped σ K} (hm : m.backend.Even) (p : Program σ K) (n : Nat) :
    Even (runSteps m p n) (runSteps m p.mirror n) := by
  induction n with
  | zero => exact Change.alike_pure rfl
  | succ n ih =>
    rw [runSteps, runSteps]
    refine Change.alike_bind_map Change.alike_state fun s => ?_
    rw [show s.mirror.isDone = s.isDone from rfl]
    split
    · exact Change.alike_pure rfl
    · refine Change.alike_bind_map (step_even hm p) fun _ => ?_
      exact ih

theorem run_even {m : LShaped σ K} (hm : m.backend.Even) (p : Program σ K) :
    Even (run m p) (run m p.mirror) := by
  unfold run
  refine Change.alike_bind_map (runSteps_even hm p _) fun _ => ?_
  refine Change.alike_bind_map Change.alike_state fun s => ?_
  exact Change.alike_pure rfl

end LShaped

end Recourse
