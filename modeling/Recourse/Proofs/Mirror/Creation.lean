/-
  Proofs/Mirror/Creation.lean --- new programs with the sense turned.

  Programs are made from a setup and recipes: a program of one scenario from another
  program, and a program on a sample from a template.  Made with recipes for the images
  of the models, the new program is the image of the one that is made without.
-/
import Recourse.Proofs.Mirror.Program
import Recourse.Evaluation.Values

set_option autoImplicit false
set_option linter.unusedSectionVars false

namespace Recourse

variable {σ K : Type} [Scalar K]

/-- A template for the images of the models of another one. -/
def Template.mirror (t : Template σ K) : Template σ K :=
  { first := t.first.map FirstRecipe.mirror, second := t.second.map SecondRecipe.mirror }

namespace Program

/-- A program without recipes, models and solution is its own image. -/
theorem create_alike (s : Setup σ K) : (create s).Alike (create s) fun p p' => p' = p.mirror := by
  unfold create
  refine Act.alike_bind_map (Act.alike_lift (.refl _)) fun workers => ?_
  dsimp only
  split
  · exact Act.alike_fail (.refl _)
  · refine Act.alike_bind_map (Act.Alike.refl _) fun id => ?_
    refine Act.alike_pure ?_
    unfold Program.mirror
    rw [List.map_map]
    rfl

/-! ## Scenarios -/

theorem extend_mirror (q : Partition K) (scenarios : List (Scenario K)) :
    q.mirror.extend scenarios = (q.extend scenarios).mirror := by
  unfold Partition.extend Partition.mirror
  rw [List.map_append, List.map_map]
  rfl

theorem extendAt_mirror (k : Nat) (scenarios : List (Scenario K)) (p : Program σ K) :
    extendAt k scenarios p.mirror = (extendAt k scenarios p).mirror := by
  unfold extendAt
  rw [show p.mirror.partitions = p.partitions.map Partition.mirror from rfl,
    modify_map_eq fun q => extend_mirror q scenarios]
  rfl

theorem extendEach_mirror (partitions : List (Partition K)) (counts : List Nat)
    (scenarios : List (Scenario K)) :
    extendEach (partitions.map Partition.mirror) counts scenarios =
      (extendEach partitions counts scenarios).map Partition.mirror := by
  induction partitions generalizing counts scenarios with
  | nil => rfl
  | cons q partitions ih =>
    cases counts with
    | nil => rfl
    | cons n counts =>
      rw [List.map_cons, extendEach, extendEach, extend_mirror, ih]
      rfl

theorem hasRecipes_mirror (p : Program σ K) : p.mirror.hasRecipes = p.hasRecipes := by
  show ((p.firstRecipe.map _).isSome && (p.secondRecipe.map _).isSome) = _
  rw [Option.isSome_map, Option.isSome_map]
  rfl

theorem finishAdding_even (defer : Bool) :
    Even (finishAdding defer : Edit σ K Unit) (finishAdding defer) := by
  unfold finishAdding
  refine Change.alike_bind_map (Change.alike_update fun _ => rfl) fun _ => ?_
  refine Change.alike_bind_map Change.alike_state fun p => ?_
  rw [hasRecipes_mirror]
  split
  · exact generate_even
  · exact Change.alike_pure rfl

/-- Scenarios appended to a partition, and what follows. -/
theorem extendAt_even (k : Nat) (scenarios : List (Scenario K)) (defer : Bool) :
    Even (σ := σ) (do
        Change.update (extendAt k scenarios)
        finishAdding defer)
      (do
        Change.update (extendAt k scenarios)
        finishAdding defer) := by
  refine Change.alike_bind_map (Change.alike_update (extendAt_mirror k scenarios)) fun _ => ?_
  exact finishAdding_even defer

theorem checkWorker_mirror (p : Program σ K) (worker : Setting K) :
    p.mirror.checkWorker worker = p.checkWorker worker := by
  unfold checkWorker
  rw [show p.mirror.partitions.length = p.partitions.length from List.length_map _]

theorem add_even (offered : Offered K) (worker : Option (Setting K)) (defer : Bool) :
    Even (add offered worker defer : Edit σ K Unit) (add offered worker defer) := by
  unfold add
  refine Change.alike_bind_map Change.alike_state fun p => ?_
  rw [partitionSizes_mirror, show p.mirror.schema = p.schema from rfl]
  cases worker with
  | none =>
    refine Change.alike_bind_map (Change.alike_lift (.refl _)) fun least => ?_
    refine Change.alike_bind_map (Change.alike_lift (.refl _)) fun accepted => ?_
    refine Change.alike_bind_map (Change.alike_update fun _ => rfl) fun _ => ?_
    refine Change.alike_bind (R := fun k k' => k' = k) (Change.alike_pure rfl) ?_
    rintro _ k rfl
    exact extendAt_even k accepted.2 defer
  | some worker =>
    dsimp only
    rw [checkWorker_mirror]
    refine Change.alike_bind_map (Change.alike_lift (.refl _)) fun _ => ?_
    refine Change.alike_bind (R := fun k k' => k' = k) (Change.alike_pure rfl) ?_
    rintro _ _ rfl
    refine Change.alike_bind_map (Change.alike_lift (.refl _)) fun accepted => ?_
    refine Change.alike_bind_map (Change.alike_update fun _ => rfl) fun _ => ?_
    refine Change.alike_bind_map (Change.alike_lift (.refl _)) fun k => ?_
    exact extendAt_even k accepted.2 defer

theorem addAll_even (offered : List (Offered K)) (worker : Option (Setting K)) (defer : Bool) :
    Even (addAll offered worker defer : Edit σ K Unit) (addAll offered worker defer) := by
  unfold addAll
  split
  · exact Change.alike_pure rfl
  refine Change.alike_bind_map Change.alike_state fun p => ?_
  rw [show p.mirror.schema = p.schema from rfl]
  cases worker with
  | none =>
    rw [partitionSizes_mirror]
    refine Change.alike_bind_map (Change.alike_lift (.refl _)) fun accepted => ?_
    refine Change.alike_bind_map (Change.alike_update fun _ => rfl) fun _ => ?_
    refine Change.alike_bind_map (Change.alike_lift (.refl _)) fun counts => ?_
    refine Change.alike_bind (Change.alike_update fun q => ?_) ?_
    · rw [show q.mirror.partitions = q.partitions.map Partition.mirror from rfl,
        extendEach_mirror]
      rfl
    · rintro _ _ rfl
      exact finishAdding_even defer
  | some worker =>
    dsimp only
    rw [checkWorker_mirror]
    refine Change.alike_bind_map (Change.alike_lift (.refl _)) fun _ => ?_
    refine Change.alike_bind_map (Change.alike_lift (.refl _)) fun accepted => ?_
    refine Change.alike_bind_map (Change.alike_update fun _ => rfl) fun _ => ?_
    refine Change.alike_bind_map (Change.alike_lift (.refl _)) fun k => ?_
    exact extendAt_even k accepted.2 defer

/-! ## One scenario -/

theorem restricted_alike (p : Program σ K) (s : Scenario K) :
    (p.restricted s).Alike (p.mirror.restricted s) fun q q' => q' = q.mirror := by
  unfold restricted
  rw [show p.mirror.firstRecipe = p.firstRecipe.map FirstRecipe.mirror from rfl,
    show p.mirror.secondRecipe = p.secondRecipe.map SecondRecipe.mirror from rfl]
  cases p.firstRecipe with
  | none => exact Act.alike_fail (.refl _)
  | some first =>
    cases p.secondRecipe with
    | none => exact Act.alike_fail (.refl _)
    | some second =>
      refine Act.alike_bind_map (create_alike p.restrictedSetup) fun single => ?_
      refine Change.alike_apply_bind (R := fun a b => b = a) ?_ single
        fun _ _ _ _ => Act.alike_pure rfl
      refine Change.alike_bind_map (setRecipe_first_even first) fun _ => ?_
      refine Change.alike_bind_map (setRecipe_second_even second) fun _ => ?_
      refine Change.alike_bind_map (Change.alike_lift (.refl _)) fun weighed => ?_
      refine Change.alike_bind_map (add_even _ _ _) fun _ => ?_
      exact generate_even

/-- The expected scenario has no sense. -/
theorem expectedScenario_mirror (p : Program σ K) :
    p.mirror.expectedScenario = p.expectedScenario := by
  have hpartition (q : Partition K) : q.mirror.partialExpectation = q.partialExpectation := by
    have hempty : q.mirror.slots.isEmpty = q.slots.isEmpty := List.isEmpty_map
    have hmass : q.mirror.mass = q.mass := congrArg Scenario.mass q.scenarios_mirror
    unfold Partition.partialExpectation
    rw [hempty, hmass, Partition.scenarios_mirror]
  unfold expectedScenario
  rw [scenarioCount_mirror, show p.mirror.partitions = p.partitions.map Partition.mirror from rfl,
    Transport.map_comp]
  simp only [hpartition]
  rfl

theorem expectedProgram_alike (p : Program σ K) :
    p.expectedProgram.Alike p.mirror.expectedProgram fun q q' => q' = q.mirror := by
  unfold expectedProgram
  rw [expectedScenario_mirror]
  refine Act.alike_bind_map (Act.Alike.refl _) fun s => ?_
  exact p.restricted_alike s

end Program

/-! ## Templates -/

theorem Template.instantiate_alike (t : Template σ K) (s : Program.Setup σ K)
    (scenarios : List (Scenario K)) (defer : Bool) :
    (t.instantiate s scenarios defer).Alike (t.mirror.instantiate s scenarios defer)
      fun p p' => p' = p.mirror := by
  unfold Template.instantiate
  rw [show t.mirror.first = t.first.map FirstRecipe.mirror from rfl,
    show t.mirror.second = t.second.map SecondRecipe.mirror from rfl]
  cases t.first with
  | none => exact Act.alike_fail (.refl _)
  | some first =>
    cases t.second with
    | none => exact Act.alike_fail (.refl _)
    | some second =>
      refine Act.alike_bind_map (Program.create_alike s) fun p => ?_
      refine Change.alike_apply_bind (R := fun a b => b = a) ?_ p
        fun _ _ _ _ => Act.alike_pure rfl
      refine Change.alike_bind_map (Program.setRecipe_first_even first) fun _ => ?_
      refine Change.alike_bind_map (Program.setRecipe_second_even second) fun _ => ?_
      refine Change.alike_bind_map (Program.addAll_even _ _ _) fun _ => ?_
      split
      · exact Program.generate_even
      · exact Change.alike_pure rfl

end Recourse
