/-
  Proofs/Mirror/Program.lean --- programs with their sense turned.

  The mirror image of a program has recipes that build the images of the models, the
  images of the models that are built already, and a committed solution with the
  opposite value.  Scenarios, data and epochs stay, so whatever only looks at those
  gives the same.  Building and weighing keep a program and its image alike, and so does
  a job on every scenario that keeps the subproblem and its image alike.
-/
import Recourse.Proofs.Mirror.Model
import Recourse.Solver.RunState

set_option autoImplicit false
set_option linter.unusedSectionVars false

namespace Recourse

variable {σ K α β : Type} [Scalar K]

/-! ## Mirror images -/

/-- What a recipe gives, with the sense of a model turned. -/
def Product.mirror : Product K → Product K
  | .model m => .model m.mirror
  | .value v => .value v

/-- A recipe for the images of the models of another one. -/
def FirstRecipe.mirror (r : FirstRecipe σ K) : FirstRecipe σ K :=
  { r with build := fun data => Product.mirror <$> r.build data }

/-- A recipe for the images of the models of another one. -/
def SecondRecipe.mirror (r : SecondRecipe σ K) : SecondRecipe σ K :=
  { r with build := fun data decisions payload =>
      Product.mirror <$> r.build data decisions payload }

/-- A slot with the image of its subproblem. -/
def Slot.mirror (s : Slot K) : Slot K :=
  { s with built := s.built.map fun b => (b.1.mirror, b.2) }

/-- A partition with the images of its subproblems. -/
def Partition.mirror (q : Partition K) : Partition K := { q with slots := q.slots.map Slot.mirror }

/-- A solution with the numbers of the objective's sense exchanged with their opposites. -/
def Solution.mirror (s : Solution K) : Solution K :=
  { s with
    objective := -s.objective
    reducedCosts := Scalar.negated s.reducedCosts
    duals := Scalar.negated s.duals }

/-- The program with every objective of both stages exchanged with its opposite, and every
sense turned. -/
def Program.mirror (p : Program σ K) : Program σ K :=
  { p with
    firstRecipe := p.firstRecipe.map FirstRecipe.mirror
    secondRecipe := p.secondRecipe.map SecondRecipe.mirror
    master := p.master.map fun b => (b.1.mirror, b.2)
    partitions := p.partitions.map Partition.mirror
    solution := p.solution.map Solution.mirror }

/-! ## Looking at a program -/

theorem Slot.isCurrent_mirror (s : Slot K) (epoch : Int) :
    s.mirror.isCurrent epoch = s.isCurrent epoch := by
  unfold Slot.isCurrent Slot.mirror
  cases s.built <;> rfl

theorem Slot.isStale_mirror (s : Slot K) (epoch : Int) :
    s.mirror.isStale epoch = s.isStale epoch := by
  unfold Slot.isStale Slot.mirror
  cases s.built <;> rfl

namespace Partition

@[simp] theorem size_mirror (q : Partition K) : q.mirror.size = q.size := List.length_map _

@[simp] theorem scenarios_mirror (q : Partition K) : q.mirror.scenarios = q.scenarios :=
  List.map_map

@[simp] theorem isGenerated_mirror (q : Partition K) (epoch : Int) :
    q.mirror.isGenerated epoch = q.isGenerated epoch := by
  unfold Partition.isGenerated Partition.mirror
  rw [List.all_map]
  exact congrArg (List.all q.slots) (funext fun s => s.isCurrent_mirror epoch)

theorem slot_mirror (q : Partition K) (i : Int) (what : Indexed) :
    q.mirror.slot i what = (q.slot i what).map Slot.mirror := by
  unfold Partition.slot
  rw [size_mirror]
  by_cases hi : 0 ≤ i
  · rw [if_pos hi, if_pos hi]
    have hslots : q.mirror.slots = q.slots.map Slot.mirror := rfl
    rw [hslots, List.getElem?_map]
    cases q.slots[i.toNat]? <;> rfl
  · rw [if_neg hi, if_neg hi]
    rfl

theorem subproblem_mirror (q : Partition K) (i epoch : Int) :
    q.mirror.subproblem i epoch = (q.subproblem i epoch).map Model.mirror := by
  unfold Partition.subproblem
  rw [slot_mirror]
  cases q.slot i .subproblem with
  | error f => rfl
  | ok s =>
    obtain ⟨scenario, _ | ⟨m, e⟩⟩ := s
    · rfl
    · show (if e = epoch then _ else _ : Except (Fault K) (Model K)) = Except.map Model.mirror
        (if e = epoch then _ else _)
      split <;> rfl

end Partition

namespace Program

@[simp] theorem slots_mirror (p : Program σ K) : p.mirror.slots = p.slots.map Slot.mirror := by
  unfold Program.slots Program.mirror
  rw [List.flatMap_map, List.map_flatMap]
  rfl

@[simp] theorem scenarios_mirror (p : Program σ K) : p.mirror.scenarios = p.scenarios := by
  unfold Program.scenarios
  rw [slots_mirror, List.map_map]
  rfl

@[simp] theorem scenarioCount_mirror (p : Program σ K) :
    p.mirror.scenarioCount = p.scenarioCount := by
  unfold Program.scenarioCount
  rw [slots_mirror, List.length_map]

@[simp] theorem probabilities_mirror (p : Program σ K) :
    p.mirror.probabilities = p.probabilities := by
  unfold Program.probabilities
  rw [scenarios_mirror]

@[simp] theorem partitionSizes_mirror (p : Program σ K) :
    p.mirror.partitionSizes = p.partitionSizes := by
  unfold Program.partitionSizes Program.mirror
  rw [List.map_map]
  exact congrArg (List.map · p.partitions) (funext Partition.size_mirror)

@[simp] theorem totalProbability_mirror (p : Program σ K) :
    p.mirror.totalProbability = p.totalProbability := by
  have hmass : Partition.mass ∘ Partition.mirror = (Partition.mass : Partition K → K) :=
    funext fun q => congrArg Scenario.mass q.scenarios_mirror
  unfold Program.totalProbability Program.mirror
  rw [List.map_map, hmass]

theorem placed_mirror (p : Program σ K) :
    p.mirror.placed = p.placed.map fun q => (q.1.mirror, q.2) := by
  unfold Program.placed
  rw [partitionSizes_mirror]
  exact List.zip_map_left

theorem currentMaster?_mirror (p : Program σ K) :
    p.mirror.currentMaster? = p.currentMaster?.map Model.mirror := by
  unfold Program.currentMaster? Program.mirror
  rcases p.master with _ | ⟨m, e⟩
  · rfl
  · show (if e = p.firstEpoch then _ else _) = Option.map Model.mirror (if _ then _ else _)
    split <;> rfl

theorem stageOneModel_mirror (p : Program σ K) :
    p.mirror.stageOneModel = p.stageOneModel.map Model.mirror := by
  unfold Program.stageOneModel
  rw [currentMaster?_mirror]
  cases p.currentMaster? <;> rfl

theorem firstState_mirror (p : Program σ K) : p.mirror.firstState = p.firstState := by
  have hrecipe : p.mirror.firstRecipe.isNone = p.firstRecipe.isNone := Option.isNone_map
  unfold Program.firstState
  rw [hrecipe]
  unfold Program.mirror
  rcases p.master with _ | b <;> rfl

theorem secondState_mirror (p : Program σ K) : p.mirror.secondState = p.secondState := by
  have hrecipe : p.mirror.secondRecipe.isNone = p.secondRecipe.isNone := Option.isNone_map
  have hstale : (p.mirror.slots.any (·.isStale p.secondEpoch)) =
      p.slots.any (·.isStale p.secondEpoch) := by
    rw [slots_mirror, List.any_map]
    exact congrArg (List.any p.slots) (funext fun s => s.isStale_mirror p.secondEpoch)
  have hcurrent : (p.mirror.slots.any (!·.isCurrent p.secondEpoch)) =
      p.slots.any (!·.isCurrent p.secondEpoch) := by
    rw [slots_mirror, List.any_map]
    exact congrArg (List.any p.slots)
      (funext fun s => congrArg (!·) (s.isCurrent_mirror p.secondEpoch))
  unfold Program.secondState
  rw [hrecipe, scenarioCount_mirror]
  show (if _ then _ else if (p.mirror.slots.any (·.isStale p.secondEpoch)) = true then _
    else if (p.mirror.slots.any (!·.isCurrent p.secondEpoch)) = true then _ else _) = _
  rw [hstale, hcurrent]
  rfl

theorem isDeferred_mirror (p : Program σ K) : p.mirror.isDeferred = p.isDeferred := by
  unfold Program.isDeferred
  rw [firstState_mirror, secondState_mirror]

theorem locateIn_mirror (partitions : List (Partition K)) (i : Nat) :
    locateIn (partitions.map Partition.mirror) i =
      (locateIn partitions i).map fun q => (q.1.mirror, q.2) := by
  induction partitions generalizing i with
  | nil => rfl
  | cons q partitions ih =>
    rw [List.map_cons, locateIn, locateIn, Partition.size_mirror, ih]
    split <;> rfl

theorem locate_mirror (p : Program σ K) (i : Setting K) :
    p.mirror.locate i = (p.locate i).map fun q => (q.1.mirror, q.2) := by
  unfold Program.locate
  rw [scenarioCount_mirror]
  cases i.integer? with
  | none => rfl
  | some n =>
    dsimp only
    rw [show p.mirror.partitions = p.partitions.map Partition.mirror from rfl, locateIn_mirror]
    split
    · rfl
    · cases locateIn p.partitions n.toNat <;> rfl

theorem subproblem_mirror (p : Program σ K) (i : Setting K) :
    p.mirror.subproblem i = (p.subproblem i).map Model.mirror := by
  unfold Program.subproblem
  rw [locate_mirror]
  cases p.locate i with
  | error f => rfl
  | ok q => exact q.1.subproblem_mirror q.2 p.secondEpoch

theorem scenario_mirror (p : Program σ K) (i : Setting K) : p.mirror.scenario i = p.scenario i := by
  unfold Program.scenario
  rw [locate_mirror]
  cases p.locate i with
  | error f => rfl
  | ok q =>
    show (q.1.mirror.slot q.2 .scenario).map (·.scenario) =
      (q.1.slot q.2 .scenario).map (·.scenario)
    rw [Partition.slot_mirror]
    cases q.1.slot q.2 .scenario <;> rfl

theorem subproblems_mirror (p : Program σ K) :
    p.mirror.subproblems = p.subproblems.map (List.map Model.mirror) := by
  have h : ((List.range p.scenarioCount).map fun i => i).mapM p.mirror.subproblemAt =
      ((List.range p.scenarioCount).mapM p.subproblemAt).map (List.map Model.mirror) :=
    mapM_map_eq (List.range p.scenarioCount) fun i _ => p.subproblem_mirror (.ofInt i)
  rw [List.map_id'] at h
  unfold Program.subproblems
  rwa [scenarioCount_mirror]

/-- The factor that turns a program into minimization turns with the sense. -/
theorem sign_mirror [Scalar.Symmetric K] (p : Program σ K) :
    p.mirror.sign = p.sign.map (-·) := by
  unfold Program.sign Program.goal
  rw [stageOneModel_mirror]
  cases p.stageOneModel with
  | error f => rfl
  | ok m => exact congrArg Except.ok m.goal.sign_flip

end Program

/-! ## Building

A recipe for the images refuses what the recipe refuses, for the same reason, so the list
of failures that is reported is the same and not only alike. -/

theorem FirstRecipe.generate_mirror (r : FirstRecipe σ K) (data : Value K) :
    r.mirror.generate data = Model.mirror <$> r.generate data := by
  show ((Product.mirror <$> r.build data) >>= _) = Model.mirror <$> (r.build data >>= _)
  simp only [map_eq_pure_bind, bind_assoc, pure_bind]
  refine congrArg (r.build data >>= ·) (funext fun product => ?_)
  cases product with
  | value v => rfl
  | model m =>
    show (if m.decisionCount ≠ 0 then _ else _ : Act σ K (Model K)) =
      (if m.decisionCount ≠ 0 then _ else _) >>= fun m : Model K => pure m.mirror
    split <;> rfl

theorem SecondRecipe.generate_mirror (r : SecondRecipe σ K) (data : Value K)
    (decisions : Decisions) (payload : Value K) :
    r.mirror.generate data decisions payload =
      Model.mirror <$> r.generate data decisions payload := by
  show ((Product.mirror <$> r.build data decisions payload) >>= _) =
    Model.mirror <$> (r.build data decisions payload >>= _)
  simp only [map_eq_pure_bind, bind_assoc, pure_bind]
  refine congrArg (r.build data decisions payload >>= ·) (funext fun product => ?_)
  cases product with
  | value v => rfl
  | model m =>
    show (if m.decisionCount ≠ 0 ∧ m.decisionCount ≠ decisions.names.length then _ else _ :
      Act σ K (Model K)) =
      (if m.decisionCount ≠ 0 ∧ m.decisionCount ≠ decisions.names.length then _ else _) >>=
        fun m : Model K => pure m.mirror
    split <;> rfl

namespace Partition

variable {build build' : Scenario K → Act σ K (Model K)}

theorem buildSlot_mirror (h : ∀ s, build' s = Model.mirror <$> build s) (epoch : Int)
    (s : Slot K) : buildSlot build' epoch s.mirror =
      (fun r => (r.1.mirror, r.2)) <$> buildSlot build epoch s := by
  unfold Partition.buildSlot
  rw [Slot.isCurrent_mirror]
  split
  · rfl
  · show Act.attempt (build' s.scenario) >>= _ = _
    rw [h, Act.attempt_map]
    simp only [map_eq_pure_bind, bind_assoc, pure_bind]
    refine congrArg (Act.attempt (build s.scenario) >>= ·) (funext fun r => ?_)
    cases r <;> rfl

theorem generate_mirror (h : ∀ s, build' s = Model.mirror <$> build s) (epoch offset : Int)
    (q : Partition K) : q.mirror.generate build' epoch offset =
      (fun r => (r.1.mirror, r.2)) <$> q.generate build epoch offset := by
  have hslots : Act.forEach (buildSlot build' epoch) (q.slots.map Slot.mirror) =
      (·.map fun r => (r.1.mirror, r.2)) <$> Act.forEach (buildSlot build epoch) q.slots :=
    Act.forEach_map q.slots fun s _ => buildSlot_mirror h epoch s
  show Act.forEach (buildSlot build' epoch) (q.slots.map Slot.mirror) >>= _ = _
  rw [hslots]
  unfold Partition.generate
  simp only [map_eq_pure_bind, bind_assoc, pure_bind]
  refine congrArg (Act.forEach (buildSlot build epoch) q.slots >>= ·) (funext fun rs => ?_)
  rw [List.zipIdx_map, List.filterMap_map, List.map_map]
  refine congrArg pure (Prod.ext ?_ rfl)
  show Partition.mk q.owner (rs.map _) = Partition.mk q.owner ((rs.map _).map _)
  rw [List.map_map]
  rfl

end Partition

namespace Program

/-- A change that keeps a program and its image alike, with one result for both. -/
abbrev Even (c c' : Edit σ K α) : Prop := c.Alike Program.mirror c' fun a b => b = a

theorem setRecipe_first_even (r : FirstRecipe σ K) :
    Even (setRecipe (.first r)) (setRecipe (.first r.mirror)) :=
  Change.alike_update fun _ => rfl

theorem setRecipe_second_even (r : SecondRecipe σ K) :
    Even (setRecipe (.second r)) (setRecipe (.second r.mirror)) :=
  Change.alike_update fun _ => rfl

theorem generateMaster_even (r : FirstRecipe σ K) :
    Even (generateMaster r) (generateMaster r.mirror) := by
  unfold generateMaster
  refine Change.alike_bind_map Change.alike_state fun p => ?_
  have hcurrent : p.mirror.currentMaster?.isSome = p.currentMaster?.isSome := by
    rw [currentMaster?_mirror]
    exact Option.isSome_map
  rw [hcurrent]
  split
  · exact Change.alike_pure rfl
  · refine Change.alike_bind_map
        (Change.alike_ofAct (Act.alike_of_eq (r.generate_mirror p.firstData)))
      fun m => ?_
    show Change.Alike _ (if m.variableCount = 0 then _ else _)
      (if m.variableCount = 0 then _ else _) _
    split
    · exact Change.alike_fail (.refl _)
    · exact Change.alike_update fun _ => rfl

theorem generateSubproblems_even (r : SecondRecipe σ K) :
    Even (generateSubproblems r) (generateSubproblems r.mirror) := by
  unfold generateSubproblems
  refine Change.alike_bind_map Change.alike_state fun p => ?_
  have hbuild (s : Scenario K) := r.generate_mirror p.secondData (p.decisions.getD ⟨[]⟩) s.data
  have hjobs : p.transport.map (fun q : Partition K × Nat => q.1.generate (fun s =>
        r.mirror.generate p.secondData (p.decisions.getD ⟨[]⟩) s.data) p.secondEpoch q.2)
        (p.placed.map fun q => (q.1.mirror, q.2)) =
      (·.map fun a => (a.1.mirror, a.2)) <$> p.transport.map (fun q : Partition K × Nat =>
        q.1.generate (fun s => r.generate p.secondData (p.decisions.getD ⟨[]⟩) s.data)
          p.secondEpoch q.2) p.placed :=
    p.transport.map_map p.placed fun q => Partition.generate_mirror hbuild p.secondEpoch q.2 q.1
  rw [placed_mirror]
  refine Change.alike_bind_map (Change.alike_ofAct (Act.alike_of_eq hjobs)) fun results => ?_
  have hpartitions : (results.map fun a => (a.1.mirror, a.2)).map (·.1) =
      (results.map (·.1)).map Partition.mirror := by
    rw [List.map_map, List.map_map]
    rfl
  have hfailed : (results.map fun a => (a.1.mirror, a.2)).flatMap (·.2) =
      results.flatMap (·.2) := List.flatMap_map _ _ _
  rw [hpartitions, hfailed]
  refine Change.alike_bind_map (Change.alike_update fun _ => rfl) fun _ => ?_
  dsimp only
  split
  · exact Change.alike_fail (.refl _)
  · exact Change.alike_update fun _ => rfl

/-- Building keeps a program and its image alike. -/
theorem generate_even : Even (generate : Edit σ K Unit) generate := by
  unfold generate
  refine Change.alike_bind_map Change.alike_state fun p => ?_
  rw [show p.mirror.firstRecipe = p.firstRecipe.map FirstRecipe.mirror from rfl]
  cases p.firstRecipe with
  | none => exact Change.alike_fail (.refl _)
  | some first =>
    refine Change.alike_bind_map (generateMaster_even first) fun _ => ?_
    refine Change.alike_bind_map Change.alike_state fun q => ?_
    rw [scenarioCount_mirror,
      show q.mirror.secondRecipe = q.secondRecipe.map SecondRecipe.mirror from rfl]
    split
    · rw [Option.isSome_map]
      split
      · exact Change.alike_update fun _ => rfl
      · exact Change.alike_pure rfl
    · cases q.secondRecipe with
      | none => exact Change.alike_fail (.refl _)
      | some second => exact generateSubproblems_even second

end Program

/-! ## Weighing -/

theorem Partition.rescale_mirror (factor : K) (q : Partition K) :
    q.mirror.rescale factor = (q.rescale factor).map Partition.mirror := by
  have hslots : (q.slots.map Slot.mirror).mapM (fun s : Slot K => do
        return { s with scenario := ← s.scenario.scaleProbability factor }) =
      (q.slots.mapM fun s : Slot K => do
        return { s with scenario := ← s.scenario.scaleProbability factor }).map
        (List.map Slot.mirror) := by
    refine mapM_map_eq q.slots fun s _ => ?_
    show s.scenario.scaleProbability factor >>= _ = (s.scenario.scaleProbability factor >>= _).map _
    cases s.scenario.scaleProbability factor <;> rfl
  show (q.slots.map Slot.mirror).mapM _ >>= _ = Except.map Partition.mirror (q.slots.mapM _ >>= _)
  rw [hslots]
  cases List.mapM (m := Except (Fault K)) _ q.slots <;> rfl

namespace Program

theorem rescale_go_even (factor : K) (done rest : List (Partition K)) :
    Even (rescale.go (σ := σ) factor done rest)
      (rescale.go factor (done.map Partition.mirror) (rest.map Partition.mirror)) := by
  induction rest generalizing done with
  | nil => exact Change.alike_pure rfl
  | cons q rest ih =>
    rw [List.map_cons, rescale.go, rescale.go]
    refine Change.alike_bind_map (Change.alike_lift (.of_eq (q.rescale_mirror factor))) fun q => ?_
    refine Change.alike_bind (Change.alike_update fun p => ?_) ?_
    · show Program.mk .. = Program.mk ..
      rw [← List.map_cons, ← List.map_append]
      rfl
    · rintro _ _ rfl
      rw [← List.map_singleton, ← List.map_append]
      exact ih (done ++ [q])

theorem rescale_even (factor : K) : Even (rescale factor : Edit σ K Unit) (rescale factor) := by
  unfold rescale
  refine Change.alike_bind_map Change.alike_state fun p => ?_
  exact rescale_go_even factor [] p.partitions

/-- Weighing keeps a program and its image alike. -/
theorem validate_even (normalize : Option Bool) :
    Even (validate normalize : Edit σ K Unit) (validate normalize) := by
  unfold validate
  refine Change.alike_bind_map Change.alike_state fun p => ?_
  rw [scenarioCount_mirror, totalProbability_mirror]
  dsimp only
  split
  · exact Change.alike_fail (.refl _)
  · split
    · exact Change.alike_pure rfl
    · rw [show p.mirror.normalize = p.normalize from rfl]
      split
      · exact Change.alike_fail (.refl _)
      · refine Change.alike_bind_map (Change.alike_ofAct (.refl _)) fun _ => ?_
        refine Change.alike_bind_map (rescale_even _) fun _ => ?_
        exact Change.alike_update fun _ => rfl

/-! ## Solvability -/

/-- The goals of a program and its image agree in the same places. -/
theorem checkGoals_mirror (p : Program σ K) (master : Model K) (is : List Nat) :
    Matches (p.checkGoals master is) (p.mirror.checkGoals master.mirror is) fun a b => b = a := by
  induction is with
  | nil => exact rfl
  | cons i is ih =>
    rw [checkGoals, checkGoals]
    refine Matches.bind (.of_eq (p.subproblem_mirror (.ofInt i))) ?_
    rintro sub _ rfl
    have hgoals : sub.mirror.goal ≠ master.mirror.goal ↔ sub.goal ≠ master.goal :=
      not_congr (Goal.flip_inj sub.goal master.goal)
    dsimp only
    by_cases h : sub.goal ≠ master.goal
    · rw [if_pos h, if_pos (hgoals.mpr h)]
      exact .inr ⟨_, _, _, _, _, rfl, rfl⟩
    · rw [if_neg h, if_neg (hgoals.not.mpr h)]
      exact ih

theorem requireSolvable_alike : (requireSolvable : Edit σ K (Model K)).Alike Program.mirror
    requireSolvable fun m m' => m' = m.mirror := by
  unfold requireSolvable
  refine Change.alike_bind_map Change.alike_state fun p => ?_
  rw [isDeferred_mirror]
  dsimp only
  split
  · exact Change.alike_fail (.refl _)
  · refine Change.alike_bind_map (validate_even (some false)) fun _ => ?_
    refine Change.alike_bind_map Change.alike_state fun q => ?_
    refine Change.alike_bind_map (Change.alike_lift (.of_eq q.stageOneModel_mirror))
      fun master => ?_
    rw [scenarioCount_mirror]
    refine Change.alike_bind_map (Change.alike_lift (q.checkGoals_mirror master _)) fun _ => ?_
    exact Change.alike_pure rfl

end Program

/-! ## Work on every scenario -/

section Work

variable {R : α → β → Prop} {job : Int → Scenario K → Option (Model K) → Act σ K α}
  {job' : Int → Scenario K → Option (Model K) → Act σ K β}

/-- Jobs that keep a subproblem and its image alike, run on the slots of a partition. -/
theorem Partition.forEach_alike
    (h : ∀ i s m, (job i s m).Alike (job' i s (m.map Model.mirror)) R) (q : Partition K)
    (offset : Int) (model model' : Slot K → Option (Model K))
    (hmodel : ∀ s, model' s.mirror = (model s).map Model.mirror) :
    (Act.forEach (fun s => job (offset + s.2) s.1.scenario (model s.1)) q.slots.zipIdx).Alike
      (Act.forEach (fun s => job' (offset + s.2) s.1.scenario (model' s.1)) q.mirror.slots.zipIdx)
      (List.Forall₂ R) := by
  refine Act.alike_forEach ?_
  rw [show q.mirror.slots = q.slots.map Slot.mirror from rfl, List.zipIdx_map,
    List.forall₂_map_right_iff, List.forall₂_same]
  intro s _
  show (job _ s.1.scenario (model s.1)).Alike (job' _ s.1.scenario (model' s.1.mirror)) R
  rw [hmodel]
  exact h _ _ _

theorem Partition.visit_alike
    (h : ∀ i s m, (job i s m).Alike (job' i s (m.map Model.mirror)) R) (q : Partition K)
    (epoch : Option Int) (offset : Int) :
    (q.visit epoch offset job).Alike (q.mirror.visit epoch offset job') (List.Forall₂ R) := by
  cases epoch with
  | none => exact q.forEach_alike h offset (fun _ => none) (fun _ => none) fun _ => rfl
  | some e =>
    have hmodel (s : Slot K) : s.mirror.model? = s.model?.map Model.mirror := by
      show (s.built.map _).map _ = (s.built.map _).map _
      rw [Option.map_map, Option.map_map]
      rfl
    unfold Partition.visit
    dsimp only
    rw [Partition.isGenerated_mirror]
    split
    · exact Act.alike_fail (.refl _)
    · exact q.forEach_alike h offset Slot.model? Slot.model? hmodel

/-- Jobs that keep a subproblem and its image alike, run on every scenario. -/
theorem Program.collect_alike {g : α → β}
    (h : ∀ i s m, (job i s m).Alike (job' i s (m.map Model.mirror)) fun a b => b = g a)
    (p : Program σ K) (withSubproblems : Bool) :
    (p.collect withSubproblems job).Alike (p.mirror.collect withSubproblems job')
      fun as bs => bs = as.map g := by
  unfold Program.collect
  rw [placed_mirror]
  refine Act.alike_bind (p.transport.alike_map (Q := List.Forall₂ fun a b => b = g a) ?_) ?_
  · rw [List.forall₂_map_right_iff, List.forall₂_same]
    exact fun q _ => q.1.visit_alike h _ q.2
  · intro chunks chunks' hchunks
    exact Act.alike_pure (eq_map_of_forall₂ (List.rel_flatten hchunks))

end Work

end Recourse
