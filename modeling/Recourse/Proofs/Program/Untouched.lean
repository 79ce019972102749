/-
  Proofs/Program/Untouched.lean --- what a program leaves of the environment.

  Building a program, solving it and evaluating a decision call the recipes and the solver.
  What a view shows of the environment, and none of these touches, stands after the whole
  call as it stood before, refused or not (`Poses.optimize_keeps`, `Poses.outcomes_keeps`).
  The first stage keeps its sense meanwhile, which is why the two are carried together.
-/
import Recourse.Evaluation.Basic
import Recourse.Proofs.Solver.Untouched

set_option autoImplicit false
set_option linter.unusedSectionVars false

namespace Recourse

variable {σ K τ : Type} {view : Ledger σ K → τ}

/-! ## Recipes -/

/-- Calling a recipe of the first stage does not touch what the view shows, and its models
have the sense. -/
structure FirstRecipe.Poses (view : Ledger σ K → τ) (g : Goal) (r : FirstRecipe σ K) : Prop where
  /-- The call. -/
  keeps : ∀ data, (r.build data).Keeps view
  /-- The sense. -/
  goal : ∀ data, (r.build data).Ensures (fun x => ∀ m, x = .model m → m.goal = g) fun _ => True

/-- Calling a recipe of the second stage does not touch what the view shows. -/
def SecondRecipe.Spares (view : Ledger σ K → τ) (r : SecondRecipe σ K) : Prop :=
  ∀ data decisions payload, (r.build data decisions payload).Keeps view

theorem FirstRecipe.Poses.generate_keeps {g : Goal} {r : FirstRecipe σ K} (h : r.Poses view g)
    (data : Value K) : (r.generate data).Keeps view := by
  unfold FirstRecipe.generate
  refine Act.keeps_bind (h.keeps data) fun x => Act.keeps_bind (Act.keeps_lift _) fun m => ?_
  exact Act.keeps_guard (Act.keeps_pure m)

theorem FirstRecipe.Poses.generate_goal {g : Goal} {r : FirstRecipe σ K} (h : r.Poses view g)
    (data : Value K) : (r.generate data).Ensures (fun m => m.goal = g) fun _ => True := by
  unfold FirstRecipe.generate
  refine Act.ensures_bind ((h.goal data).mono (fun x hx => ?_) fun _ h => h)
  refine Act.ensures_bind (Act.ensures_lift ?_)
  cases x with
  | value v => trivial
  | model m =>
    show Act.Ensures _ _ _
    dsimp only
    split
    · exact Act.ensures_bind (Act.ensures_fail trivial)
    · exact Act.ensures_pure (hx m rfl)

theorem SecondRecipe.Spares.generate_keeps {r : SecondRecipe σ K} (h : r.Spares view)
    (data : Value K) (decisions : Decisions) (payload : Value K) :
    (r.generate data decisions payload).Keeps view := by
  unfold SecondRecipe.generate
  refine Act.keeps_bind (h data decisions payload) fun x =>
    Act.keeps_bind (Act.keeps_lift _) fun m => ?_
  exact Act.keeps_guard (Act.keeps_pure m)

namespace Partition

theorem buildSlot_keeps {build : Scenario K → Act σ K (Model K)} (h : ∀ c, (build c).Keeps view)
    (epoch : Int) (s : Slot K) : (buildSlot build epoch s).Keeps view := by
  unfold buildSlot
  split
  · exact Act.keeps_pure _
  · refine Act.keeps_bind (Act.keeps_attempt (h s.scenario)) fun r => ?_
    cases r <;> exact Act.keeps_pure _

theorem generate_spares {build : Scenario K → Act σ K (Model K)} (h : ∀ c, (build c).Keeps view)
    (epoch offset : Int) (q : Partition K) : (q.generate build epoch offset).Keeps view :=
  Act.keeps_bind (Act.keeps_forEach _ fun s _ => buildSlot_keeps h epoch s) fun _ =>
    Act.keeps_pure _

end Partition

/-! ## Programs -/

/-- What a program calls does not touch what the view shows, and its first stage has the
sense. -/
structure Program.Poses (view : Ledger σ K → τ) (g : Goal) (p : Program σ K) : Prop where
  /-- The recipe of the first stage. -/
  first : ∀ r, p.firstRecipe = some r → r.Poses view g
  /-- The recipe of the second stage. -/
  second : ∀ r, p.secondRecipe = some r → r.Spares view
  /-- The model of the first stage. -/
  goal : ∀ m e, p.master = some (m, e) → m.goal = g
  /-- The solver that is used when none is named. -/
  solver : ∀ s, p.solver = some s → s.Spares view

namespace Program

variable {g : Goal} {p : Program σ K}

namespace Poses

theorem installMaster (h : p.Poses view g) {m : Model K} (hm : m.goal = g) :
    (p.installMaster m).Poses view g where
  first := h.first
  second := h.second
  goal m' e hmaster := by
    cases hmaster
    exact hm
  solver := h.solver

/-! ### Building -/

theorem generateMaster_keeps (h : p.Poses view g) {r : FirstRecipe σ K} (hr : r.Poses view g) :
    (generateMaster r).Keeps view (Poses view g) p := by
  unfold generateMaster
  refine Change.keeps_state_bind ?_
  split
  · exact Change.keeps_pure h
  refine Change.keeps_ofAct_bind_of_ensures h (hr.generate_keeps _) (hr.generate_goal _)
    fun m hm => ?_
  exact Change.keeps_guard h (Change.keeps_update (h.installMaster hm))

theorem generateSubproblems_keeps (h : p.Poses view g) {r : SecondRecipe σ K}
    (hr : r.Spares view) : (generateSubproblems r).Keeps view (Poses view g) p := by
  unfold generateSubproblems
  refine Change.keeps_state_bind (Change.keeps_ofAct_bind h
    (Transport.map_keeps p.transport _ fun q _ => Partition.generate_spares
      (fun c => hr.generate_keeps p.secondData _ c.data) _ _ q.1) fun results => ?_)
  refine Change.keeps_update_bind (Change.keeps_guard ?_ (Change.keeps_update ?_))
  all_goals exact ⟨h.first, h.second, h.goal, h.solver⟩

theorem generate_keeps (h : p.Poses view g) : generate.Keeps view (Poses view g) p := by
  unfold generate
  refine Change.keeps_state_bind ?_
  split
  · exact Change.keeps_fail h
  rename_i r hr
  refine Change.keeps_bind (h.generateMaster_keeps (h.first r hr)) fun _ p' h' =>
    Change.keeps_state_bind ?_
  split
  · split
    · exact Change.keeps_update ⟨h'.first, h'.second, h'.goal, h'.solver⟩
    · exact Change.keeps_pure h'
  · split
    · exact Change.keeps_fail h'
    · rename_i r hr
      exact h'.generateSubproblems_keeps (h'.second r hr)

end Poses

variable [Scalar K]

/-! ### Adding -/

section Adding

variable {I : Program σ K → Prop}
  (hI : ∀ (p : Program σ K) schema partitions solution, I p →
    I { p with schema, partitions, solution })

include hI

theorem finishAdding_keeps (hp : I p) : (finishAdding true).Keeps view I p :=
  Change.keeps_update_bind (Change.keeps_state_bind (Change.keeps_pure
    (hI p p.schema p.partitions none hp)))

/-- What scenarios change of a program are the schema, the partitions and the solution. -/
theorem addAll_keeps (offered : List (Offered K)) (worker : Option (Setting K)) (hp : I p) :
    (addAll offered worker true).Keeps view I p := by
  have hextended (schema : Option Schema) (partitions : List (Partition K)) :
      (finishAdding true).Keeps view I { p with schema, partitions } :=
    finishAdding_keeps hI (hI p schema partitions p.solution hp)
  have hchecked (schema : Option Schema) : I { p with schema } :=
    hI p schema p.partitions p.solution hp
  unfold addAll
  split
  · exact Change.keeps_pure hp
  refine Change.keeps_state_bind ?_
  cases worker with
  | none =>
    refine Change.keeps_lift_bind hp fun a _ => Change.keeps_update_bind ?_
    exact Change.keeps_lift_bind (hchecked a.1) fun counts _ =>
      Change.keeps_update_bind (hextended _ _)
  | some w =>
    refine Change.keeps_lift_bind hp fun _ _ => Change.keeps_lift_bind hp fun a _ => ?_
    refine Change.keeps_update_bind (Change.keeps_lift_bind (hchecked a.1) fun k _ => ?_)
    exact Change.keeps_update_bind (hextended _ _)

end Adding

namespace Poses

/-! ### Weighing -/

theorem rescale_keeps (factor : K) (h : p.Poses view g) :
    (rescale factor).Keeps view (Poses view g) p := by
  have hgo (rest done : List (Partition K)) {p : Program σ K} (h : p.Poses view g) :
      (rescale.go factor done rest).Keeps view (Poses view g) p := by
    induction rest generalizing done p with
    | nil => exact Change.keeps_pure h
    | cons q rest ih =>
      refine Change.keeps_lift_bind h fun q' _ => Change.keeps_update_bind (ih _ ?_)
      exact ⟨h.first, h.second, h.goal, h.solver⟩
  exact Change.keeps_state_bind (hgo p.partitions [] h)

/-! ### Solving -/

variable [Host σ K]

theorem solverFor (h : p.Poses view g) {solver : Option (Solver σ K)}
    (hsolver : ∀ s, solver = some s → s.Spares view) : (p.solverFor solver).Spares view := by
  unfold Program.solverFor
  cases solver with
  | some s => exact hsolver s rfl
  | none =>
    cases hp : p.solver with
    | some s => exact h.solver s hp
    | none => exact fun r _ => rfl

theorem backendFor (h : p.Poses view g) {solver : Option (Solver σ K)}
    (hsolver : ∀ s, solver = some s → s.Spares view) : (p.backendFor solver).Spares view := by
  unfold Program.backendFor
  split
  · exact hsolver _ rfl
  · exact hsolver _ rfl
  · rename_i s hs
    exact h.solver _ hs
  · exact fun r _ => rfl

variable (host : Host.Spares view)

include host

theorem validate_keeps (h : p.Poses view g)
    (normalize : Option Bool) : (validate normalize).Keeps view (Poses view g) p := by
  unfold validate
  refine Change.keeps_state_bind (Change.keeps_guard h ?_)
  dsimp only
  split
  · exact Change.keeps_pure h
  refine Change.keeps_guard h (Change.keeps_ofAct_bind h (fun ledger => host.records ..)
    fun _ => ?_)
  refine Change.keeps_bind (h.rescale_keeps _) fun _ p' h' => ?_
  exact Change.keeps_update ⟨h'.first, h'.second, h'.goal, h'.solver⟩

theorem requireSolvable_keeps (h : p.Poses view g) :
    requireSolvable.Keeps view (Poses view g) p := by
  unfold requireSolvable
  refine Change.keeps_state_bind (Change.keeps_guard h ?_)
  refine Change.keeps_bind (h.validate_keeps host (some false)) fun _ p' h' =>
    Change.keeps_state_bind (Change.keeps_lift_bind h' fun master _ => ?_)
  exact Change.keeps_lift_bind h' fun _ _ => Change.keeps_pure h'

theorem extensiveForm_keeps (h : p.Poses view g) :
    extensiveForm.Keeps view (Poses view g) p := by
  unfold extensiveForm
  refine Change.keeps_bind h.generate_keeps fun _ p' h' => Change.keeps_state_bind ?_
  exact Change.keeps_lift_bind h' fun _ _ => Change.keeps_lift_bind h' fun _ _ =>
    Change.keeps_pure h'

theorem build_keeps (h : p.Poses view g) (s : StructuredSolver σ K) :
    s.build.Keeps view (Poses view g) p := by
  unfold StructuredSolver.build
  split
  · refine Change.keeps_bind (I := Poses view g) ?_ fun _ _ h' => Change.keeps_pure h'
    refine Change.keeps_bind (h.requireSolvable_keeps host) fun master p₁ h₁ => ?_
    refine Change.keeps_bind (h₁.extensiveForm_keeps host) fun form p₂ h₂ =>
      Change.keeps_state_bind ?_
    exact Change.keeps_ofAct_bind h₂ host.clock fun _ => Change.keeps_pure h₂
  · refine Change.keeps_lift_bind h fun m _ => ?_
    refine Change.keeps_bind (I := Poses view g) ?_ fun _ _ h' => Change.keeps_pure h'
    refine Change.keeps_bind (h.requireSolvable_keeps host) fun master p₁ h₁ =>
      Change.keeps_lift_bind h₁ fun form _ => Change.keeps_state_bind ?_
    exact Change.keeps_ofAct_bind h₁ host.clock fun _ => Change.keeps_pure h₁

omit [Host σ K] host in
/-- Loading a result leaves the sense of a model. -/
theorem commitRun_keeps (h : p.Poses view g) (label : String) (r : RunState K) :
    (commitRun label r).Keeps view (Poses view g) p := by
  unfold commitRun
  refine Change.keeps_state_bind (Change.keeps_guard h ?_)
  split
  · unfold commit
    refine Change.keeps_state_bind (Change.keeps_lift_bind h fun n _ => Change.keeps_guard h
      (Change.keeps_guard h (Change.keeps_lift_bind h fun models _ =>
        Change.keeps_lift_bind h fun _ _ => Change.keeps_update ?_)))
    refine ⟨h.first, h.second, fun m e hmaster => ?_, h.solver⟩
    dsimp only at hmaster
    split at hmaster
    · obtain ⟨⟨m', e'⟩, hm', hload⟩ := Option.map_eq_some_iff.1 hmaster
      cases hload
      exact h.goal m' e' hm'
    · exact h.goal m e hmaster
  · exact Change.keeps_fail h

theorem optimize_keeps (h : p.Poses view g) {solver : Option (Solver σ K)}
    (hsolver : ∀ s, solver = some s → s.Spares view) :
    (optimize solver).Keeps view (Poses view g) p := by
  unfold optimize
  refine Change.keeps_state_bind (Change.keeps_bind h.generate_keeps fun _ p₁ h₁ => ?_)
  refine Change.keeps_bind (h₁.validate_keeps host none) fun _ p₂ h₂ => ?_
  have hspares := h.solverFor hsolver
  split
  · exact Change.keeps_fail h₂
  rename_i s hs
  rw [hs] at hspares
  refine Change.keeps_bind (h₂.build_keeps host s) fun r p₃ h₃ => Change.keeps_state_bind ?_
  refine Change.keeps_ofAct_bind h₃ (Change.keeps_apply (s.run_keeps host hspares p₃ r))
    fun ⟨status, r⟩ => ?_
  dsimp only
  split
  · exact Change.keeps_bind (h₃.commitRun_keeps s.label r.common) fun _ _ h' =>
      Change.keeps_pure h'
  · exact Change.keeps_pure h₃

/-! ### Evaluating -/

theorem recourseValues_keeps {b : Backend σ K} (hb : b.Spares view) (p : Program σ K)
    (x : List K) : (p.recourseValues x b).Keeps view := by
  refine collect_keeps (fun i c m => ?_) p true
  cases m with
  | none => exact fun _ => rfl
  | some m =>
    refine Act.keeps_bind (Act.keeps_pure m) fun m => ?_
    refine Act.keeps_bind (hb.optimize_keeps host m (some x)) fun r => ?_
    exact Act.keeps_guard (Act.keeps_pure _)

theorem valuesAt_keeps (h : p.Poses view g) (x : List K) {solver : Option (Solver σ K)}
    (hsolver : ∀ s, solver = some s → s.Spares view) :
    (valuesAt x solver).Keeps view (Poses view g) p := by
  unfold valuesAt
  refine Change.keeps_state_bind (Change.keeps_lift_bind h fun _ _ => Change.keeps_lift_bind h
    fun master _ => Change.keeps_lift_bind h fun first _ => ?_)
  exact Change.keeps_ofAct_bind h (recourseValues_keeps host (h.backendFor hsolver) p x)
    fun _ => Change.keeps_pure h

theorem outcomes_keeps (h : p.Poses view g) (x : List K) {solver : Option (Solver σ K)}
    (hsolver : ∀ s, solver = some s → s.Spares view) :
    (outcomes x solver).Keeps view (Poses view g) p :=
  Change.keeps_bind h.generate_keeps fun _ _ h₁ => Change.keeps_bind
    (h₁.valuesAt_keeps host x hsolver) fun _ _ h₂ => Change.keeps_pure h₂

end Poses

/-! ### Creating -/

variable [Host σ K] (host : Host.Spares view)

include host

theorem create_keeps (s : Setup σ K) : (create s).Keeps view := by
  unfold create
  refine Act.keeps_bind (Act.keeps_lift _) fun workers => Act.keeps_guard ?_
  exact Act.keeps_bind (fun ledger => host.records ..) fun _ => Act.keeps_pure _

omit [Host σ K] host in
/-- A new program calls nothing but its solver. -/
theorem create_poses {s : Setup σ K} (hs : ∀ solver, s.solver = some solver → solver.Spares view) :
    (create s).Ensures (Poses view g) fun _ => True := by
  unfold create
  refine Act.ensures_lift_bind (fun workers _ => ?_) fun _ => trivial
  dsimp only
  split
  · exact Act.ensures_bind (Act.ensures_fail trivial)
  · exact Act.ensures_bind fun ledger => Act.ensures_pure
      ⟨fun _ h => (nomatch h), fun _ h => (nomatch h), fun _ _ h => (nomatch h), hs⟩

/-- Making a program from a template does not touch what the view shows, and the program has
the sense of the template. -/
theorem instantiate_keeps {t : Template σ K} (hfirst : ∀ r, t.first = some r → r.Poses view g)
    (hsecond : ∀ r, t.second = some r → r.Spares view) {s : Setup σ K}
    (hs : ∀ solver, s.solver = some solver → solver.Spares view)
    (scenarios : List (Scenario K)) (defer : Bool) :
    (t.instantiate s scenarios defer).Keeps view ∧
      (t.instantiate s scenarios defer).Ensures (Poses view g) fun _ => True := by
  unfold Template.instantiate
  split
  · exact ⟨Act.keeps_fail _, Act.ensures_fail trivial⟩
  · exact ⟨Act.keeps_fail _, Act.ensures_fail trivial⟩
  rename_i first second hr₁ hr₂
  have hedit (p : Program σ K) (hp : p.Poses view g) : (do
      setRecipe (.first first)
      setRecipe (.second second)
      addAll (scenarios.map Offered.scenario) none true
      if !defer then generate : Edit σ K Unit).Keeps view (Poses view g) p := by
    refine Change.keeps_update_bind (Change.keeps_update_bind ?_)
    refine Change.keeps_bind (addAll_keeps (fun _ _ _ _ h => ⟨h.first, h.second, h.goal, h.solver⟩)
      _ none ⟨?_, ?_, hp.goal, hp.solver⟩) fun _ p' h' => ?_
    · intro r hr
      cases hr
      exact hfirst first hr₁
    · intro r hr
      cases hr
      exact hsecond second hr₂
    · split
      · exact h'.generate_keeps
      · exact Change.keeps_pure h'
  have hcreate := create_poses (g := g) hs
  refine ⟨Act.keeps_bind_of_ensures (create_keeps host s) hcreate fun p hp => ?_,
    Act.ensures_bind (hcreate.mono (fun p hp => ?_) fun _ h => h)⟩
  · exact Act.keeps_bind (Change.keeps_apply (hedit p hp)) fun _ => Act.keeps_pure _
  · refine Act.ensures_bind ((Change.ensures_apply (Q := fun a => a.2.Poses view g)
      (E := fun _ => True) ?_).mono (fun _ h => Act.ensures_pure h) fun _ h => h)
    exact (hedit p hp).ensures.mono (fun _ _ h => h) fun _ _ _ => trivial

end Program

end Recourse
