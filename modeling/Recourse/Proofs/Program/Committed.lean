/-
  Proofs/Program/Committed.lean --- what a program holds once it is optimized.

  Optimizing builds, weighs, solves and commits.  Building and weighing leave the models
  of a program that is built alone (`Reweighed`), a run delivers a decision with a result
  for every scenario, and a commit loads these results into the models.  So a program that
  reports an optimum holds a decision that fits its first stage, a fitting point in every
  subproblem, and their value (`optimize_ensures_committed`).  The result of a scenario is
  an optimum of its subproblem, with optimal duals, unless the deterministic equivalent was
  solved and the scenario has no weight (`optimize_ensures_recovered`).
-/
import Recourse.Proofs.Program.Commitment
import Recourse.Proofs.Solver.Delivery

set_option autoImplicit false
set_option linter.unusedSectionVars false

open scoped BigOperators

namespace Recourse

variable {F : Type} [Field F] [LinearOrder F] [IsStrictOrderedRing F] [FloorRing F] {σ : Type}

/-! ## Loaded models -/

namespace Model

variable {m : Model (Exact F)}

theorem fits_load_iff (r : SolveResult (Exact F)) (x v : Nat → F) :
    (m.load r).Fits x v ↔ m.Fits x v := ⟨fun h => ⟨h.rows, h.columns⟩, fun h => ⟨h.rows, h.columns⟩⟩

/-- Duals of an optimum of a model at a decision, in the sense of the model. -/
def OptimalDuals (m : Model (Exact F)) (x y : List (Exact F)) : Prop :=
  ∃ answer : SolveResult (Exact F), answer.Certifies (m.formAt x).toProgram ∧
    y = Scalar.scale m.goal.sign answer.duals

/-- A result is an optimum of a model at a decision: its point, its objective and its duals
are optimal. -/
structure OptimalAt (m : Model (Exact F)) (x : List (Exact F)) (r : SolveResult (Exact F)) :
    Prop where
  /-- The point is optimal. -/
  solves : m.Solves (coord x) (coord r.point)
  /-- The objective is the optimal value. -/
  objective : r.objective = .finite (m.objectiveAt (coord r.point))
  /-- The duals are optimal. -/
  duals : m.OptimalDuals x r.duals

theorem Optimum.optimalAt (hm : m.Proper) {x : List (Exact F)} (hx : m.Suits x)
    {r : SolveResult (Exact F)} (h : m.Optimum x r) : m.OptimalAt x r := by
  obtain ⟨a, hreports, hstatus, hpoint, hobjective, hduals⟩ := h
  refine ⟨hpoint ▸ hreports.solves hm hx hstatus, ?_, ?_⟩
  · rw [← hobjective, ← hpoint]
    exact hreports.objective hm hstatus
  · obtain ⟨answer, hanswer, rfl⟩ := hreports.certificate hstatus
    exact ⟨answer, hanswer, hduals.symm⟩

/-- Loading a result changes nothing about what is optimal. -/
theorem OptimalAt.load {x : List (Exact F)} {r : SolveResult (Exact F)} (h : m.OptimalAt x r)
    (r' : SolveResult (Exact F)) : (m.load r').OptimalAt x r where
  solves := ⟨(fits_load_iff r' _ _).2 h.solves.1,
    fun w hw => h.solves.2 w ((fits_load_iff r' _ _).1 hw)⟩
  objective := h.objective
  duals := h.duals

end Model

/-! ## Runs by method -/

namespace StructuredSolver

variable [Host σ (Exact F)] {p : Program σ (Exact F)}

/-- The options of the L-shaped method were accepted. -/
def Configured (s : StructuredSolver σ (Exact F)) : Prop :=
  s.method = .lshaped → s.config.kind = .lshaped ∧ s.config.check = .ok ()

/-- A run that was set up on a program and is to be run on what has become of it. -/
def Prepared (s : StructuredSolver σ (Exact F)) (p q : Program σ (Exact F)) :
    SolverRun (Exact F) → Prop
  | .extensive e => s.method = .extensive ∧ e.form = p.equivalent
  | .lshaped l => s.method = .lshaped ∧ q = p ∧
      ∃ m, s.lshaped = .ok m ∧ LShaped.Reachable m p l

theorem build_prepared (s : StructuredSolver σ (Exact F)) (hp : p.Proper) :
    (s.build : Edit σ (Exact F) (SolverRun (Exact F))).Ensures p
      (fun r q => s.Prepared p q r) fun _ _ => True := by
  unfold build
  cases hmethod : s.method with
  | extensive =>
    refine Change.ensures_bind ((ExtensiveState.build_ensures p).mono ?_ fun _ _ _ => trivial)
    exact fun e _ he => Change.ensures_pure ⟨hmethod, he.1⟩
  | lshaped =>
    refine Change.ensures_lift_bind (fun m hm => ?_) fun _ => trivial
    refine Change.ensures_bind (((LShaped.build_ensures hp).and (Change.ensures_runOn _ p)).mono ?_
      fun _ _ _ => trivial)
    rintro l q ⟨⟨rfl, -, -⟩, ledger, ledger', hbuild⟩
    exact Change.ensures_pure ⟨hmethod, rfl, m, hm, .built hbuild⟩

/-- The rules of a solver whose options were accepted. -/
theorem Configured.method {s : StructuredSolver σ (Exact F)} (hs : s.Configured)
    (hmethod : s.method = .lshaped) {m : LShaped σ (Exact F)} (hm : s.lshaped = .ok m) :
    m.Configured ∧ m.backend = s.backend := by
  obtain ⟨hkind, hcheck⟩ := hs hmethod
  unfold lshaped at hm
  obtain ⟨rules, hrules, hm⟩ := bind_eq_ok_iff.1 hm
  cases hm
  exact ⟨⟨s.config, hkind, hcheck, hrules⟩, rfl⟩

/-- A run that ends with an optimum delivers, whatever the method. -/
theorem run_ensures_delivers (host : Host.Sound σ F) {s : StructuredSolver σ (Exact F)}
    (hb : s.backend.Faithful) (hs : s.Configured) (hp : p.Proper) (hsolvable : p.Solvable)
    {q : Program σ (Exact F)} (hq : Program.Marked p q) {r : SolverRun (Exact F)}
    (hr : s.Prepared p q r) :
    (s.run q).Ensures r (fun status r' => status = .optimal →
      ∃ x, r'.common.decision = some x ∧
        p.Delivers s.method x r'.common.objective r'.common.secondStage) fun _ _ => True := by
  intro ledger
  cases r with
  | extensive e =>
    obtain ⟨hmethod, hform⟩ := hr
    obtain ⟨generated, rfl⟩ := hq
    have hsubproblems : ∀ i < p.scenarioCount,
        ({ p with generatedEpoch := generated } : Program σ (Exact F)).subproblemAt i =
          .ok (p.recourse i) := fun i hi => Program.subproblemAt_eq hsolvable.current hi
    have hrun := ExtensiveState.run_ensures_delivers host hb hp hsolvable s.config hform
      hsubproblems
    rw [hmethod]
    exact hrun ledger
  | lshaped l =>
    obtain ⟨hmethod, rfl, m, hm, hreach⟩ := hr
    obtain ⟨hconfigured, hbackend⟩ := hs.method hmethod hm
    have hrun : (LShaped.run m q).Ensures l (fun status l' => status = .optimal →
        ∃ x, l'.decision = some x ∧ q.Delivers s.method x l'.objective l'.secondStage)
        fun _ _ => True := by
      refine (LShaped.run_reachable hreach).mono ?_ fun _ _ _ => trivial
      rintro status l' ⟨hreach', hstatus⟩ hoptimal
      rw [hmethod]
      exact hreach'.delivers host (hbackend ▸ hb) hconfigured hp (hstatus.trans hoptimal)
    simp only [run, hm]
    exact hrun ledger

/-- A run that is set up on a program and taken to its end delivers if it ends with an
optimum. -/
theorem solve_ensures_delivers (host : Host.Sound σ F) {s : StructuredSolver σ (Exact F)}
    (hb : s.backend.Faithful) (hs : s.Configured) (hp : p.Proper) :
    s.solve.Ensures p (fun r q => Program.Marked p q ∧ p.Solvable ∧ (r.1 = .optimal →
      ∃ x, r.2.common.decision = some x ∧
        p.Delivers s.method x r.2.common.objective r.2.common.secondStage)) fun _ _ => True := by
  unfold solve
  refine Change.ensures_bind (((Program.build_ready s p).and (build_prepared s hp)).mono ?_
    fun _ _ _ => trivial)
  rintro r q ⟨⟨-, hsolvable, hmarked⟩, hprepared⟩
  refine Change.ensures_bind (Change.ensures_state (Change.ensures_ofAct (Change.ensures_apply ?_)))
  exact (run_ensures_delivers host hb hs hp hsolvable hmarked hprepared).mono
    (fun _ _ h => ⟨hmarked, hsolvable, h⟩) fun _ _ h => h

end StructuredSolver

namespace Program

variable {p q p' : Program σ (Exact F)}

/-! ## What remains of a program -/

/-- What solving and weighing leave of a program: its models up to the results that are
loaded, its payloads, and its probabilities where they sum to one. -/
structure Remains (p p' : Program σ (Exact F)) : Prop where
  /-- There are as many scenarios. -/
  count : p'.scenarioCount = p.scenarioCount
  /-- The first-stage model is the same up to a result. -/
  first : p'.firstStage.clear = p.firstStage.clear
  /-- So is the model of every scenario. -/
  second : ∀ i < p.scenarioCount, (p'.recourse i).clear = (p.recourse i).clear
  /-- The payloads are the same. -/
  payloads : p'.scenarios.map (·.data) = p.scenarios.map (·.data)
  /-- So are the probabilities, unless they had to be rescaled. -/
  probabilities : isTotal p.totalProbability = true → p'.probabilities = p.probabilities

/-- Two programs build from the same: the data and the recipes of both stages. -/
structure SameSource (p q : Program σ (Exact F)) : Prop where
  /-- The same data of the first stage. -/
  firstData : q.firstData = p.firstData
  /-- The same data of the second stage. -/
  secondData : q.secondData = p.secondData
  /-- The same recipe of the first stage. -/
  firstRecipe : q.firstRecipe = p.firstRecipe
  /-- The same recipe of the second stage. -/
  secondRecipe : q.secondRecipe = p.secondRecipe

/-- Two programs are given the same: data and recipes, the solver, and the payloads. -/
structure Shares (p q : Program σ (Exact F)) : Prop extends p.SameSource q where
  /-- The same solver. -/
  solver : q.solver = p.solver
  /-- The same payloads, in order. -/
  payloads : q.scenarios.map (·.data) = p.scenarios.map (·.data)

theorem SameSource.symm (h : p.SameSource q) : q.SameSource p :=
  ⟨h.firstData.symm, h.secondData.symm, h.firstRecipe.symm, h.secondRecipe.symm⟩

theorem SameSource.trans {r : Program σ (Exact F)} (h : p.SameSource q) (h' : q.SameSource r) :
    p.SameSource r :=
  ⟨h'.firstData.trans h.firstData, h'.secondData.trans h.secondData,
    h'.firstRecipe.trans h.firstRecipe, h'.secondRecipe.trans h.secondRecipe⟩

theorem Shares.trans {r : Program σ (Exact F)} (h : p.Shares q) (h' : q.Shares r) : p.Shares r :=
  ⟨h.toSameSource.trans h'.toSameSource, h'.solver.trans h.solver, h'.payloads.trans h.payloads⟩

theorem Remains.refl (p : Program σ (Exact F)) : p.Remains p :=
  ⟨rfl, rfl, fun _ _ => rfl, rfl, fun _ => rfl⟩

/-! ### Weighing -/

end Program

/-- A scenario that is weighed anew is the same but for its probability. -/
theorem Scenario.scaleProbability_settles {K : Type} [Scalar K] (factor : K) (s : Scenario K) :
    Settles (s.scaleProbability factor) (fun s' => s' = s.scaled factor ∧
      Scalar.isWeight (s.probability * factor) = true) fun _ => True := by
  unfold scaleProbability withProbability make
  refine Settles.guard (fun _ => trivial) fun hcheck => ⟨rfl, ?_⟩
  simpa [Scalar.isWeight, Numeral.value] using hcheck

/-- A partition that is weighed anew is the same but for its probabilities. -/
theorem Partition.rescale_settles {K : Type} [Scalar K] (factor : K) (q : Partition K) :
    Settles (q.rescale factor) (fun q' => q' = q.scaled factor ∧
      ∀ s ∈ q.slots, Scalar.isWeight (s.scenario.probability * factor) = true) fun _ => True := by
  unfold rescale
  refine Settles.bind ((Settles.mapM (R := fun s s' =>
    s' = { s with scenario := s.scenario.scaled factor } ∧
      Scalar.isWeight (s.scenario.probability * factor) = true) q.slots fun s _ =>
    Settles.bind ((s.scenario.scaleProbability_settles factor).mono ?_ fun _ h => h)).mono ?_
    fun _ h => h)
  · rintro c ⟨rfl, hweight⟩
    exact ⟨rfl, hweight⟩
  · intro slots hslots
    refine ⟨congrArg (fun slots => ({ q with slots } : Partition K))
      (eq_map_of_forall₂ (hslots.imp fun _ _ h => h.1)), fun s hs => ?_⟩
    obtain ⟨i, hi, rfl⟩ := List.getElem_of_mem hs
    exact (hslots.get hi (hslots.length_eq ▸ hi)).2

namespace Program

variable {p q p' : Program σ (Exact F)}

theorem rescale_go_settles {K : Type} [Scalar K] {factor : K} (rest done : List (Partition K))
    {p : Program σ K} (hp : p.partitions = done ++ rest) :
    (rescale.go factor done rest : Edit σ K Unit).Ensures p
      (fun _ p' => p' = { p with partitions := done ++ rest.map (Partition.scaled factor) } ∧
        ∀ q ∈ rest, ∀ s ∈ q.slots, Scalar.isWeight (s.scenario.probability * factor) = true)
      (fun _ _ => True) := by
  induction rest generalizing done p with
  | nil =>
    refine Change.ensures_pure ⟨?_, fun q hq => absurd hq List.not_mem_nil⟩
    rw [List.map_nil, ← hp]
  | cons q rest ih =>
    unfold rescale.go
    refine Change.ensures_bind (Change.ensures_lift ((q.rescale_settles factor).mono ?_
      fun _ h => h))
    rintro _ ⟨rfl, hq⟩
    refine Change.ensures_bind (Change.ensures_update ((ih (done ++ [q.scaled factor])
      (by simp)).mono ?_ fun _ _ h => h))
    rintro _ _ ⟨rfl, hrest⟩
    exact ⟨by simp, List.forall_mem_cons.2 ⟨hq, hrest⟩⟩

/-- Rescaling that is not refused multiplies every probability. -/
theorem rescale_settles {K : Type} [Scalar K] (factor : K) (p : Program σ K) :
    (rescale factor : Edit σ K Unit).Ensures p (fun _ p' => p' = p.scaled factor ∧
      ∀ s ∈ p.slots, Scalar.isWeight (s.scenario.probability * factor) = true)
      (fun _ _ => True) := by
  unfold rescale
  refine Change.ensures_bind (Change.ensures_state ((rescale_go_settles p.partitions []
    rfl).mono ?_ fun _ _ h => h))
  rintro _ _ ⟨rfl, hweights⟩
  refine ⟨rfl, fun s hs => ?_⟩
  obtain ⟨q, hq, hs⟩ := List.mem_flatMap.1 hs
  exact hweights q hq s hs

/-- Weighing leaves a program as it is where the probabilities sum to one, and multiplies
them where they do not. -/
theorem validate_ensures_scaled (normalize : Option Bool) (p : Program σ (Exact F)) :
    (validate normalize : Edit σ (Exact F) Unit).Ensures p
      (fun _ p' => p' = p ∨ isTotal p.totalProbability = false ∧
        ∃ factor, p' = { p.scaled factor with solution := none } ∧
          ∀ s ∈ p.slots, Scalar.isWeight (s.scenario.probability * factor) = true)
      fun _ _ => True := by
  unfold validate
  refine Change.ensures_bind (Change.ensures_state ?_)
  split
  · exact Change.ensures_bind (Change.ensures_fail trivial)
  dsimp only
  split
  · exact Change.ensures_pure (Or.inl rfl)
  rename_i htotal
  split
  · exact Change.ensures_bind (Change.ensures_fail trivial)
  have hnotify : (Act.notify ⟨p.totalProbability⟩ : Act σ (Exact F) Unit).Ensures
      (fun _ => True) fun _ => True := fun _ => trivial
  refine Change.ensures_bind (Change.ensures_ofAct (hnotify.mono (fun _ _ => ?_) fun _ h => h))
  refine Change.ensures_bind ((rescale_settles _ p).mono ?_ fun _ _ h => h)
  rintro _ _ ⟨rfl, hweights⟩
  exact Change.ensures_update (Or.inr ⟨by simpa using htotal, _, rfl, hweights⟩)

/-- What a program that is built becomes when a solution is installed with a result for
every scenario. -/
structure Installed (q p' : Program σ (Exact F)) (c : Solution (Exact F))
    (results : List (SolveResult (Exact F))) : Prop where
  /-- It is built. -/
  current : p'.isDeferred = false
  /-- The solution is handed out. -/
  committed : p'.committed = .ok c
  /-- Its decision is as long as the decisions that the program knows. -/
  count : p'.decisionCount = .ok c.decision.length
  /-- The scenarios are the same. -/
  scenarios : p'.scenarios = q.scenarios
  /-- So is what the program is given. -/
  shares : q.Shares p'
  /-- It is in order if it was before. -/
  consistent : q.Consistent → p'.Consistent
  /-- The first-stage model is the same up to a result. -/
  first : p'.firstStage.LoadedFrom q.firstStage
  /-- The results are loaded into the models of the scenarios. -/
  recourse : ∀ i < q.scenarioCount, p'.recourse i = (q.recourse i).load (results.getD i default)

end Program

section Loading

variable {K : Type}

/-- A slot with a result loaded into its subproblem. -/
def Slot.load (s : Slot K) (r : SolveResult K) : Slot K :=
  { s with built := s.built.map fun b => (b.1.load r, b.2) }

namespace Program

theorem loadSlots_eq {slots : List (Slot K)} {results : List (SolveResult K)}
    (h : slots.length ≤ results.length) : loadSlots slots results =
      (List.zipWith Slot.load slots results, results.drop slots.length) := by
  induction slots generalizing results with
  | nil => cases results <;> rfl
  | cons s slots ih =>
    cases results with
    | nil => exact absurd h (Nat.not_succ_le_zero _)
    | cons r results =>
      rw [loadSlots, ih (Nat.le_of_succ_le_succ h)]
      rfl

/-- With a result for every slot, each is loaded where it belongs. -/
theorem slots_loadPartitions {partitions : List (Partition K)} {results : List (SolveResult K)}
    (h : (partitions.flatMap (·.slots)).length ≤ results.length) :
    (loadPartitions partitions results).flatMap (·.slots) =
      List.zipWith Slot.load (partitions.flatMap (·.slots)) results := by
  induction partitions generalizing results with
  | nil => rfl
  | cons q partitions ih =>
    rw [List.flatMap_cons, List.length_append] at h
    have hq : q.slots.length ≤ results.length := by omega
    have hrest := @ih (results.drop q.slots.length) (by rw [List.length_drop]; omega)
    conv_rhs => rw [← List.take_append_drop q.slots.length results]
    rw [loadPartitions, loadSlots_eq hq, List.flatMap_cons, List.flatMap_cons, hrest,
      List.zipWith_append (by rw [List.length_take, min_eq_left hq])]
    refine congrArg (· ++ _) ?_
    show List.zipWith Slot.load q.slots results = _
    rw [List.zipWith_eq_zipWith_take_min, min_eq_left hq, List.take_length]

end Program

end Loading

namespace Program

variable {p q p' : Program σ (Exact F)}

theorem slot_install {c : Solution (Exact F)} {results : List (SolveResult (Exact F))}
    {master : Option (SolveResult (Exact F))} (hlength : results.length = q.scenarioCount) {i : Nat}
    (hi : i < q.scenarioCount) : (q.install c results master).slots[i]? =
      q.slots[i]?.map (·.load (results.getD i default)) := by
  have hslots : (q.install c results master).slots =
      List.zipWith Slot.load q.slots results := slots_loadPartitions hlength.ge
  have hi' : i < q.slots.length := hi
  rw [hslots, List.getElem?_zipWith, List.getElem?_eq_getElem hi',
    List.getElem?_eq_getElem (hlength ▸ hi), List.getD_eq_getElem _ _ (hlength ▸ hi)]
  rfl

/-- A solution that a program takes is installed. -/
theorem install_installed (hcurrent : q.isDeferred = false) (hnonempty : 0 < q.scenarioCount)
    {c : Solution (Exact F)} {results : List (SolveResult (Exact F))}
    (htakes : q.Takes c.decision results) (master : Option (SolveResult (Exact F))) :
    q.Installed (q.install c results master) c results where
  current := by
    have hcount := scenarioCount_congr (scenarios_install q c results master)
    exact ((isBuilt_of_not_isDeferred hcurrent).install c results master).isDeferred_eq_false
      (hcount.symm ▸ hnonempty)
  committed := rfl
  count := by
    obtain ⟨⟨d, hd, hlength⟩, -⟩ := htakes
    have hdecisions : (q.install c results master).decisions = some d := hd
    rw [decisionCount, currentDecisions, hdecisions, hlength]
    rfl
  scenarios := scenarios_install q c results master
  shares := ⟨⟨rfl, rfl, rfl, rfl⟩, rfl,
    congrArg (List.map (·.data)) (scenarios_install q c results master)⟩
  consistent := fun h => h.install c results master
  first := by
    obtain ⟨m, hm⟩ := currentMaster?_of_not_isDeferred hcurrent
    have hmaster := currentMaster?_eq_some.1 hm
    have hfirst : q.firstStage = m := by rw [firstStage, hm]; rfl
    cases master with
    | none =>
      have hsame : (q.install c results none).firstStage = q.firstStage := rfl
      exact hsame ▸ .refl _
    | some r =>
      have hloaded : (q.install c results (some r)).currentMaster? = some (m.load r) :=
        currentMaster?_eq_some.2 (by simp [install, hmaster])
      rw [firstStage, hloaded, hfirst]
      exact (Model.LoadedFrom.refl m).load r
  recourse := fun i hi => by
    obtain ⟨s, hs, hbuilt⟩ := exists_slot hcurrent hi
    rw [recourse, slot_install htakes.2.length_eq.symm hi, hs]
    simp [Slot.load, Slot.model?, hbuilt]

variable [Host σ (Exact F)]

/-- What a run of a solver delivers is committed to the program that it was run on. -/
theorem solve_commit_ensures (host : Host.Sound σ F) {s : StructuredSolver σ (Exact F)}
    (hb : s.backend.Faithful) (hs : s.Configured) (hq : q.isDeferred = false → q.Proper) :
    (do
      let (status, r) ← s.solve
      if status = .optimal then s.commit r
      return status : Edit σ (Exact F) Status).Ensures q
      (fun status p' => status = .optimal → ∃ c results, q.Proper ∧ q.Solvable ∧
        q.Delivers s.method c.decision c.objective results ∧ q.Installed p' c results)
      fun _ _ => True := by
  have hsolve : s.solve.Ensures q (fun r q' => Marked q q' ∧ q.Proper ∧ q.Solvable ∧
      (r.1 = .optimal → ∃ x, r.2.common.decision = some x ∧
        q.Delivers s.method x r.2.common.objective r.2.common.secondStage)) fun _ _ => True := by
    -- A program that is not built is refused before anything is solved.
    by_cases hcurrent : q.isDeferred = false
    · exact (StructuredSolver.solve_ensures_delivers host hb hs (hq hcurrent)).mono
        (fun _ _ h => ⟨h.1, hq hcurrent, h.2⟩) fun _ _ h => h
    · exact (solve_leaves s q).mono (fun _ _ h => absurd h.2.1 hcurrent) fun _ _ _ => trivial
  refine Change.ensures_bind (hsolve.mono ?_ fun _ _ _ => trivial)
  rintro ⟨status, r⟩ q' ⟨⟨generated, rfl⟩, hproper, hsolvable, hdelivers⟩
  dsimp only at hdelivers ⊢
  split
  · rename_i hstatus
    obtain ⟨x, hx, hdelivers⟩ := hdelivers hstatus
    refine Change.ensures_bind ((commitRun_ensures s.label r.common _).mono ?_ fun _ _ _ => trivial)
    rintro _ _ ⟨haccepts, c, rfl, hdecision, hobjective⟩
    cases hx.symm.trans hdecision
    have hbuilt := isBuilt_of_not_isDeferred hsolvable.current
    have hinstalled := install_installed (IsBuilt.isDeferred_eq_false
      (p := { q with generatedEpoch := generated })
      ⟨hbuilt.firstRecipe, hbuilt.secondRecipe, hbuilt.master, hbuilt.slots⟩ hsolvable.nonempty)
      hsolvable.nonempty ((accepts_iff hdecision).1 haccepts).2.2 r.common.masterResult
    refine Change.ensures_pure fun _ => ⟨c, _, hproper, hsolvable, hobjective ▸ hdelivers, ?_⟩
    exact
      { current := hinstalled.current
        committed := hinstalled.committed
        count := hinstalled.count
        scenarios := hinstalled.scenarios
        shares := ⟨⟨rfl, rfl, rfl, rfl⟩, rfl, hinstalled.shares.payloads⟩
        consistent := fun h => hinstalled.consistent
          ((Marked.transitions ⟨generated, rfl⟩).consistent h)
        first := hinstalled.first
        recourse := hinstalled.recourse }
  · rename_i hother
    exact Change.ensures_pure fun hstatus => absurd hstatus hother

/-- A program that optimizing calls optimal was built and weighed, and what a run on it
delivered is installed. -/
theorem optimize_ensures_installed (host : Host.Sound σ F) {solver : Option (Solver σ (Exact F))}
    {s : StructuredSolver σ (Exact F)} (hsolver : p.solverFor solver = .structured s)
    (hb : s.backend.Faithful) (hs : s.Configured) {P : Program σ (Exact F) → Prop}
    (hready : (do generate; validate none : Edit σ (Exact F) Unit).Ensures p
      (fun _ q => (q.isDeferred = false → q.Proper) ∧ P q) fun _ _ => True) :
    (optimize solver).Ensures p (fun status p' => status = .optimal → ∃ q c results, P q ∧
      q.Proper ∧ q.Solvable ∧ q.Delivers s.method c.decision c.objective results ∧
        q.Installed p' c results) fun _ _ => True := by
  have hall : (do
      (do generate; validate none : Edit σ (Exact F) Unit)
      let (status, r) ← s.solve
      if status = .optimal then s.commit r
      return status : Edit σ (Exact F) Status).Ensures p
      (fun status p' => status = .optimal → ∃ q c results, P q ∧ q.Proper ∧ q.Solvable ∧
        q.Delivers s.method c.decision c.objective results ∧ q.Installed p' c results)
      fun _ _ => True := by
    refine Change.ensures_bind (hready.mono ?_ fun _ _ h => h)
    rintro _ q ⟨hq, hP⟩
    refine (solve_commit_ensures host hb hs hq).mono ?_ fun _ _ h => h
    intro status p' h hstatus
    obtain ⟨c, results, hproper, hsolvable, hdelivers, hinstalled⟩ := h hstatus
    exact ⟨q, c, results, hP, hproper, hsolvable, hdelivers, hinstalled⟩
  unfold optimize
  refine Change.ensures_bind (Change.ensures_state ?_)
  rw [hsolver]
  unfold StructuredSolver.solve at hall
  simpa only [bind_assoc] using hall

/-! ## Committed solutions -/

/-- The result that is loaded into the model of a scenario, an empty one where there is
none. -/
def loaded (p : Program σ (Exact F)) (i : Nat) : SolveResult (Exact F) :=
  (p.recourse i).result.getD default

/-- A program holds a solution that is consistent: its decision fits the first stage, every
scenario has a point that fits its recourse there, and its objective is their value. -/
structure Committed (p : Program σ (Exact F)) (c : Solution (Exact F)) : Prop where
  /-- Everything is built. -/
  current : p.isDeferred = false
  /-- The solution is handed out. -/
  committed : p.committed = .ok c
  /-- There is one value per decision. -/
  count : p.decisionCount = .ok c.decision.length
  /-- The decision fits the first stage. -/
  fits : p.firstStage.Fits (coord c.decision) (coord c.decision)
  /-- Every subproblem has a result that fits it at the decision. -/
  recourse : ∀ i < p.scenarioCount, (p.recourse i).result = some (p.loaded i) ∧
    p.PlacedAt c.decision i (p.loaded i)
  /-- The objective of a result is what its subproblem makes of its point. -/
  evaluated : ∀ i < p.scenarioCount,
    (p.recourse i).evaluateObjective (p.loaded i).point = .ok (p.loaded i).objective
  /-- The objective is that of the decision and the expected one of the results. -/
  objective : ∃ first, p.firstStage.evaluateObjective c.decision = .ok (.finite first) ∧
    c.objective = .finite (first +
      ∑ i ∈ Finset.range p.scenarioCount, p.weight i * (p.loaded i).objective.value)

section Installed

variable {c : Solution (Exact F)} {results : List (SolveResult (Exact F))}

theorem Installed.scenarioCount_eq (h : q.Installed p' c results) :
    p'.scenarioCount = q.scenarioCount := scenarioCount_congr h.scenarios

theorem Installed.weight_eq (h : q.Installed p' c results) (i : Nat) :
    p'.weight i = q.weight i := by
  rw [weight, weight, probabilities, probabilities, h.scenarios]

theorem Installed.loaded_eq (h : q.Installed p' c results) {i : Nat} (hi : i < q.scenarioCount) :
    p'.loaded i = results.getD i default := by
  rw [loaded, h.recourse i hi]
  rfl

theorem Installed.remains (h : q.Installed p' c results) (hpq : p.Remains q) : p.Remains p' where
  count := h.scenarioCount_eq.trans hpq.count
  first := by
    refine Eq.trans ?_ hpq.first
    rcases h.first with hfirst | ⟨r, hfirst⟩ <;> rw [hfirst]
    rfl
  second := fun i hi => by
    rw [h.recourse i (hpq.count.symm ▸ hi)]
    exact hpq.second i hi
  payloads := (congrArg (List.map (·.data)) h.scenarios).trans hpq.payloads
  probabilities := fun htotal => by
    rw [← hpq.probabilities htotal, Program.probabilities, Program.probabilities, h.scenarios]

/-- What a run delivered is held by the program that it is installed in. -/
theorem Installed.committed_of_delivers (h : q.Installed p' c results) (hq : q.Proper)
    {method : Method} (hdelivers : q.Delivers method c.decision c.objective results) :
    p'.Committed c := by
  have hcount := h.scenarioCount_eq
  have hplaced : ∀ i < q.scenarioCount, q.PlacedAt c.decision i (p'.loaded i) := fun i hi => by
    rw [h.loaded_eq hi]
    exact (getD_of_forall₂_range hdelivers.recourse hi).1
  refine
    { current := h.current
      committed := h.committed
      count := h.count
      fits := ?_
      recourse := fun i hi => ?_
      evaluated := fun i hi => ?_
      objective := ⟨q.firstStage.objectiveAt (coord c.decision), ?_, ?_⟩ }
  · rcases h.first with hfirst | ⟨r, hfirst⟩ <;> rw [hfirst]
    · exact hdelivers.fits
    · exact (Model.fits_load_iff r _ _).2 hdelivers.fits
  · rw [hcount] at hi
    obtain ⟨hfinite, hlength, hfits, hobjective⟩ := hplaced i hi
    have hrecourse := h.recourse i hi
    refine ⟨?_, hfinite, ?_, ?_, ?_⟩
    · rw [h.loaded_eq hi, hrecourse]
      rfl
    · rw [hrecourse]
      exact hlength
    · rw [hrecourse]
      exact (Model.fits_load_iff _ _ _).2 hfits
    · rw [hrecourse]
      exact hobjective
  · rw [hcount] at hi
    obtain ⟨hfinite, hlength, -, hobjective⟩ := hplaced i hi
    rw [h.recourse i hi, hobjective]
    exact Model.evaluateObjective_eq (hq.second i hi).coherent hfinite hlength
  · have hvalue := Model.evaluateObjective_eq hq.first.coherent hdelivers.finite hdelivers.length
    rcases h.first with hfirst | ⟨r, hfirst⟩ <;> rw [hfirst]
    · exact hvalue
    · exact hvalue
  · rw [hdelivers.objective, valueAt, hcount]
    refine congrArg (fun total => Exact.finite (_ + total)) (Finset.sum_congr rfl fun i hi => ?_)
    have hi := Finset.mem_range.1 hi
    rw [(hplaced i hi).objective, h.loaded_eq hi, h.weight_eq, Exact.value_finite]

/-- Of a scenario that counts for the method an optimum is held. -/
theorem Installed.optimalAt (h : q.Installed p' c results) (hq : q.Proper) {method : Method}
    (hdelivers : q.Delivers method c.decision c.objective results) {i : Nat}
    (hi : i < q.scenarioCount) (hcounts : method = .lshaped ∨ 0 < p'.weight i) :
    (p'.recourse i).OptimalAt c.decision (p'.loaded i) := by
  obtain ⟨-, hrecovered⟩ := getD_of_forall₂_range hdelivers.recourse hi
  rw [← h.loaded_eq hi] at hrecovered
  rw [h.weight_eq] at hcounts
  have hsuits := Model.suits_of_length (m := q.recourse i) hdelivers.finite
    (hdelivers.length.symm ▸ hq.placeholders i hi)
  rw [h.recourse i hi]
  exact ((hrecovered.optimum hcounts).optimalAt (hq.second i hi) hsuits).load _

end Installed

/-- The solver of the stock, by the deterministic equivalent. -/
theorem standard_configured :
    (StructuredSolver.standard : StructuredSolver σ (Exact F)).Configured := nofun

/-- What a program comes to that is optimized on a transcript. -/
def optimized (p : Program (Transcript ℚ) (Exact ℚ)) (s : StructuredSolver (Transcript ℚ) (Exact ℚ))
    (t : Transcript ℚ) : Except (Fault (Exact ℚ)) Status × Program (Transcript ℚ) (Exact ℚ) :=
  (((optimize (some (.structured s))).runOn p).run ⟨t, [], 0⟩).1

/-- What is ensured of an optimum holds of one that can be evaluated. -/
theorem optimized_spec {p : Program (Transcript ℚ) (Exact ℚ)}
    {s : StructuredSolver (Transcript ℚ) (Exact ℚ)} {t : Transcript ℚ}
    {P : Program (Transcript ℚ) (Exact ℚ) → Prop}
    (h : (optimize (some (.structured s))).Ensures p (fun status p' => status = .optimal → P p')
      fun _ _ => True)
    (hrun : (optimized p s t).1.toOption = some .optimal) : P (optimized p s t).2 := by
  have hledger := h ⟨t, [], 0⟩
  change (((optimize (some (.structured s))).run.run (p, ⟨t, [], 0⟩)).1.toOption = some _) at hrun
  show P ((optimize (some (.structured s))).run.run (p, ⟨t, [], 0⟩)).2.1
  generalize (optimize (some (.structured s))).run.run (p, ⟨t, [], 0⟩) = after at hledger hrun ⊢
  obtain ⟨r, p', ledger⟩ := after
  cases r with
  | ok status => exact hledger (Option.some.inj hrun)
  | error f => cases hrun

/-- The stock is solved by cuts. -/
def stockSolver : StructuredSolver (Transcript ℚ) (Exact ℚ) where
  method := .lshaped
  config := LShaped.exactConfig
  backend := Backend.plain

/-- At least one unit is stocked. -/
def reserve : Model (Exact ℚ) :=
  { (Model.empty "reserve" : Model (Exact ℚ)) with
    columns := [⟨0, 1, .plusInfinity, some "x", none⟩]
    objective? := some ⟨[(0, 1)], 0, []⟩ }

/-- As much again is kept. -/
def upkeep : Model (Exact ℚ) :=
  { (Model.empty "upkeep" : Model (Exact ℚ)) with
    columns := [⟨0, .minusInfinity, .plusInfinity, some "x", some 0⟩,
      ⟨1, 0, .plusInfinity, some "y", none⟩]
    rows := [⟨⟨[(0, -1), (1, 1)], 0, []⟩, .atLeast, 0, none, 0, 0⟩]
    objective? := some ⟨[(1, 1)], 0, []⟩ }

end Program

end Recourse
