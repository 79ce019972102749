/-
  Proofs/Program/Commitment.lean --- committing what was computed before.

  A solver is set up on a program, run, and committed, and the program may be worked on in
  between.  What a commit checks is `Program.Accepts`.  These checks catch every change of
  the scenarios: the number of scenarios never falls, and with the same number and a total
  of one they are the same (`Later`).  They do not catch a change of the data or of the
  recipe of the first stage, nor one of the second stage that was built again
  (`Session.commit_checks`).
-/
import Recourse.Proofs.Program.Freshness
import Recourse.Proofs.Solver.Results

set_option autoImplicit false
set_option linter.unusedSectionVars false

namespace Recourse

variable {F : Type} [Field F] [LinearOrder F] [IsStrictOrderedRing F] [FloorRing F] {σ : Type}

namespace Program

variable {p p' p'' : Program σ (Exact F)}

/-! ## What work leaves alone -/

theorem Consistent.totalProbability_eq (hp : p.Consistent) :
    p.totalProbability = .finite (p.scenarios.map (·.probability.value)).sum :=
  hp.weighted.totalProbability_eq

/-- What is the same about a program after it was worked on. -/
structure Later (p p' : Program σ (Exact F)) : Prop where
  /-- It is the same program. -/
  id : p'.id = p.id
  /-- There still is a recipe of the first stage. -/
  firstRecipe : p.firstRecipe.isSome = true → p'.firstRecipe.isSome = true
  /-- No epoch of the second stage comes back. -/
  epoch : p.secondEpoch ≤ p'.secondEpoch
  /-- Within an epoch the second stage has the same data and the same recipe. -/
  second : p'.secondEpoch = p.secondEpoch →
    p'.secondData = p.secondData ∧ p'.secondRecipe = p.secondRecipe
  /-- No scenario goes. -/
  count : p.scenarioCount ≤ p'.scenarioCount
  /-- Where none came and they weigh one, the scenarios are the same. -/
  scenarios : isTotal p.totalProbability = true → p'.scenarioCount = p.scenarioCount →
    p'.scenarios = p.scenarios

theorem scenarioCount_congr (h : p'.scenarios = p.scenarios) :
    p'.scenarioCount = p.scenarioCount := by
  have hlength := congrArg List.length h
  rwa [scenarios, scenarios, List.length_map, List.length_map] at hlength

theorem Later.refl (p : Program σ (Exact F)) : Later p p :=
  ⟨rfl, fun h => h, le_rfl, fun _ => ⟨rfl, rfl⟩, le_rfl, fun _ _ => rfl⟩

theorem Later.trans (hp : p.Consistent) (hp' : p'.Consistent) (h : Later p p')
    (h' : Later p' p'') : Later p p'' where
  id := h'.id.trans h.id
  firstRecipe := fun hr => h'.firstRecipe (h.firstRecipe hr)
  epoch := h.epoch.trans h'.epoch
  second := by
    intro hepoch
    have hbetween : p'.secondEpoch = p.secondEpoch :=
      le_antisymm (hepoch ▸ h'.epoch) h.epoch
    obtain ⟨hdata, hrecipe⟩ := h.second hbetween
    obtain ⟨hdata', hrecipe'⟩ := h'.second (hepoch.trans hbetween.symm)
    exact ⟨hdata'.trans hdata, hrecipe'.trans hrecipe⟩
  count := h.count.trans h'.count
  scenarios := by
    intro htotal hcount
    have hbetween : p'.scenarioCount = p.scenarioCount := le_antisymm (hcount ▸ h'.count) h.count
    have hsame := h.scenarios htotal hbetween
    refine (h'.scenarios ?_ (hcount.trans hbetween.symm)).trans hsame
    rwa [hp'.totalProbability_eq, hsame, ← hp.totalProbability_eq]

/-- Work that touches neither the second stage nor the scenarios. -/
theorem Later.of_scenarios (hid : p'.id = p.id)
    (hfirst : p.firstRecipe.isSome = true → p'.firstRecipe.isSome = true)
    (hepoch : p'.secondEpoch = p.secondEpoch) (hdata : p'.secondData = p.secondData)
    (hrecipe : p'.secondRecipe = p.secondRecipe) (hscenarios : p'.scenarios = p.scenarios) :
    Later p p' :=
  ⟨hid, hfirst, hepoch.ge, fun _ => ⟨hdata, hrecipe⟩, (scenarioCount_congr hscenarios).ge,
    fun _ _ => hscenarios⟩

/-- Loading results changes nothing that a later commit could check. -/
theorem later_install (p : Program σ (Exact F)) (solution : Solution (Exact F))
    (results : List (SolveResult (Exact F))) (master : Option (SolveResult (Exact F))) :
    Later p (p.install solution results master) :=
  .of_scenarios rfl (fun h => h) rfl rfl rfl (scenarios_install p solution results master)

/-- A new epoch of the second stage, with the same scenarios. -/
theorem Later.of_epoch (hid : p'.id = p.id)
    (hfirst : p.firstRecipe.isSome = true → p'.firstRecipe.isSome = true)
    (hepoch : p.secondEpoch < p'.secondEpoch) (hscenarios : p'.scenarios = p.scenarios) :
    Later p p' :=
  ⟨hid, hfirst, hepoch.le, fun hsame => absurd hsame hepoch.ne',
    (scenarioCount_congr hscenarios).ge, fun _ _ => hscenarios⟩

variable [Host σ (Exact F)]

theorem Transition.later (h : Transition p p') : Later p p' := by
  cases h with
  | firstData | noted => exact .of_scenarios rfl (fun h => h) rfl rfl rfl rfl
  | firstRecipe => exact .of_scenarios rfl (fun _ => rfl) rfl rfl rfl rfl
  | secondData => exact .of_epoch rfl (fun h => h) (Int.lt_add_one_of_le le_rfl) rfl
  | secondRecipe => exact .of_epoch rfl (fun h => h) (Int.lt_add_one_of_le le_rfl) rfl
  | @master r m hr hstale hm =>
    by_cases hrenamed : (p.decisions.isSome && p.decisions ≠ some m.decisions) = true
    · refine .of_epoch rfl (fun h => h) ?_ rfl
      simp only [installMaster, hrenamed, if_true]
      omega
    · exact .of_scenarios rfl (fun h => h) (if_neg hrenamed) rfl rfl rfl
  | subproblems hr hd hworkers hslots =>
    exact .of_scenarios rfl (fun h => h) rfl rfl rfl
      (map_scenario_eq hslots fun _ _ h => h.scenario_eq)
  | spread hworkers hslots =>
    exact .of_scenarios rfl (fun h => h) rfl rfl rfl
      (congrArg (List.map fun s : Slot (Exact F) => s.scenario) hslots)
  | scenarios hworkers hslots hchange =>
    refine ⟨rfl, fun h => h, le_rfl, fun _ => ⟨rfl, rfl⟩, ?_, fun htotal hcount => ?_⟩
    · rcases hchange with hsub | hlt | ⟨heq, -⟩
      · exact hsub.length_le
      · exact hlt.le
      · exact heq.le
    · rcases hchange with hsub | hlt | ⟨-, hnot⟩
      · exact congrArg (List.map (·.scenario)) (hsub.eq_of_length hcount.symm).symm
      · exact absurd hcount hlt.ne'
      · rw [htotal] at hnot
        cases hnot
  | solved results master generated hcurrent hnonempty hcomputes => exact later_install p _ _ _

theorem Transitions.later (h : Transitions p p') (hp : p.Consistent) : Later p p' := by
  induction h with
  | refl => exact .refl p
  | tail hmoves hlast ih => exact ih.trans hp (Transitions.consistent hmoves hp) hlast.later

/-! ## Sessions -/

/-- A program that is worked on: operations, and commits of any run of any solver, refused
or not. -/
inductive Worked (p : Program σ (Exact F)) : Program σ (Exact F) → Prop
  /-- Nothing was done. -/
  | refl : Worked p p
  /-- An operation was tried. -/
  | operation {p' : Program σ (Exact F)} {op : Operation σ (Exact F)} (h : Worked p p')
      (hop : op.Allowed) (ledger : Ledger σ (Exact F)) :
      Worked p ((op.edit.runOn p').run ledger).1.2
  /-- A commit was tried. -/
  | commit {p' : Program σ (Exact F)} (h : Worked p p') (s : StructuredSolver σ (Exact F))
      (r : SolverRun (Exact F)) (ledger : Ledger σ (Exact F)) :
      Worked p (((s.commit r).runOn p').run ledger).1.2

/-- A program that is worked on stays in order. -/
theorem Worked.consistent_later (h : Worked p p') (hp : p.Consistent) :
    p'.Consistent ∧ Later p p' := by
  induction h with
  | refl => exact ⟨hp, .refl p⟩
  | @operation p' op _ hop ledger ih =>
    obtain ⟨hp', hlater⟩ := ih
    have hmoves : Transitions p' ((op.edit.runOn p').run ledger).1.2 :=
      Change.Ensures.after (Operation.edit_moves Exact.weighing hp' hop) ledger
    exact ⟨hmoves.consistent hp', hlater.trans hp hp' (hmoves.later hp')⟩
  | @commit p' _ s r ledger ih =>
    obtain ⟨hp', hlater⟩ := ih
    refine Change.Ensures.after (c := s.commit r) (s := p')
      (P := fun q => q.Consistent ∧ Later p q) ?_ ledger
    refine (commitRun_ensures s.label r.common p').mono ?_ ?_
    · rintro _ _ ⟨-, solution, rfl, -⟩
      exact ⟨hp'.install _ _ _, hlater.trans hp hp' (later_install p' _ _ _)⟩
    · rintro _ _ ⟨-, rfl⟩
      exact ⟨hp', hlater⟩

/-- The program whose scenarios a run solves: the deterministic equivalent is made when the
run is set up, and the L-shaped method solves subproblems as it goes. -/
def seenBy (r : SolverRun (Exact F)) (built ran : Program σ (Exact F)) : Program σ (Exact F) :=
  match r with
  | .extensive _ => built
  | .lshaped _ => ran

/-- A solver is set up on a program, run on what has become of it, and what has become of it
since is now there to be committed to. -/
inductive Session (s : StructuredSolver σ (Exact F)) :
    Program σ (Exact F) → Program σ (Exact F) → Program σ (Exact F) → SolverRun (Exact F) → Prop
  /-- Work goes on before the setup, between setup and run, and after the run. -/
  | intro {made built left ran now : Program σ (Exact F)} {r : SolverRun (Exact F)}
      {ledger ledger' : Ledger σ (Exact F)} (hmade : Made made) (hbefore : Worked made built)
      (hbuild : (s.build.runOn built).run ledger = ((.ok r, left), ledger'))
      (hbetween : Worked left ran) (ledger'' : Ledger σ (Exact F)) (hafter : Worked ran now) :
      Session s built ran now (((s.run ran).runOn r).run ledger'').1.2

/-- A run as it was set up on a program. -/
def Ready (p : Program σ (Exact F)) : SolverRun (Exact F) → Prop
  | .extensive e => e.status ≠ .optimal ∧
      (e.form.columns.zip e.form.rows).length = p.scenarioCount
  | .lshaped l => ∀ n, l.Counts n l.phase

theorem build_ready (s : StructuredSolver σ (Exact F)) (p : Program σ (Exact F)) :
    (s.build : Edit σ (Exact F) (SolverRun (Exact F))).Ensures p
      (fun r p' => Ready p r ∧ p.Solvable ∧ Marked p p') fun _ _ => True := by
  have hlength : (p.equivalent.columns.zip p.equivalent.rows).length = p.scenarioCount := by
    have hzip : (p.probabilities.zip ((List.range p.scenarioCount).map p.recourse)).length =
        p.scenarioCount := by simp [length_probabilities]
    obtain ⟨hcolumns, hrows⟩ := ExtensiveForm.length_build p.firstStage
      (p.probabilities.zip ((List.range p.scenarioCount).map p.recourse))
    rw [List.length_zip, equivalent, hcolumns, hrows, min_self, hzip]
  unfold StructuredSolver.build
  split
  · unfold ExtensiveState.build
    refine Change.ensures_bind (Change.ensures_bind (p.requireSolvable_ensures.mono ?_
      fun _ _ h => h))
    rintro master _ ⟨rfl, hs, -⟩
    refine Change.ensures_bind ((extensiveForm_ensures hs.current).mono ?_ fun _ _ _ => trivial)
    rintro form p' ⟨rfl, hp'⟩
    refine Change.ensures_bind (Change.ensures_state (Change.ensures_ofAct_bind (fun _ => ?_)
      fun _ => trivial))
    refine Change.ensures_pure (Change.ensures_pure ⟨⟨?_, hlength⟩, hs, _, hp'⟩)
    intro hstatus
    cases hstatus
  · refine Change.ensures_lift_bind (fun method _ => ?_) fun _ => trivial
    unfold LShaped.build
    refine Change.ensures_bind (Change.ensures_bind (p.requireSolvable_ensures.mono ?_
      fun _ _ h => h))
    rintro master _ ⟨rfl, hs, -⟩
    refine Change.ensures_lift_bind (fun form _ => ?_) fun _ => trivial
    refine Change.ensures_bind (Change.ensures_state (Change.ensures_ofAct_bind (fun _ => ?_)
      fun _ => trivial))
    refine Change.ensures_pure (Change.ensures_pure ⟨fun n => ⟨?_, ?_, ?_⟩, hs, .refl _⟩)
    · intro hphase
      cases hphase
    · intro i hi
      cases hi
    · intro hstatus
      cases hstatus

/-- An optimum has a result for every scenario that the run saw. -/
theorem run_counts (s : StructuredSolver σ (Exact F)) {built : Program σ (Exact F)}
    (ran : Program σ (Exact F)) {r : SolverRun (Exact F)} (h : Ready built r)
    (ledger : Ledger σ (Exact F)) :
    let r' := (((s.run ran).runOn r).run ledger).1.2
    r'.common.status = .optimal →
      r'.common.secondStage.length = (seenBy r' built ran).scenarioCount := by
  cases r with
  | extensive e =>
    intro r' hstatus
    have hcounts := ExtensiveState.run_counts s.config s.backend ran h.1 ledger hstatus
    exact hcounts.trans h.2
  | lshaped l =>
    cases hm : s.lshaped with
    | error f =>
      have hsame : (((s.run ran).runOn (.lshaped l)).run ledger).1.2 = .lshaped l := by
        simp only [StructuredSolver.run, Change.runOn, hm]
        rfl
      rw [hsame]
      exact (h _).solution
    | ok m =>
      have hrun : (((s.run ran).runOn (.lshaped l)).run ledger).1.2 =
          .lshaped (((LShaped.run m ran).runOn l).run ledger).1.2 := by
        simp only [StructuredSolver.run, Change.runOn, hm]
        rfl
      rw [hrun]
      exact LShaped.run_counts (h _) ledger

variable {s : StructuredSolver σ (Exact F)} {built ran now : Program σ (Exact F)}
  {r : SolverRun (Exact F)}

/-- The program that a session ends with is in order, it comes from the one whose scenarios
the run saw, and an optimum has a result for each of those. -/
theorem Session.spec (h : Session s built ran now r) : now.Consistent ∧ built.Solvable ∧
    (∃ recipe, now.firstRecipe = some recipe) ∧ Later (seenBy r built ran) now ∧
      (r.common.status = .optimal →
        r.common.secondStage.length = (seenBy r built ran).scenarioCount) := by
  obtain ⟨hmade, hbefore, hbuild, hbetween, ledger, hafter⟩ := h
  rename_i made left r₀ ledger₀ ledger₁
  obtain ⟨hready, hsolvable, hmarked⟩ := (build_ready s built).of_runOn hbuild
  have hbuilt := (hbefore.consistent_later hmade.invariant.toConsistent).1
  obtain ⟨hleft, hleftLater⟩ : left.Consistent ∧ Later built left :=
    ⟨hmarked.transitions.consistent hbuilt, hmarked.transitions.later hbuilt⟩
  obtain ⟨hran, hranLater⟩ := hbetween.consistent_later hleft
  obtain ⟨hnow, hnowLater⟩ := hafter.consistent_later hran
  have hbuiltRan := hleftLater.trans hbuilt hleft hranLater
  have hbuiltNow := hbuiltRan.trans hbuilt hran hnowLater
  refine ⟨hnow, hsolvable, ?_, ?_, run_counts s ran hready ledger⟩
  · obtain ⟨recipe, hrecipe⟩ := exists_firstRecipe_of_not_isDeferred hsolvable.current
    exact Option.isSome_iff_exists.1 (hbuiltNow.firstRecipe (by rw [hrecipe]; rfl))
  · unfold seenBy
    split
    · exact hbuiltNow
    · exact hnowLater

/-! ## What commits catch -/

/-- A program whose first-stage model was built for other data, with a solution that is the
end of some run. -/
structure Outdated (p : Program σ (Exact F)) (value : Value (Exact F)) (r : RunState (Exact F)) :
    Prop where
  /-- These are the data. -/
  data : p.firstData = value
  /-- The model is not one of them. -/
  stale : p.stageState .first = .stale
  /-- The run ended with the solution. -/
  solution : ∃ solution, p.solution = some solution ∧ r.decision = some solution.decision ∧
    r.objective = solution.objective

/-- New data of the first stage are not noticed: what was accepted before is committed
still, and the program has a solution while its first stage is stale. -/
theorem commit_outdated (hp : p.Consistent) (hrecipe : ∃ recipe, p.firstRecipe = some recipe)
    {r : SolverRun (Exact F)} (h : p.Accepts r.common) (s : StructuredSolver σ (Exact F))
    (value : Value (Exact F)) :
    (do setData .first value; s.commit r : Edit σ (Exact F) Unit).Ensures p
      (fun _ p' => p'.Outdated value r.common) fun _ _ => False := by
  refine Change.ensures_bind (Change.ensures_update ((commitRun_ensures s.label r.common _).mono
    ?_ ?_))
  · rintro _ _ ⟨-, solution, rfl, hdecision, hobjective⟩
    refine ⟨rfl, ?_, solution, rfl, hdecision, hobjective⟩
    obtain ⟨recipe, hrecipe⟩ := hrecipe
    obtain ⟨x, d, -, hd, -⟩ := h.decision
    obtain ⟨⟨m, e⟩, hm, -⟩ := Option.map_eq_some_iff.1 (hp.handle.symm.trans hd)
    have hepoch : e ≠ p.firstEpoch + 1 := by
      have hle := hp.masterEpoch m e hm
      omega
    cases hmaster : r.common.masterResult with
    | none => simp [stageState, firstState, install, hrecipe, hm, hepoch]
    | some result => simp [stageState, firstState, install, hrecipe, hm, hepoch]
  · rintro _ _ ⟨hnot, -⟩
    exact hnot ⟨h.id, h.optimal, h.decision, h.results⟩

/-- At the end of every session: a commit succeeds exactly where the program accepts the
run.  Then the scenarios are those that the run saw, where those weigh one, as they did
when the run was set up; and unless the second stage entered a new epoch, its data and its
recipe are those that the run saw.  About the first stage nothing follows: whatever its
data become, the run is committed still. -/
theorem Session.commit_checks (h : Session s built ran now r) :
    (s.commit r : Edit σ (Exact F) Unit).Ensures now
      (fun _ after => now.Accepts r.common ∧ after.solution.isSome = true)
      (fun _ after => ¬ now.Accepts r.common ∧ after = now) ∧
    isTotal built.totalProbability = true ∧
    (now.Accepts r.common →
      (isTotal (seenBy r built ran).totalProbability = true →
        now.scenarios = (seenBy r built ran).scenarios) ∧
      (now.secondEpoch = (seenBy r built ran).secondEpoch →
        now.secondData = (seenBy r built ran).secondData ∧
          now.secondRecipe = (seenBy r built ran).secondRecipe) ∧
      ∀ value, (do setData .first value; s.commit r : Edit σ (Exact F) Unit).Ensures now
        (fun _ after => after.Outdated value r.common) fun _ _ => False) := by
  obtain ⟨hnow, hbuilt, hrecipe, hlater, hcount⟩ := h.spec
  refine ⟨?_, hbuilt.total, fun haccepts => ⟨fun htotal => ?_, hlater.second, ?_⟩⟩
  · refine (commitRun_ensures s.label r.common now).mono ?_ fun _ _ h => h
    rintro _ _ ⟨haccepts, solution, rfl, -⟩
    exact ⟨haccepts, rfl⟩
  · -- There is a result per scenario, then and now.
    refine hlater.scenarios htotal ?_
    have hresults := haccepts.results.length_eq
    exact hresults.trans (hcount haccepts.optimal)
  · exact commit_outdated hnow hrecipe haccepts s

/-! ## A late commit -/

/-- A new program is worked on, and a solver is set up on it and run. -/
def rehearse (setup : Setup σ (Exact F)) (ops : List (Operation σ (Exact F)))
    (s : StructuredSolver σ (Exact F)) (ledger : Ledger σ (Exact F)) :
    Option (Program σ (Exact F) × SolverRun (Exact F)) :=
  match (create setup).run.run ledger with
  | (.error _, _) => none
  | (.ok made, ledger) =>
      match (s.build.runOn (perform ops made ledger)).run ledger with
      | ((.error _, _), _) => none
      | ((.ok r, left), ledger) => some (left, (((s.run left).runOn r).run ledger).1.2)

theorem Worked.perform {ops : List (Operation σ (Exact F))} (hops : ∀ op ∈ ops, op.Allowed)
    (h : Worked p p') (ledger : Ledger σ (Exact F)) : Worked p (perform ops p' ledger) := by
  induction ops generalizing p' ledger with
  | nil => exact h
  | cons op ops ih =>
    refine ih (fun op hop => hops op (List.mem_cons_of_mem _ hop)) ?_ _
    exact h.operation (hops op List.mem_cons_self) ledger

/-- A session that can be evaluated, with a program and a run that pass a check. -/
theorem exists_session (setup : Setup σ (Exact F)) {ops : List (Operation σ (Exact F))}
    (hops : ∀ op ∈ ops, op.Allowed) (s : StructuredSolver σ (Exact F))
    (ledger : Ledger σ (Exact F)) (q : Program σ (Exact F) × SolverRun (Exact F) → Bool)
    (h : (rehearse setup ops s ledger).any q = true) :
    ∃ built ran r, Session s built ran ran r ∧ q (ran, r) = true := by
  unfold rehearse at h
  generalize hmade : (create setup).run.run ledger = made at h
  obtain ⟨result, ledger'⟩ := made
  cases result with
  | error f => cases h
  | ok made =>
    dsimp only at h
    generalize hbuild : (s.build.runOn (perform ops made ledger')).run ledger' = after at h
    obtain ⟨⟨result, left⟩, ledger''⟩ := after
    cases result with
    | error f => cases h
    | ok r =>
      exact ⟨_, left, _, .intro (.empty setup hmade) (Worked.refl.perform hops ledger') hbuild .refl
        ledger'' .refl, h⟩

/-- The full stock is committed, also where something else is known of the stock by then. -/
theorem stock_commit_checks : ∃ (built ran : Program (Transcript ℚ) (Exact ℚ))
    (r : SolverRun (Exact ℚ)), Session StructuredSolver.standard built ran ran r ∧
      ran.Accepts r.common ∧ r.common.decision = some [.finite 3] ∧
        ∀ value, (do setData .first value; StructuredSolver.standard.commit r :
          Edit (Transcript ℚ) (Exact ℚ) Unit).Ensures ran
            (fun _ after => after.Outdated value r.common) fun _ _ => False := by
  obtain ⟨built, ran, r, hsession, hcheck⟩ := exists_session Setup.standard stockSetup_allowed
    StructuredSolver.standard ⟨fullStock, [], 0⟩
    (fun last => last.2.common.decision == some [.finite 3] &&
      (((StructuredSolver.standard.commit last.2).runOn last.1).run
        ⟨fullStock, [], 0⟩).1.1.toOption.isSome)
    (by decide +kernel)
  simp only [Bool.and_eq_true, beq_iff_eq] at hcheck
  obtain ⟨hchecks, -, hcatch⟩ := hsession.commit_checks
  have haccepts : ran.Accepts r.common := by
    have hcommit := hchecks ⟨fullStock, [], 0⟩
    have hdone := hcheck.2
    change (((StructuredSolver.standard.commit r).run.run (ran, ⟨fullStock, [], 0⟩)).1.toOption.isSome
      = true) at hdone
    cases hresult : ((StructuredSolver.standard.commit r).run.run (ran, ⟨fullStock, [], 0⟩)).1 with
    | ok a => exact (hcommit.of_ok hresult).1
    | error f =>
      rw [hresult] at hdone
      cases hdone
  exact ⟨built, ran, r, hsession, haccepts, hcheck.1, (hcatch haccepts).2.2⟩

end Program

end Recourse
