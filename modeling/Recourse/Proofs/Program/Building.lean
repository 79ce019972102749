/-
  Proofs/Program/Building.lean --- what is built from pure recipes.

  Building takes nothing from a program but its data, recipes and payloads, and it changes
  none of these (`generate_keeps`).  So what pure recipes build does not depend on when or
  in which program it was built: programs in order that share data and recipes have the
  same first stage up to loaded results, and the same recourse to the same payload
  (`Consistent.firstStage_clear`, `Consistent.recourse_clear`).  Where the models that the
  recipes give are proper, so is the program (`Consistent.proper`).
-/
import Recourse.Proofs.Program.Committed

set_option autoImplicit false
set_option linter.unusedSectionVars false

namespace Recourse

variable {F : Type} [Field F] [LinearOrder F] [IsStrictOrderedRing F] [FloorRing F] {σ : Type}

/-! ## Models without their results -/

namespace Model

variable {m m₀ : Model (Exact F)}

theorem LoadedFrom.clear_eq (h : m.LoadedFrom m₀) : m.clear = m₀.clear := by
  rcases h with rfl | ⟨r, rfl⟩ <;> rfl

theorem proper_clear_iff : m.clear.Proper ↔ m.Proper :=
  ⟨fun h => ⟨h.numbered, h.uncrossed, h.placeholders, h.aligned, h.relations, h.rows, h.objective⟩,
    fun h => ⟨h.numbered, h.uncrossed, h.placeholders, h.aligned, h.relations, h.rows,
      h.objective⟩⟩

theorem fits_clear_iff {x v : Nat → F} : m.clear.Fits x v ↔ m.Fits x v :=
  ⟨fun h => ⟨h.rows, h.columns⟩, fun h => ⟨h.rows, h.columns⟩⟩

/-- Models that differ in their results are proper alike. -/
theorem proper_congr (h : m.clear = m₀.clear) : m.Proper ↔ m₀.Proper := by
  rw [← proper_clear_iff, h, proper_clear_iff]

/-- The same points fit them. -/
theorem fits_congr_clear (h : m.clear = m₀.clear) (x v : Nat → F) :
    m.Fits x v ↔ m₀.Fits x v := by
  rw [← fits_clear_iff, h, fits_clear_iff]

/-- They take the same values. -/
theorem objectiveAt_congr_clear (h : m.clear = m₀.clear) (v : Nat → F) :
    m.objectiveAt v = m₀.objectiveAt v := by
  show m.clear.objectiveAt v = m₀.clear.objectiveAt v
  rw [h]

/-- They have the same sense. -/
theorem goal_congr_clear (h : m.clear = m₀.clear) : m.goal = m₀.goal := by
  show m.clear.goal = m₀.clear.goal
  rw [h]

/-- They have as many columns, with the same names. -/
theorem columns_congr_clear (h : m.clear = m₀.clear) : m.columns = m₀.columns := by
  show m.clear.columns = m₀.clear.columns
  rw [h]

theorem decisionCount_congr_clear (h : m.clear = m₀.clear) :
    m.decisionCount = m₀.decisionCount := by
  show m.clear.decisionCount = m₀.clear.decisionCount
  rw [h]

end Model

/-! ## What recipes check -/

/-- A recipe refuses first-stage models with placeholders. -/
theorem FirstRecipe.generate_own {K : Type} (r : FirstRecipe σ K) (data : Value K) :
    (r.generate data).Ensures (fun m => m.decisionCount = 0) fun _ => True := by
  unfold generate
  refine Act.ensures_bind fun _ => (Settles.self _).mono (fun product _ => ?_) fun _ _ => trivial
  refine Act.ensures_lift_bind (fun m _ => ?_) fun _ => trivial
  dsimp only
  split
  · exact Act.ensures_bind (Act.ensures_fail trivial)
  · rename_i hnone
    exact Act.ensures_pure (not_not.1 hnone)

/-- A first-stage model that a recipe gives has no placeholders. -/
theorem FirstRecipe.Gives.own {r : FirstRecipe σ (Exact F)} {data : Value (Exact F)}
    {m : Model (Exact F)} (env : σ) (h : r.Gives data m) : m.decisionCount = 0 := by
  have hgiven := generate_own r data ⟨env, [], 0⟩
  rw [h] at hgiven
  exact hgiven

/-- A second-stage model that a recipe gives has a placeholder for every decision or none. -/
theorem SecondRecipe.Gives.placeholders {r : SecondRecipe σ (Exact F)} {data : Value (Exact F)}
    {d : Decisions} {payload : Value (Exact F)} {m : Model (Exact F)} (env : σ)
    (h : r.Gives data d payload m) : m.decisionCount = 0 ∨ m.decisionCount = d.names.length := by
  have hchecked : (r.generate data d payload).Ensures
      (fun m => m.decisionCount = 0 ∨ m.decisionCount = d.names.length) fun _ => True := by
    unfold generate
    refine Act.ensures_bind fun _ => (Settles.self _).mono (fun product _ => ?_) fun _ h => h
    refine Act.ensures_lift_bind (fun m _ => ?_) fun _ => trivial
    dsimp only
    split
    · exact Act.ensures_bind (Act.ensures_fail trivial)
    · rename_i hcount
      rw [not_and_or, not_not, not_not] at hcount
      exact Act.ensures_pure hcount
  have hgiven := hchecked ⟨env, [], 0⟩
  rw [h] at hgiven
  exact hgiven

/-- Building a partition leaves its scenarios. -/
theorem Partition.generate_keeps {K : Type} {build : Scenario K → Act σ K (Model K)}
    {epoch offset : Int} (q : Partition K) {E : Fault K → Prop} :
    (q.generate build epoch offset).Ensures
      (fun a => List.Forall₂ (fun s s' => s'.scenario = s.scenario) q.slots a.1.slots) E := by
  have hslot : ∀ s ∈ q.slots,
      (buildSlot build epoch s).Ensures (fun a => a.1.scenario = s.scenario) E := by
    intro s _
    have hbuild : (build s.scenario).Ensures (fun _ => True) fun _ => True := fun _ =>
      (Settles.self _).mono (fun _ _ => trivial) fun _ h => h
    unfold buildSlot
    split
    · exact Act.ensures_pure rfl
    · refine Act.ensures_bind ((Act.ensures_attempt hbuild).mono ?_ fun _ h => h)
      rintro (f | m) -
      · exact Act.ensures_pure rfl
      · exact Act.ensures_pure rfl
  refine Act.ensures_bind ((Act.ensures_forEach _ hslot).mono ?_ fun _ h => h)
  intro results hresults
  exact Act.ensures_pure (List.forall₂_map_right_iff.2 hresults)

namespace Program

variable {p q : Program σ (Exact F)}

/-! ## What building and weighing leave -/

/-- A program was given the same as another one, and it has the same scenarios. -/
structure Keeps (p q : Program σ (Exact F)) : Prop extends p.SameSource q where
  /-- The same solver. -/
  solver : q.solver = p.solver
  /-- The same scenarios, in order. -/
  scenarios : q.scenarios = p.scenarios

theorem Keeps.shares (h : p.Keeps q) : p.Shares q :=
  ⟨h.toSameSource, h.solver, congrArg (List.map (·.data)) h.scenarios⟩

theorem Keeps.trans {r : Program σ (Exact F)} (h : p.Keeps q) (h' : q.Keeps r) : p.Keeps r :=
  ⟨h.toSameSource.trans h'.toSameSource, h'.solver.trans h.solver,
    h'.scenarios.trans h.scenarios⟩

theorem Keeps.refl (p : Program σ (Exact F)) : p.Keeps p := ⟨⟨rfl, rfl, rfl, rfl⟩, rfl, rfl⟩

theorem generateMaster_keeps (r : FirstRecipe σ (Exact F)) (p : Program σ (Exact F)) :
    (generateMaster r : Edit σ (Exact F) Unit).Ensures p (fun _ q => p.Keeps q)
      fun _ _ => True := by
  unfold generateMaster
  refine Change.ensures_bind (Change.ensures_state ?_)
  split
  · exact Change.ensures_pure (.refl p)
  have hbuild : (r.generate p.firstData).Ensures (fun _ => True) fun _ => True := fun _ =>
    (Settles.self _).mono (fun _ _ => trivial) fun _ h => h
  refine Change.ensures_bind (Change.ensures_ofAct (hbuild.mono (fun m _ => ?_) fun _ h => h))
  dsimp only
  split
  · exact Change.ensures_bind (Change.ensures_fail trivial)
  · exact Change.ensures_update ⟨⟨rfl, rfl, rfl, rfl⟩, rfl, rfl⟩

theorem generateSubproblems_keeps (r : SecondRecipe σ (Exact F)) (p : Program σ (Exact F)) :
    (generateSubproblems r : Edit σ (Exact F) Unit).Ensures p (fun _ q => p.Keeps q)
      fun _ _ => True := by
  unfold generateSubproblems
  refine Change.ensures_bind (Change.ensures_state ?_)
  refine Change.ensures_bind (Change.ensures_ofAct ((Transport.map_ensures p.transport _
    (E := fun _ => True) fun q _ => Partition.generate_keeps q.1).mono ?_ fun _ h => h))
  intro results hresults
  have hplaced : p.placed.flatMap (·.1.slots) = p.slots := by
    rw [slots, ← map_fst_placed p, List.flatMap_map]
  have hslots : List.Forall₂ (fun s s' : Slot (Exact F) => s'.scenario = s.scenario) p.slots
      ((results.map (·.1)).flatMap (·.slots)) := by
    rw [← hplaced, List.flatMap_map]
    exact forall₂_flatMap hresults fun _ _ h => h
  have hscenarios := map_scenario_eq hslots fun _ _ h => h
  refine Change.ensures_bind (Change.ensures_update ?_)
  dsimp only
  split
  · exact Change.ensures_bind (Change.ensures_fail trivial)
  · exact Change.ensures_update ⟨⟨rfl, rfl, rfl, rfl⟩, rfl, hscenarios⟩

/-- Building takes what a program was given, and leaves it. -/
theorem generate_keeps (p : Program σ (Exact F)) :
    (generate : Edit σ (Exact F) Unit).Ensures p (fun _ q => p.Keeps q) fun _ _ => True := by
  unfold generate
  refine Change.ensures_bind (Change.ensures_state ?_)
  split
  · exact Change.ensures_bind (Change.ensures_fail trivial)
  refine Change.ensures_bind ((generateMaster_keeps _ p).mono ?_ fun _ _ h => h)
  intro _ q hq
  refine Change.ensures_bind (Change.ensures_state ?_)
  split
  · split
    · exact Change.ensures_update (hq.trans ⟨⟨rfl, rfl, rfl, rfl⟩, rfl, rfl⟩)
    · exact Change.ensures_pure hq
  · split
    · exact Change.ensures_fail trivial
    · exact (generateSubproblems_keeps _ q).mono (fun _ _ h => hq.trans h) fun _ _ h => h

theorem scenarios_scaled (factor : Exact F) (p : Program σ (Exact F)) :
    (p.scaled factor).scenarios = p.scenarios.map (·.scaled factor) := by
  rw [scenarios, slots_scaled, scenarios, List.map_map, List.map_map]
  rfl

section Weighed

variable [Host σ (Exact F)]

/-- A program that is built and weighed is in order, it was given the same, and it has the
same scenarios, unless it had to be weighed anew. -/
theorem generate_validate_shares (hp : p.Consistent) :
    (do generate; validate none : Edit σ (Exact F) Unit).Ensures p
      (fun _ q => q.Consistent ∧ p.Shares q ∧
        (isTotal p.totalProbability = true → q.scenarios = p.scenarios)) fun _ _ => True := by
  refine Change.ensures_bind (((generate_moves hp).and (generate_keeps p)).mono ?_
    fun _ _ _ => trivial)
  rintro _ p₁ ⟨hmoves, hkeeps⟩
  have hp₁ := hmoves.consistent hp
  have htotal₁ : p₁.totalProbability = p.totalProbability := by
    rw [hp₁.totalProbability_eq, hp.totalProbability_eq, hkeeps.scenarios]
  refine (((validate_moves Exact.weighing hp₁ none).and (validate_ensures_scaled none p₁))).mono ?_
    fun _ _ _ => trivial
  rintro _ q ⟨hmoves', rfl | ⟨htotal, factor, rfl, -⟩⟩
  · exact ⟨hp₁, hkeeps.shares, fun _ => hkeeps.scenarios⟩
  · refine ⟨hmoves'.consistent hp₁, ⟨⟨hkeeps.firstData, hkeeps.secondData, hkeeps.firstRecipe,
      hkeeps.secondRecipe⟩, hkeeps.solver, ?_⟩, fun h => ?_⟩
    · show (p₁.scaled factor).scenarios.map (·.data) = _
      rw [scenarios_scaled, List.map_map, ← hkeeps.scenarios]
      rfl
    · rw [htotal₁, h] at htotal
      cases htotal

end Weighed

/-! ## Models that recipes give -/

/-- For a payload the recipes of a program give proper models only. -/
def ModelledAt (p : Program σ (Exact F)) (payload : Value (Exact F)) : Prop :=
  ∀ r m r' m', p.firstRecipe = some r → r.Gives p.firstData m → p.secondRecipe = some r' →
    r'.Gives p.secondData m.decisions payload m' → m'.Proper

/-- The recipes of a program give proper models of what it holds. -/
structure Modelled (p : Program σ (Exact F)) : Prop where
  /-- The first stage is proper. -/
  first : ∀ r m, p.firstRecipe = some r → r.Gives p.firstData m → m.Proper
  /-- So is the recourse to every scenario. -/
  second : ∀ c ∈ p.scenarios, p.ModelledAt c.data

theorem ModelledAt.of_sameSource {payload : Value (Exact F)} (h : p.ModelledAt payload)
    (hpq : p.SameSource q) : q.ModelledAt payload := by
  intro r m r' m' hr hm hr' hm'
  rw [hpq.firstRecipe] at hr
  rw [hpq.firstData] at hm
  rw [hpq.secondRecipe] at hr'
  rw [hpq.secondData] at hm'
  exact h r m r' m' hr hm hr' hm'

theorem Modelled.of_shares (h : p.Modelled) (hpq : p.Shares q) : q.Modelled where
  first := fun r m hr hm => h.first r m (hpq.firstRecipe ▸ hr) (hpq.firstData ▸ hm)
  second := fun c hc => by
    have hdata : c.data ∈ p.scenarios.map (·.data) := hpq.payloads ▸ List.mem_map.2 ⟨c, hc, rfl⟩
    obtain ⟨c', hc', hsame⟩ := List.mem_map.1 hdata
    rw [← hsame]
    exact (h.second c' hc').of_sameSource hpq.toSameSource

/-- The first stage of a program that is built was given by its recipe. -/
theorem Consistent.gives_firstStage (hp : p.Consistent) (hcurrent : p.isDeferred = false) :
    ∃ r m, p.firstRecipe = some r ∧ r.Gives p.firstData m ∧
      p.firstStage.LoadedFrom m ∧ p.decisions = some m.decisions := by
  obtain ⟨master, hmaster⟩ := currentMaster?_of_not_isDeferred hcurrent
  have hfirst : p.firstStage = master := by rw [firstStage, hmaster]; rfl
  rw [currentMaster?_eq_some] at hmaster
  obtain ⟨r, m, hr, hgives, hloaded⟩ := hp.master master hmaster
  refine ⟨r, m, hr, hgives, hfirst ▸ hloaded, ?_⟩
  have hdecisions : master.decisions = m.decisions := by
    rw [Model.decisions, Model.columns_congr_clear hloaded.clear_eq, Model.decisions]
  rw [hp.handle, hmaster, ← hdecisions]
  rfl

/-- So was the recourse to a scenario, for its payload. -/
theorem Consistent.gives_recourse (hp : p.Consistent) (hcurrent : p.isDeferred = false) {i : Nat}
    (hi : i < p.scenarioCount) : ∃ c r d m, p.scenarios[i]? = some c ∧ p.secondRecipe = some r ∧
      p.decisions = some d ∧ r.Gives p.secondData d c.data m ∧ (p.recourse i).LoadedFrom m := by
  obtain ⟨s, hs, hbuilt⟩ := exists_slot hcurrent hi
  obtain ⟨r, d, m, hr, hd, hgives, hloaded⟩ :=
    (hp.slots s (List.mem_of_getElem? hs)).current _ hbuilt
  refine ⟨s.scenario, r, d, m, ?_, hr, hd, hgives, hloaded⟩
  rw [scenarios, List.getElem?_map, hs]
  rfl

/-- A program is proper whose recipes give proper models. -/
theorem Consistent.proper (env : σ) (hp : p.Consistent) (hcurrent : p.isDeferred = false)
    (hmodels : p.Modelled) : p.Proper := by
  obtain ⟨r, m, hr, hgives, hloaded, hdecisions⟩ := hp.gives_firstStage hcurrent
  have hfirst := hloaded.clear_eq
  have hsecond : ∀ i < p.scenarioCount, (p.recourse i).Proper ∧
      ((p.recourse i).decisionCount = 0 ∨
        (p.recourse i).decisionCount = p.firstStage.columns.length) := by
    intro i hi
    obtain ⟨c, r', d, m', hc, hr', hd, hgives', hloaded'⟩ := hp.gives_recourse hcurrent hi
    obtain rfl : m.decisions = d := Option.some.inj (hdecisions.symm.trans hd)
    have hproper := hmodels.second c (List.mem_of_getElem? hc) r m r' m' hr hgives hr' hgives'
    refine ⟨(Model.proper_congr hloaded'.clear_eq).2 hproper, ?_⟩
    rw [Model.decisionCount_congr_clear hloaded'.clear_eq, Model.columns_congr_clear hfirst]
    simpa [Model.decisions] using hgives'.placeholders env
  refine ⟨(Model.proper_congr hfirst).2 (hmodels.first r m hr hgives), ?_,
    fun i hi => (hsecond i hi).1, fun i hi => (hsecond i hi).2, fun c hc => ?_⟩
  · rw [Model.decisionCount_congr_clear hfirst]
    exact hgives.own env
  · obtain ⟨s, hs, rfl⟩ := List.mem_map.1 hc
    obtain ⟨x, hx, hx0, -⟩ := (Exact.isWeight_iff _).1 (hp.slots s hs).weight
    rw [hx]
    exact ⟨Exact.isFinite_finite x, hx0⟩

end Program

end Recourse
