/-
  Proofs/Evaluation/Reproduction.lean --- the value of a committed decision, evaluated anew.

  Optimizing solves one problem for all scenarios, or a master with cuts.  Evaluating checks
  the first stage by hand and solves the subproblems one by one.  The two agree: a committed
  decision is evaluated to the committed value, exactly
  (`Reachable.evaluate_committed`).  Only an impossible scenario stands in the way: the
  deterministic equivalent does not care whether its recourse has an optimum, and
  evaluation insists on one.
-/
import Recourse.Proofs.Evaluation.Values
import Recourse.Proofs.Model.Posed

set_option autoImplicit false
set_option linter.unusedSectionVars false

open scoped BigOperators

namespace Recourse

variable {F : Type} [Field F] [LinearOrder F] [IsStrictOrderedRing F] [FloorRing F] {σ : Type}

/-! ## Limits that can be met -/

/-- No infinity on the side where it forbids every number. -/
def Relation.Attainable : Relation → Exact F → Prop
  | .atMost, b => b ≠ .minusInfinity
  | .atLeast, b => b ≠ .plusInfinity
  | .equal, b => b ≠ .minusInfinity ∧ b ≠ .plusInfinity
  | .other _, _ => True

instance Relation.decidableAttainable :
    (r : Relation) → (b : Exact F) → Decidable (r.Attainable b)
  | .atMost, b => inferInstanceAs (Decidable (b ≠ .minusInfinity))
  | .atLeast, b => inferInstanceAs (Decidable (b ≠ .plusInfinity))
  | .equal, b => inferInstanceAs (Decidable (b ≠ .minusInfinity ∧ b ≠ .plusInfinity))
  | .other _, _ => inferInstanceAs (Decidable True)

/-- No limit of a model is an infinity that forbids every number.  Solving leaves such limits
out, and evaluation enforces them. -/
@[mk_iff]
structure Model.Attainable (m : Model (Exact F)) : Prop where
  /-- No right-hand side is. -/
  rows : ∀ r ∈ m.rows, r.relation.Attainable r.side
  /-- No bound is. -/
  columns : ∀ c ∈ m.columns, c.lower ≠ .plusInfinity ∧ c.upper ≠ .minusInfinity

instance Model.decidableAttainable (m : Model (Exact F)) : Decidable m.Attainable :=
  decidable_of_iff _ (attainable_iff m).symm

/-- The library's own value of a row at a point that is made of numbers agrees. -/
theorem SparseRow.apply_finite {r : SparseRow (Exact F)} (hr : ∀ t ∈ r, Scalar.isFinite t.2 = true)
    {x : List (Exact F)} (hx : AllFinite x) : r.apply x = .finite (r.valueAt (coord x)) := by
  rw [SparseRow.apply, funext hx.getD_zero, SparseRow.eval_finite hr]

namespace Program

/-! ## The check of the first stage -/

theorem exists_feasibilityTolerance :
    ∃ t : F, 0 < t ∧ (feasibilityTolerance : Exact F) = .finite t :=
  ⟨1 / 10 ^ 6, by positivity, by simp [feasibilityTolerance, Scalar.decimal]⟩

/-- A number that respects a lower limit is not too small for it. -/
theorem less_sub_feasibilityTolerance {a : F} {lower : Exact F} (h : lower.RespectsLower a)
    (hlower : lower ≠ .plusInfinity) :
    Scalar.less (.finite a) (lower - feasibilityTolerance) = false := by
  obtain ⟨t, ht, htolerance⟩ := exists_feasibilityTolerance (F := F)
  rw [htolerance]
  cases lower with
  | finite b =>
    have hb : b ≤ a := (Exact.respectsLower_finite a b).1 h
    rw [Exact.finite_sub, Exact.less_finite, decide_eq_false_iff_not, not_lt]
    linarith
  | plusInfinity => exact absurd rfl hlower
  | minusInfinity => rfl
  | undefined => rfl

/-- A number that respects an upper limit is not too large for it. -/
theorem add_feasibilityTolerance_less {a : F} {upper : Exact F} (h : upper.RespectsUpper a)
    (hupper : upper ≠ .minusInfinity) :
    Scalar.less (upper + feasibilityTolerance) (.finite a) = false := by
  obtain ⟨t, ht, htolerance⟩ := exists_feasibilityTolerance (F := F)
  rw [htolerance]
  cases upper with
  | finite b =>
    have hb : a ≤ b := (Exact.respectsUpper_finite a b).1 h
    rw [Exact.finite_add, Exact.less_finite, decide_eq_false_iff_not, not_lt]
    linarith
  | plusInfinity => rfl
  | minusInfinity => exact absurd rfl hupper
  | undefined => rfl

/-- A number in a relation to a bound does not violate it. -/
theorem violates_eq_false {r : Relation} {a : F} {b : Exact F} (h : r.Holds a b)
    (hb : r.Attainable b) : violates r (.finite a) b = false := by
  cases r with
  | atMost => exact add_feasibilityTolerance_less h hb
  | atLeast => exact less_sub_feasibilityTolerance h hb
  | equal =>
    obtain ⟨t, ht, htolerance⟩ := exists_feasibilityTolerance (F := F)
    cases b with
    | finite b =>
      obtain rfl : a = b := le_antisymm ((Exact.respectsUpper_finite a b).1 h.2)
        ((Exact.respectsLower_finite a b).1 h.1)
      rw [violates, htolerance, Exact.finite_sub, Exact.abs_finite, sub_self, abs_zero,
        Exact.less_finite, decide_eq_false_iff_not, not_lt]
      exact ht.le
    | plusInfinity => exact absurd rfl hb.2
    | minusInfinity => exact absurd rfl hb.1
    | undefined => rw [violates, htolerance]; rfl
  | other text => rfl

/-- A decision that fits the first stage passes the check of its bounds. -/
theorem any_outsideBounds_eq_false {m : Model (Exact F)} (hm : m.Coherent)
    (hown : m.decisionCount = 0) (hattainable : m.Attainable) {x : List (Exact F)}
    (hx : AllFinite x) (hlength : x.length = m.columns.length)
    (hfits : m.Fits (coord x) (coord x)) :
    ((x.zip ((m.formAt []).lower.zip (m.formAt []).upper)).any
      fun b => outsideBounds b.1 b.2.1 b.2.2) = false := by
  rw [List.any_eq_false]
  intro b hb
  obtain ⟨j, hj, rfl⟩ := List.getElem_of_mem hb
  have hj' : j < m.columns.length := by
    rw [List.length_zip] at hj
    omega
  have hmem := List.getElem_mem hj'
  have hnone : m.columns[j].decision = none := by
    by_contra hsome
    obtain ⟨k, hk⟩ := Option.ne_none_iff_exists'.1 hsome
    exact absurd (hm.decision_lt hmem hk) (by omega)
  have hcolumn := hfits.columns _ hmem
  rw [Model.Admits, hnone, hm.numbered j hj'] at hcolumn
  have hentry : x[j] = .finite (coord x j) := by
    rw [← hx.getD (hlength ▸ hj'), List.getD_eq_getElem]
  obtain ⟨hlower, hupper⟩ := hattainable.columns _ hmem
  simp only [List.getElem_zip, Model.formAt, List.getElem_map, Model.boundsAt, hnone, hentry]
  rw [outsideBounds, less_sub_feasibilityTolerance hcolumn.1 hlower,
    add_feasibilityTolerance_less hcolumn.2 hupper]
  exact Bool.false_ne_true

/-- It violates no row. -/
theorem violatedRows_eq_nil {m : Model (Exact F)} (hm : m.Proper) (hattainable : m.Attainable)
    {x : List (Exact F)} (hx : AllFinite x) (hfits : m.Fits (coord x) (coord x)) :
    violatedRows (m.formAt []) x = [] := by
  rw [violatedRows, List.map_eq_nil_iff, List.filter_eq_nil_iff]
  rintro ⟨⟨row, relation, side⟩, i⟩ hr
  obtain ⟨hi, hget⟩ := List.getElem?_eq_some_iff.1 (List.mk_mem_zipIdx_iff_getElem?.1 hr)
  have hi' : i < m.rows.length := by
    simp only [List.length_zip, Model.formAt, List.length_map, Nat.min_self] at hi
    exact hi
  have hmem := List.getElem_mem hi'
  simp only [List.getElem_zip, Model.formAt, List.getElem_map, Prod.mk.injEq] at hget
  obtain ⟨rfl, rfl, rfl⟩ := hget
  rw [SparseRow.apply_finite (hm.rows _ hmem).finite hx]
  exact Bool.eq_false_iff.1
    (violates_eq_false (hfits.rows _ hmem) (hattainable.rows _ hmem))

/-- A decision that fits the first stage passes, with its objective as value. -/
theorem firstStageValue_eq {m : Model (Exact F)} (hm : m.Proper) (hown : m.decisionCount = 0)
    (hattainable : m.Attainable) {x : List (Exact F)} (hx : AllFinite x)
    (hlength : x.length = m.columns.length) (hfits : m.Fits (coord x) (coord x)) :
    firstStageValue m x = .ok (.finite (m.objectiveAt (coord x))) := by
  have hbounds := any_outsideBounds_eq_false hm.coherent hown hattainable hx hlength hfits
  have hrows := violatedRows_eq_nil hm hattainable hx hfits
  have hvalue := Model.evaluateObjective_eq hm.coherent hx hlength
  unfold firstStageValue
  rw [Model.standardForm_none hm hown]
  simp only [bind, Except.bind, hbounds, hrows, Bool.false_eq_true, if_false]
  exact hvalue

/-! ## What evaluation gives -/

variable {p q p' : Program σ (Exact F)} [Host σ (Exact F)] {solver : Option (Solver σ (Exact F))}

/-- A decision that passes the first stage is looked up in every subproblem. -/
theorem valuesAt_settles (hcurrent : p.isDeferred = false) {x : List (Exact F)}
    (hcount : p.decisionCount = .ok x.length) {first : Exact F}
    (hfirst : firstStageValue p.firstStage x = .ok first) {refusal : Fault (Exact F) → Prop}
    (hsolve : ∀ i < p.scenarioCount, ((p.backendFor solver).optimize (p.recourse i)
      (some x)).Ensures ((p.recourse i).Reports x) refusal) :
    (valuesAt x solver).Ensures p (fun r p' => p' = p ∧ r.1 = first ∧
      List.Forall₂ (fun i v => i < p.scenarioCount ∧ ∃ a, (p.recourse i).Reports x a ∧
        a.status = .optimal ∧ v = a.objective) (List.range p.scenarioCount) r.2)
      fun f _ => refusal f ∨ p.Refuses x f := by
  have hcheck : p.checkDecision x = .ok () := by
    rw [checkDecision, hcount]
    simp [bind, Except.bind, pure, Except.pure]
  unfold valuesAt
  refine Change.ensures_bind (Change.ensures_state ?_)
  rw [hcheck, stageOneModel_eq hcurrent]
  refine Change.ensures_bind (Change.ensures_pure (Change.ensures_bind (Change.ensures_pure ?_)))
  rw [hfirst]
  refine Change.ensures_bind (Change.ensures_pure (Change.ensures_bind (Change.ensures_ofAct
    ((recourseValues_settles hcurrent hsolve).mono (fun values hvalues => ?_) fun _ h => h))))
  exact Change.ensures_pure ⟨rfl, rfl, hvalues⟩

/-- Evaluating a decision that fits the first stage gives its objective and the expected
optimum of the subproblems.  It is refused only where a subproblem has none. -/
theorem evaluate_settles (hp : p.Proper) (hs : p.Solvable) {x : List (Exact F)} (hx : AllFinite x)
    (hcount : p.decisionCount = .ok x.length) (hlength : x.length = p.firstStage.columns.length)
    (hfits : p.firstStage.Fits (coord x) (coord x)) (hattainable : p.firstStage.Attainable)
    {refusal : Fault (Exact F) → Prop}
    (hsolve : ∀ i < p.scenarioCount, ((p.backendFor solver).optimize (p.recourse i)
      (some x)).Ensures ((p.recourse i).Reports x) refusal) :
    (evaluate x solver).Ensures p (fun v _ => ∃ values : Nat → F,
      (∀ i < p.scenarioCount, (p.recourse i).HasValue (coord x) (values i)) ∧
        v = .finite (p.firstStage.objectiveAt (coord x) +
          ∑ i ∈ Finset.range p.scenarioCount, p.weight i * values i))
      fun f _ => refusal f ∨ p.Refuses x f := by
  rw [evaluate_eq]
  refine Change.ensures_bind ((generate_validate_leaves hs).mono ?_ fun _ _ h => h.elim)
  rintro _ _ rfl
  obtain ⟨hproper, hcurrent⟩ := Marked.proper_current hp hs ⟨some p.secondEpoch, rfl⟩
  have hfirst := firstStageValue_eq hp.first hp.own hattainable hx hlength hfits
  refine Change.ensures_bind ((valuesAt_settles (p := { p with
    generatedEpoch := some p.secondEpoch }) hcurrent hcount hfirst hsolve).mono ?_ fun _ _ h => h)
  rintro ⟨first, values⟩ _ ⟨rfl, hfirst, hvalues⟩
  obtain ⟨g, rfl, hg⟩ := exists_map_range hvalues
  have hvalue : ∀ i < p.scenarioCount, ∃ q, (p.recourse i).HasValue (coord x) q ∧
      g i = .finite q := fun i hi => by
    obtain ⟨-, r, hr, hstatus, hobjective⟩ := hg i hi
    have hsuits := Model.suits_of_length (m := p.recourse i) hx (hlength ▸ hp.placeholders i hi)
    exact ⟨_, ⟨_, hr.solves (hp.second i hi) hsuits hstatus, rfl⟩,
      hobjective.trans (hr.objective (hp.second i hi) hstatus)⟩
  choose! q hq hfinite using hvalue
  refine Change.ensures_bind (Change.ensures_state (Change.ensures_pure ⟨q, hq, ?_⟩))
  rw [hproper.dot_probabilities hfinite, show first = _ from hfirst]
  rfl

/-! ## The committed decision -/

omit [Host σ (Exact F)] in
/-- Where no scenario is without bound, a committed value is that of the decision and the
expected optimum. -/
theorem Committed.objective_eq {c : Solution (Exact F)} (hc : p.Committed c) (hp : p.Proper)
    (hx : AllFinite c.decision) (hlength : c.decision.length = p.firstStage.columns.length)
    (hoptimal : ∀ i < p.scenarioCount, 0 < p.weight i →
      (p.recourse i).OptimalAt c.decision (p.loaded i)) {values : Nat → F}
    (hvalues : ∀ i < p.scenarioCount, (p.recourse i).HasValue (coord c.decision) (values i)) :
    c.objective = .finite (p.firstStage.objectiveAt (coord c.decision) +
      ∑ i ∈ Finset.range p.scenarioCount, p.weight i * values i) := by
  obtain ⟨first, hfirst, hobjective⟩ := hc.objective
  rw [Model.evaluateObjective_eq hp.first.coherent hx hlength] at hfirst
  obtain rfl := Exact.finite.inj (Except.ok.inj hfirst)
  rw [hobjective]
  refine congrArg (fun total => Exact.finite (_ + total)) (Finset.sum_congr rfl fun i hi => ?_)
  have hi := Finset.mem_range.1 hi
  rcases (hp.weight_nonneg i).eq_or_lt with hzero | hpositive
  · rw [← hzero, zero_mul, zero_mul]
  · have hloaded := hoptimal i hi hpositive
    have hvalue : (p.recourse i).HasValue (coord c.decision) _ := ⟨_, hloaded.solves, rfl⟩
    rw [hloaded.objective, Exact.value_finite, hvalue.unique (hvalues i hi)]

/-- A refusal of a decision at which every subproblem has a point is that of a subproblem
without bound. -/
theorem Refuses.unbounded {x : List (Exact F)} {f : Fault (Exact F)} (h : p.Refuses x f)
    (hp : p.Proper) (hx : AllFinite x) (hlength : x.length = p.firstStage.columns.length)
    (hfits : ∀ i < p.scenarioCount, ∃ y, (p.recourse i).Fits (coord x) y) :
    ∃ i < p.scenarioCount, (p.recourse i).UnboundedAt (coord x) ∧
      f = .solveFailure .unbounded (some (i : Int)) .solve := by
  obtain ⟨i, hi, r, hr, hstatus, rfl⟩ := h
  have hsuits := Model.suits_of_length (m := p.recourse i) hx (hlength ▸ hp.placeholders i hi)
  rcases hr.status_cases with hoptimal | hinfeasible | hunbounded
  · exact absurd hoptimal hstatus
  · obtain ⟨y, hy⟩ := hfits i hi
    exact absurd hy (hr.infeasible (hp.second i hi) hsuits hinfeasible y)
  · exact ⟨i, hi, hr.unbounded (hp.second i hi) hsuits hunbounded, by rw [hunbounded]⟩

/-- Evaluating a committed decision gives the committed value, if every subproblem that counts
holds an optimum.  It is refused only where one that does not count is without bound. -/
theorem Committed.evaluate_ensures {c : Solution (Exact F)} (hc : p.Committed c) (hp : p.Proper)
    (hs : p.Solvable) (hx : AllFinite c.decision)
    (hlength : c.decision.length = p.firstStage.columns.length)
    (hattainable : p.firstStage.Attainable) {method : Method}
    (hoptimal : ∀ i < p.scenarioCount, method = .lshaped ∨ 0 < p.weight i →
      (p.recourse i).OptimalAt c.decision (p.loaded i))
    {refusal : Fault (Exact F) → Prop}
    (hsolve : ∀ i < p.scenarioCount, ((p.backendFor solver).optimize (p.recourse i)
      (some c.decision)).Ensures ((p.recourse i).Reports c.decision) refusal) :
    (evaluate c.decision solver).Ensures p
      (fun v _ => v = c.objective ∧
        ∀ i < p.scenarioCount, ¬ (p.recourse i).UnboundedAt (coord c.decision))
      fun f _ => refusal f ∨ method = .extensive ∧ ∃ i < p.scenarioCount, p.weight i = 0 ∧
        (p.recourse i).UnboundedAt (coord c.decision) ∧
          f = .solveFailure .unbounded (some (i : Int)) .solve := by
  refine (evaluate_settles hp hs hx hc.count hlength hc.fits hattainable hsolve).mono ?_ ?_
  · rintro _ _ ⟨values, hvalues, rfl⟩
    exact ⟨(hc.objective_eq hp hx hlength (fun i hi h => hoptimal i hi (Or.inr h)) hvalues).symm,
      fun i hi => (hvalues i hi).not_unboundedAt⟩
  · rintro f _ (hrefused | hrefuses)
    · exact Or.inl hrefused
    obtain ⟨i, hi, hunbounded, hf⟩ := hrefuses.unbounded hp hx hlength
      fun i hi => ⟨_, (hc.recourse i hi).2.fits⟩
    -- a scenario that counts has an optimum, hence a bound
    have hcounts : ¬ (method = .lshaped ∨ 0 < p.weight i) := fun h =>
      Model.HasValue.not_unboundedAt ⟨_, (hoptimal i hi h).solves, rfl⟩ hunbounded
    obtain ⟨hmethod, hweight⟩ := not_or.1 hcounts
    refine Or.inr ⟨?_, i, hi, le_antisymm (not_lt.1 hweight) (hp.weight_nonneg i), hunbounded, hf⟩
    cases method with
    | extensive => rfl
    | lshaped => exact absurd rfl hmethod

/-- A program holds a solution that evaluation with a solver comes back to: the decision is
evaluated to the objective, or a subproblem without bound is refused, which only the
deterministic equivalent leaves behind, and only for an impossible scenario. -/
def Reproduces (p : Program σ (Exact F)) (method : Method) (solver : Option (Solver σ (Exact F)))
    (refusal : Fault (Exact F) → Prop) : Prop :=
  ∃ c, p.committed = .ok c ∧ (evaluate c.decision solver).Ensures p
    (fun v _ => v = c.objective ∧
      ∀ i < p.scenarioCount, ¬ (p.recourse i).UnboundedAt (coord c.decision))
    fun f _ => refusal f ∨ method = .extensive ∧ ∃ i < p.scenarioCount, p.weight i = 0 ∧
      (p.recourse i).UnboundedAt (coord c.decision) ∧
        f = .solveFailure .unbounded (some (i : Int)) .solve

/-- The subproblems of a program that a solution was installed in are posed. -/
theorem Installed.posed {c : Solution (Exact F)} {results : List (SolveResult (Exact F))}
    (h : q.Installed p' c results) {method : Method}
    (hdelivers : q.Delivers method c.decision c.objective results)
    (hcolumns : method = .extensive → ∀ i < p'.scenarioCount, (p'.recourse i).columns ≠ [])
    {i : Nat} (hi : i < p'.scenarioCount) : (p'.recourse i).Posed := by
  have hi' : i < q.scenarioCount := h.scenarioCount_eq ▸ hi
  have hposed : (q.recourse i).Posed := by
    refine hdelivers.posed i hi' ?_
    cases method with
    | extensive =>
      have hnonempty := hcolumns rfl i hi
      rw [h.recourse i hi'] at hnonempty
      exact Or.inr hnonempty
    | lshaped => exact Or.inl rfl
  rw [h.recourse i hi']
  exact ⟨⟨hposed.rows, hposed.columns⟩, hposed.nonempty⟩

/-- What optimizing commits is reproduced. -/
theorem optimize_ensures_reproduces (env : σ) (host : Host.Sound σ F) (hp : p.Consistent)
    (hmodels : p.Modelled) {s : StructuredSolver σ (Exact F)}
    (hsolver : p.solverFor solver = .structured s) (hb : s.backend.Faithful) (hs : s.Configured)
    (named : Option (Solver σ (Exact F))) (hb' : (p.backendFor named).Faithful)
    {refusal : Fault (Exact F) → Prop} (hanswers : (p.backendFor named).Answering refusal) :
    (optimize solver).Ensures p
      (fun status p' => status = .optimal → p'.firstStage.Attainable →
        (s.method = .extensive → ∀ i < p'.scenarioCount, (p'.recourse i).columns ≠ []) →
        p'.Reproduces s.method named refusal)
      fun _ _ => True := by
  have hready : (do generate; validate none : Edit σ (Exact F) Unit).Ensures p
      (fun _ q => (q.isDeferred = false → q.Proper) ∧ q.Consistent ∧ p.Shares q) fun _ _ => True :=
    (generate_validate_shares hp).mono (fun _ q h =>
      ⟨fun hcurrent => h.1.proper env hcurrent (hmodels.of_shares h.2.1), h.1, h.2.1⟩)
      fun _ _ h => h
  refine (optimize_ensures_installed host hsolver hb hs hready).mono ?_ fun _ _ h => h
  intro status p' h hstatus hattainable hcolumns
  obtain ⟨q, c, results, ⟨hq, hshares⟩, hproper, hsolvable, hdelivers, hinstalled⟩ := h hstatus
  have hshares' := hshares.trans hinstalled.shares
  have hp' := (hinstalled.consistent hq).proper env hinstalled.current (hmodels.of_shares hshares')
  have hcount := hinstalled.scenarioCount_eq
  have hlength : c.decision.length = p'.firstStage.columns.length := by
    rw [Model.columns_congr_clear (hinstalled.remains (.refl q)).first]
    exact hdelivers.length
  refine ⟨c, hinstalled.committed, (hinstalled.committed_of_delivers hproper hdelivers)
    |>.evaluate_ensures hp' (hinstalled.solvable hq hsolvable) hdelivers.finite hlength hattainable
      (fun i hi h => hinstalled.optimalAt hproper hdelivers (hcount ▸ hi) h) fun i hi => ?_⟩
  have hplaceholders := hlength ▸ hp'.placeholders i hi
  have hposed := hinstalled.posed hdelivers hcolumns hi
  rw [hshares'.backendFor_eq named]
  exact ((Backend.optimize_ensures host hb' (hp'.second i hi) hdelivers.finite hplaceholders).and
    (Backend.optimize_answering hanswers (hp'.second i hi) hposed hdelivers.finite
      hplaceholders)).mono (fun _ h => h.1) fun _ h => h.2

/-- A committed decision is evaluated to the committed value.  In every state a program gets
to whose recipes give proper models, with either method and backends on a sound engine: an
optimum is committed, and evaluating its decision gives its objective, exactly, unless a
subproblem is without bound there.  Such a subproblem belongs to an impossible scenario, only
the deterministic equivalent commits a decision that has one, and evaluation says which it
is.  Beyond that, only what the engine itself refuses is refused, so nothing with an engine
that always answers.  Limits that forbid every number are excluded in the first stage, and
subproblems without columns for the deterministic equivalent. -/
theorem Reachable.evaluate_committed (host : Host.Sound σ F) (hp : Reachable p)
    (hmodels : p.Modelled) {s : StructuredSolver σ (Exact F)}
    (hsolver : p.solverFor solver = .structured s) (hb : s.backend.Faithful) (hs : s.Configured)
    (named : Option (Solver σ (Exact F))) (hb' : (p.backendFor named).Faithful)
    {refusal : Fault (Exact F) → Prop} (hanswers : (p.backendFor named).Answering refusal) :
    (optimize solver).Ensures p
      (fun status p' => status = .optimal → p'.firstStage.Attainable →
        (s.method = .extensive → ∀ i < p'.scenarioCount, (p'.recourse i).columns ≠ []) →
        p'.Reproduces s.method named refusal)
      fun _ _ => True :=
  fun ledger => optimize_ensures_reproduces ledger.env host
    (hp.invariant Exact.weighing).toConsistent hmodels hsolver hb hs named hb' hanswers ledger

/-- A program that is given recipes and scenarios, and built. -/
def ordered (first : FirstRecipe (Transcript ℚ) (Exact ℚ))
    (second : SecondRecipe (Transcript ℚ) (Exact ℚ)) (cs : List (Scenario (Exact ℚ))) :
    Program (Transcript ℚ) (Exact ℚ) :=
  perform [.register (.ofInt 1) (.recipe (.first first)) true,
    .register (.ofInt 2) (.recipe (.second second)) true,
    .addAll (cs.map .scenario) none false] newStock ⟨⟨[]⟩, [], 1⟩

theorem ordered_reachable {first : FirstRecipe (Transcript ℚ) (Exact ℚ)} (hfirst : first.Pure)
    {second : SecondRecipe (Transcript ℚ) (Exact ℚ)} (hsecond : second.Pure)
    {cs : List (Scenario (Exact ℚ))} (hcs : ∀ c ∈ cs, Scalar.isWeight c.probability = true) :
    Reachable (ordered first second cs) := by
  refine newStock_reachable.perform ?_ _
  simp only [List.forall_mem_cons, List.not_mem_nil, false_implies, implies_true, and_true]
  refine ⟨hfirst, hsecond, fun o ho => ?_⟩
  obtain ⟨c, hc, rfl⟩ := List.mem_map.1 ho
  exact hcs c hc

/-- A stock with probabilities of prices at which what it lacks can be bought. -/
def stockAt (prices : List (ℚ × ℚ)) : Program (Transcript ℚ) (Exact ℚ) :=
  ordered stockRecipe shortageRecipe
    (prices.map fun c => ⟨.finite c.1, .real (.finite c.2), none⟩)

theorem stockAt_reachable {prices : List (ℚ × ℚ)} (h : ∀ c ∈ prices, 0 ≤ c.1 ∧ c.1 ≤ 1) :
    Reachable (stockAt prices) := by
  refine ordered_reachable stockRecipe_pure shortageRecipe_pure fun s hs => ?_
  obtain ⟨c, hc, rfl⟩ := List.mem_map.1 hs
  exact (Exact.isWeight_iff _).2 ⟨c.1, rfl, h c hc⟩

/-- What a decision is worth on a transcript: a value, or else the status of the solve that had
no optimum, with its scenario. -/
def evaluated (p : Program (Transcript ℚ) (Exact ℚ)) (x : List (Exact ℚ)) (t : Transcript ℚ) :
    Option (Exact ℚ) × Option (Status × Option Int) :=
  match (((evaluate x none).runOn p).run ⟨t, [], 0⟩).1.1 with
  | .ok value => (some value, none)
  | .error (.solveFailure status i _) => (none, some (status, i))
  | .error _ => (none, none)

/-- A program is optimized on one transcript and its decision evaluated on another.  The status,
the objective that was committed, and what was evaluated. -/
def revalued (p : Program (Transcript ℚ) (Exact ℚ)) (s : StructuredSolver (Transcript ℚ) (Exact ℚ))
    (t t' : Transcript ℚ) :
    Option Status × Option (Exact ℚ) × Option (Exact ℚ) × Option (Status × Option Int) :=
  let p' := (optimized p s t).2
  ((optimized p s t).1.toOption, p'.solution.map (·.objective),
    evaluated p' ((p'.solution.map (·.decision)).getD []) t')

/-- A full stock lacks nothing, whatever the price. -/
def fullShelves : Transcript ℚ where
  findings :=
    [.optimal ⟨[.finite 3, 0], 0, [0], [], [0, .finite 3], [0, 0], 0⟩,
      .optimal ⟨[.finite 3, 0], 0, [0], [], [0, 1], [0, 0], 0⟩]

/-- The full stock, whichever way it was found, is worth what was committed. -/
theorem stock_evaluate_committed :
    let p := stockAt [(1 / 2, 3), (1 / 2, 1)]
    let s := StructuredSolver.standard
    (optimized p s fullStock).2.Reproduces .extensive none Fault.IsBreakdown ∧
      revalued p s fullStock fullShelves =
        (some .optimal, some (.finite 3), some (.finite 3), none) ∧
      (optimized p stockSolver LShaped.stockTranscript).2.Reproduces .lshaped none
        Fault.IsBreakdown ∧
      revalued p stockSolver LShaped.stockTranscript fullShelves =
        (some .optimal, some (.finite 3), some (.finite 3), none) := by
  intro p s
  have hreachable : Reachable p := stockAt_reachable (by decide +kernel)
  have hmodels : p.Modelled := modelled_of_stockRecipe rfl rfl
  have hanswers := Backend.plain_answering (F := ℚ) Transcript.sound
  have hextensive := optimized_spec (hreachable.evaluate_committed Transcript.sound hmodels
    (s := s) rfl Backend.plain_faithful standard_configured none Backend.plain_faithful hanswers)
    (t := fullStock) (by decide +kernel)
  have hlshaped := optimized_spec (hreachable.evaluate_committed Transcript.sound hmodels
    (s := stockSolver) rfl Backend.plain_faithful (fun _ => ⟨rfl, rfl⟩) none
    Backend.plain_faithful hanswers) (t := LShaped.stockTranscript) (by decide +kernel)
  have hcolumns : ∀ i < (optimized p s fullStock).2.scenarioCount,
      ((optimized p s fullStock).2.recourse i).columns ≠ [] := by decide +kernel
  exact ⟨hextensive (by decide +kernel) fun _ => hcolumns, by decide +kernel,
    hlshaped (by decide +kernel) nofun, by decide +kernel⟩

/-! ## Decisions that are not reproduced -/

/-- The program of two models and one scenario. -/
def certain (first second : Model (Exact ℚ)) : Program (Transcript ℚ) (Exact ℚ) :=
  ordered ⟨"first", fun _ => pure (.model first)⟩ ⟨"second", fun _ _ _ => pure (.model second)⟩
    [⟨1, .null, none⟩]

theorem certain_reachable (first second : Model (Exact ℚ)) : Reachable (certain first second) :=
  ordered_reachable (fun _ => Act.effectless_pure _) (fun _ _ _ => Act.effectless_pure _)
    fun c hc => by
      obtain rfl := List.mem_singleton.1 hc
      exact (Exact.isWeight_iff _).2 ⟨1, rfl, zero_le_one, le_rfl⟩

/-- A reserve with the limit that comes of comparing it with an infinity it cannot stay
below. -/
def cappedReserve : Model (Exact ℚ) :=
  { reserve with rows := [⟨⟨[(0, 1)], .plusInfinity, []⟩, .atMost, 0, none, 0, 0⟩] }

/-- A reserve with another column, no number of which is large enough. -/
def endlessReserve : Model (Exact ℚ) :=
  { reserve with
    columns := reserve.columns ++ [⟨1, .plusInfinity, .plusInfinity, some "z", none⟩] }

/-- A reserve at an infinite cost, of either sign. -/
def costlyReserve (cost : Exact ℚ) : Model (Exact ℚ) :=
  { reserve with objective? := some ⟨[(0, 1)], cost, []⟩ }

/-- The reserve is kept but for one unit, which is said twice. -/
def repeatedUpkeep : Model (Exact ℚ) :=
  { upkeep with rows := List.replicate 2 ⟨⟨[(0, -1), (1, 1)], 1, []⟩, .atLeast, 0, none, 1, 0⟩ }

/-- The stock is filled, and nothing is bought. -/
def refundOrder : Transcript ℚ where
  findings := [.optimal ⟨[.finite 3, 0, 0], .finite 3, [-1, 0], [], [0, .finite 2, 0],
    [0, 0, 0], 0⟩]

/-- At the high price the full stock lacks nothing.  At the other one buying more is better and
better. -/
def refundSales : Transcript ℚ where
  findings := [.optimal ⟨[.finite 3, 0], 0, [0], [], [0, .finite 3], [0, 0], 0⟩,
    .unbounded [3, 0] [0, 1]]

/-- One unit is reserved. -/
def oneReserve : Transcript ℚ where
  findings := [.optimal ⟨[1], 1, [], [], [1], [0], 0⟩]

/-- One unit each is reserved twice. -/
def twoReserves : Transcript ℚ where
  findings := [.optimal ⟨[1, 1], .finite 2, [], [], [1, 1], [0, 0], 0⟩]

/-- So it is, and of the other column there is nothing. -/
def endlessReserves : Transcript ℚ where
  findings := [.optimal ⟨[1, 0, 1], .finite 2, [], [], [1, 0, 1], [0, 0, 0], 0⟩]

/-- A program without columns has a value. -/
def noColumns : Transcript ℚ where
  findings := [.optimal ⟨[], 0, [], [], [], [], 0⟩]

/-- Nothing is kept of one unit. -/
def repeatedOrder : Transcript ℚ where
  findings := [.optimal ⟨[1, 0], 1, [0, 0], [], [1, 1], [0, 0], 0⟩]

/-- Half of it has to be kept where both rows are taken for one. -/
def repeatedSum : Transcript ℚ where
  findings := [.optimal ⟨[1, .finite (1 / 2)], .finite (1 / 2), [0, .finite (-1 / 2)], [],
    [1, 0], [0, 0], 0⟩]

/-- The deterministic equivalent commits a decision at which an impossible scenario is without
bound, and evaluation refuses it.  Five more programs are not reproduced either: with a row or a
bound of the first stage that no number meets, with a subproblem that has no column, with a row
that was added twice, and with infinite costs that make the value no number. -/
theorem refund_evaluate_committed_false :
    let s : StructuredSolver (Transcript ℚ) (Exact ℚ) := StructuredSolver.standard
    let refunded := stockAt [(1, 3), (0, -1)]
    let infinite := certain (costlyReserve .plusInfinity) (costlyReserve .minusInfinity)
    s.backend.Faithful ∧ s.Configured ∧
      (Reachable refunded ∧ refunded.Modelled ∧ revalued refunded s refundOrder refundSales =
        (some .optimal, some (.finite 3), none, some (.unbounded, some 1))) ∧
      (∀ first second, Reachable (certain first second)) ∧
      revalued (certain cappedReserve reserve) s twoReserves ⟨[]⟩ =
        (some .optimal, some (.finite 2), none, some (.infeasible, none)) ∧
      revalued (certain endlessReserve reserve) s endlessReserves ⟨[]⟩ =
        (some .optimal, some (.finite 2), none, some (.infeasible, none)) ∧
      revalued (certain reserve (Model.empty "nothing")) s oneReserve noColumns =
        (some .optimal, some 1, none, none) ∧
      revalued (certain reserve repeatedUpkeep) s repeatedOrder repeatedSum =
        (some .optimal, some 1, some (.finite (3 / 2)), none) ∧
      revalued infinite s twoReserves oneReserve =
        (some .optimal, some .undefined, some .undefined, none) ∧
      Scalar.same (.undefined : Exact ℚ) .undefined = false := by
  intro s refunded infinite
  refine ⟨Backend.plain_faithful, standard_configured,
    ⟨stockAt_reachable (by decide +kernel), modelled_of_stockRecipe rfl rfl, by decide +kernel⟩,
    certain_reachable, ?_, ?_, ?_, ?_, ?_, rfl⟩ <;> decide +kernel

end Program

end Recourse
