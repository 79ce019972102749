/-
  Proofs/Solver/Delivery.lean --- what a run that ends with an optimum delivers.

  Both methods deliver a decision that fits the first stage, a point for every scenario
  that fits its recourse there, and the value of the two (`Program.Delivers`).  They come
  by the points in different ways: the deterministic equivalent is taken apart through its
  index maps, and the L-shaped method keeps the round of its incumbent.  The result of a
  scenario is optimal and has optimal duals, except that the deterministic equivalent says
  nothing of a scenario of probability zero (`Program.Recovered`).
-/
import Recourse.Proofs.LShaped.Verdict
import Recourse.Proofs.Program.Transition
import Recourse.Proofs.Solver.Separation

set_option autoImplicit false
set_option linter.unusedSectionVars false

open scoped BigOperators

namespace Recourse

variable {F : Type} [Field F] [LinearOrder F] [IsStrictOrderedRing F] [FloorRing F] {σ : Type}

/-! ## Models at points -/

namespace Model

variable {m : Model (Exact F)}

/-- The library's own evaluation of an objective agrees. -/
theorem evaluateObjective_eq (hm : m.Coherent) {xs : List (Exact F)} (hxs : AllFinite xs)
    (hlength : xs.length = m.columns.length) :
    m.evaluateObjective xs = .ok (.finite (m.objectiveAt (coord xs))) := by
  rw [evaluateObjective_eq_eval hm.objective.within hlength, funext hxs.getD_zero,
    LinearExpr.eval_finite hm.objective, objectiveAt]

/-- A result holds an optimum of a model at a decision: its point, its objective and its duals
are those of an optimal result. -/
def Optimum (m : Model (Exact F)) (x : List (Exact F)) (r : SolveResult (Exact F)) : Prop :=
  ∃ a : SolveResult (Exact F), m.Reports x a ∧ a.status = .optimal ∧ a.point = r.point ∧
    a.objective = r.objective ∧ a.duals = r.duals

/-- A result that reports an optimum holds it. -/
theorem Reports.optimum {x : List (Exact F)} {r : SolveResult (Exact F)} (h : m.Reports x r)
    (hstatus : r.status = .optimal) : m.Optimum x r := ⟨r, h, hstatus, rfl, rfl, rfl⟩

end Model

namespace Program

/-! ## What is delivered -/

section Delivery

variable (p : Program σ (Exact F)) (x : List (Exact F)) (i : Nat) (r : SolveResult (Exact F))

/-- A result has a point for a scenario that fits its recourse at a decision. -/
structure PlacedAt : Prop where
  /-- The point is made of numbers. -/
  finite : AllFinite r.point
  /-- There is one for every column. -/
  length : r.point.length = (p.recourse i).columns.length
  /-- It fits. -/
  fits : (p.recourse i).Fits (coord x) (coord r.point)
  /-- The objective is that of the point. -/
  objective : r.objective = .finite ((p.recourse i).objectiveAt (coord r.point))

/-- How good the result of a scenario is: it holds an optimum, unless it was taken from the
deterministic equivalent and the scenario has no weight.  Then its duals are zero. -/
structure Recovered (method : Method) : Prop where
  /-- An optimum. -/
  optimum : method = .lshaped ∨ 0 < p.weight i → (p.recourse i).Optimum x r
  /-- No duals. -/
  duals : method = .extensive → ¬ 0 < p.weight i →
    r.duals = Scalar.zeros (p.recourse i).rows.length

end Delivery

/-- A decision, its value, and a result for every scenario, as a method delivers them. -/
structure Delivers (p : Program σ (Exact F)) (method : Method) (x : List (Exact F))
    (objective : Exact F) (results : List (SolveResult (Exact F))) : Prop where
  /-- The decision is made of numbers. -/
  finite : AllFinite x
  /-- There is one for every first-stage column. -/
  length : x.length = p.firstStage.columns.length
  /-- It fits the first stage. -/
  fits : p.firstStage.Fits (coord x) (coord x)
  /-- There is a result for every scenario, in order. -/
  recourse : List.Forall₂ (fun i r => p.PlacedAt x i r ∧ p.Recovered x i r method)
    (List.range p.scenarioCount) results
  /-- The objective is the value of the decision and the points. -/
  objective : objective =
    .finite (p.valueAt (coord x) fun i => coord (results.getD i default).point)
  /-- The subproblems are posed.  Of the deterministic equivalent only those are that have a
  column. -/
  posed : ∀ i < p.scenarioCount, method = .lshaped ∨ (p.recourse i).columns ≠ [] →
    (p.recourse i).Posed
  /-- The deterministic equivalent leaves no better plan. -/
  best : method = .extensive → ∀ x' y', p.Feasible x' y' →
    p.lossAt (coord x) (fun i => coord (results.getD i default).point) ≤ p.lossAt x' y'

variable {p : Program σ (Exact F)}

/-- Any two families of optima at a decision make the same loss. -/
theorem lossAt_eq_of_solves (hs : p.Solvable) {x : Nat → F} {y z : Nat → Nat → F}
    (hy : ∀ i < p.scenarioCount, (p.recourse i).Solves x (y i))
    (hz : ∀ i < p.scenarioCount, (p.recourse i).Solves x (z i)) : p.lossAt x y = p.lossAt x z := by
  rw [hs.lossAt_eq, hs.lossAt_eq]
  refine congrArg _ (Finset.sum_congr rfl fun i hi => ?_)
  have hi := Finset.mem_range.1 hi
  rw [le_antisymm ((hy i hi).2 _ (hz i hi).1) ((hz i hi).2 _ (hy i hi).1)]

/-- What a relation says of the result at a position. -/
theorem getD_of_forall₂_range {R : Nat → SolveResult (Exact F) → Prop} {n : Nat}
    {results : List (SolveResult (Exact F))} (h : List.Forall₂ R (List.range n) results) {i : Nat}
    (hi : i < n) : R i (results.getD i default) := by
  have hi' : i < results.length := by
    rw [← h.length_eq, List.length_range]
    exact hi
  have hget := h.get (i := i) (by simpa using hi) hi'
  rwa [List.get_eq_getElem, List.get_eq_getElem, List.getElem_range,
    ← List.getD_eq_getElem _ default hi'] at hget

/-! ## Out of the deterministic equivalent -/

/-- What the duals of a scenario are multiplied by: its weight is divided out, unless it has
none. -/
theorem unit_eq (w : F) : (if Scalar.less 0 (.finite w : Exact F) then 1 / .finite w else 0 :
    Exact F) = .finite (if 0 < w then 1 / w else 0) := by
  rw [Exact.zero_eq, Exact.less_finite]
  by_cases hw : 0 < w
  · rw [decide_eq_true hw, if_pos rfl, if_pos hw, Exact.one_eq, Exact.finite_div hw.ne']
  · rw [decide_eq_false hw, if_neg hw]
    rfl

/-- Duals of the deterministic equivalent, turned into the sense of the program, picked for a
scenario and multiplied. -/
theorem pick_duals (hp : p.Proper) {i : Nat} (hi : i < p.scenarioCount) {y : List (Exact F)}
    (hy : AllFinite y) (hlength : y.length = p.equivalentProgram.rows.length) (g factor : F) :
    (ExtensiveState.pick (Scalar.scale (.finite g) y) (p.equivalent.rows.getD i [])).map
        (· * .finite factor) =
      ((p.equivalent.rows.getD i []).map fun j => g * coord y j * factor).map .finite := by
  rw [ExtensiveState.pick, List.map_map, List.map_map]
  refine List.map_congr_left fun j hj => ?_
  obtain ⟨k, hk, rfl⟩ := List.getElem_of_mem hj
  have hrow := (rowOf_spec hp hi (length_rowsOf hp.coherent hi ▸ hk) []).1
  rw [rowOf, List.getD_eq_getElem _ _ hk, ← hlength] at hrow
  have hentry := (hy.scale g).getD (by rwa [Scalar.scale, List.length_map])
  rw [Function.comp_apply, Function.comp_apply, ← coord_scale g hy, ← Exact.finite_mul, ← hentry]
  rfl

section Unpack

variable {answer : SolveResult (Exact F)} (hanswer : answer.Certifies p.equivalentProgram)
  (hp : p.Proper)

include hanswer hp

/-- The part of a scenario in an optimum of the deterministic equivalent. -/
theorem unpack_settles (hs : p.Solvable) {i : Nat} (hi : i < p.scenarioCount)
    (constant : Exact F) :
    Settles (ExtensiveState.unpack p.equivalent (answer.inSense p.firstStage.goal.sign constant)
        (p.recourse i) (.finite (p.weight i)) (p.equivalent.columns.getD i [])
        (p.equivalent.rows.getD i []))
      (fun r => (p.PlacedAt (answer.point.take p.firstStage.columns.length) i r ∧
        p.Recovered (answer.point.take p.firstStage.columns.length) i r .extensive) ∧
          r.point = p.pointOf i answer.point)
      fun _ => False := by
  have hfinite := allFinite_pointOf hp.coherent hi hanswer.point_finite hanswer.point_length
  have hlength := length_pointOf hp.coherent hi answer.point
  have hobjective := Model.evaluateObjective_eq (hp.second i hi).coherent hfinite hlength
  unfold ExtensiveState.unpack
  show Settles ((p.recourse i).evaluateObjective (p.pointOf i answer.point) >>= _) _ _
  rw [hobjective]
  refine ⟨⟨⟨hfinite, hlength, fits_pointOf hanswer hp hi, rfl⟩, ⟨?_, fun _ hweight => ?_⟩⟩, rfl⟩
  · rintro (hmethod | hweight)
    · cases hmethod
    obtain ⟨a, hstatus, hcertifies, hpoint, hduals⟩ :=
      exists_recourse_certificate hanswer hp hs hi hweight
    have hreports : (p.recourse i).Reports (answer.point.take p.firstStage.columns.length)
        (a.inSense (p.recourse i).goal.sign (p.recourse i).objective.constant) := by
      refine ⟨a, ?_, rfl⟩
      rw [SolveResult.Answers, hstatus]
      exact hcertifies
    refine ⟨_, hreports, hstatus, hpoint, ?_, ?_⟩
    · rw [hreports.objective (hp.second i hi) hstatus]
      exact congrArg (fun xs => Exact.finite ((p.recourse i).objectiveAt (coord xs))) hpoint
    · dsimp only [SolveResult.inSense]
      rw [hduals, hs.goals i hi, Goal.sign_eq, dualsOf, Exact.scale_finite, unit_eq,
        if_pos hweight, pick_duals hp hi hanswer.duals_finite hanswer.duals_length]
      simp only [List.map_map]
      refine List.map_congr_left fun j _ => ?_
      simp only [Function.comp_apply, mul_one_div, mul_div_assoc]
  · rw [SolveResult.inSense, Goal.sign_eq, unit_eq, if_neg hweight,
      pick_duals hp hi hanswer.duals_finite hanswer.duals_length, Exact.zeros_eq,
      ← length_rowsOf hp.coherent hi]
    refine congrArg (List.map Exact.finite) (List.ext_getElem (by simp) fun k _ _ => ?_)
    simp

end Unpack

/-- The probability of a scenario, as the deterministic equivalent knows it. -/
theorem getD_probabilities (hp : p.Coherent) {i : Nat} (hi : i < p.scenarioCount) :
    p.equivalent.probabilities.getD i 0 = .finite (p.weight i) := by
  have hi' : i < p.probabilities.length := by rwa [length_probabilities]
  obtain ⟨s, hs, hprobability⟩ := List.mem_map.1 (List.getElem_mem hi')
  have hfinite := hp.probabilities s hs
  rw [hprobability] at hfinite
  rw [(equivalent_matches hp).probabilities, weight, coord, List.getD_eq_getElem _ _ hi',
    List.getD_eq_getElem _ _ hi', Exact.finite_value hfinite]

end Program

namespace ExtensiveState

variable {p : Program σ (Exact F)}

/-- Results are unpacked scenario by scenario. -/
theorem unpackAll_forall₂ {K : Type} [Scalar K] (p : Program σ K) (f : ExtensiveForm K)
    (r : SolveResult K) {R : Nat → SolveResult K → Prop} {E : Fault K → Prop} (i : Nat)
    (maps : List (List Nat × List Nat))
    (h : ∀ k (hk : k < maps.length), Settles (do
      let sub ← p.subproblemAt (i + k)
      unpack f r sub (f.probabilities.getD (i + k) 0) maps[k].1 maps[k].2) (R (i + k)) E) :
    Settles (unpackAll p f r i maps) (List.Forall₂ R (List.range' i maps.length)) E := by
  induction maps generalizing i with
  | nil => exact .nil
  | cons m maps ih =>
    have hhead := h 0 (Nat.succ_pos _)
    have htail := ih (i + 1) fun k hk => by
      have hk := h (k + 1) (Nat.succ_lt_succ hk)
      rwa [← Nat.add_assoc, Nat.add_right_comm] at hk
    unfold unpackAll
    cases hsub : p.subproblemAt i with
    | error f =>
      rw [Nat.add_zero, hsub] at hhead
      exact hhead
    | ok sub =>
      rw [Nat.add_zero, hsub] at hhead
      refine Settles.bind (Settles.bind (Settles.mono hhead (fun one hone => ?_) fun _ h => h))
      refine Settles.bind (htail.mono (fun rest hrest => ?_) fun _ h => h)
      exact .cons hone hrest

/-- An optimum of the deterministic equivalent is unpacked into what is delivered. -/
theorem unpackAll_settles_delivers {answer : SolveResult (Exact F)}
    (hanswer : answer.Certifies p.equivalentProgram) (hstatus : answer.status = .optimal)
    (hp : p.Proper) (hs : p.Solvable) (hdefined : ∀ i < p.scenarioCount, (p.recourse i).Defined)
    {q : Program σ (Exact F)} (hq : ∀ i < p.scenarioCount, q.subproblemAt i = .ok (p.recourse i)) :
    Settles (unpackAll q p.equivalent (answer.inSense p.equivalent.model.goal.sign
        p.equivalent.model.objective.constant) 0 (p.equivalent.columns.zip p.equivalent.rows))
      (p.Delivers .extensive (answer.point.take p.firstStage.columns.length)
        (answer.inSense p.equivalent.model.goal.sign
          p.equivalent.model.objective.constant).objective)
      fun _ => False := by
  have h := Program.equivalent_represents hp.coherent
  have hl := Program.equivalent_layout hp.coherent
  have hproper := Program.equivalent_proper hp
  have hreports : p.equivalent.model.Reports [] (answer.inSense p.equivalent.model.goal.sign
      p.equivalent.model.objective.constant) := by
    refine ⟨answer, ?_, rfl⟩
    rw [SolveResult.Answers, hstatus]
    exact hanswer
  have hlength : (p.equivalent.columns.zip p.equivalent.rows).length = p.scenarioCount := by
    rw [List.length_zip, h.columns_length, hl.rows_length, min_self]
  -- Scenario by scenario: each result is the part of the optimum that belongs to it.
  have hall := unpackAll_forall₂ q p.equivalent (answer.inSense p.equivalent.model.goal.sign
      p.equivalent.model.objective.constant) (E := fun _ => False)
    (R := fun i r => (p.PlacedAt (answer.point.take p.firstStage.columns.length) i r ∧
      p.Recovered (answer.point.take p.firstStage.columns.length) i r .extensive) ∧
        r.point = p.pointOf i answer.point)
    0 (p.equivalent.columns.zip p.equivalent.rows) fun k hk => by
      have hi : k < p.scenarioCount := hlength ▸ hk
      have hcolumns : k < p.equivalent.columns.length := h.columns_length.symm ▸ hi
      have hrows : k < p.equivalent.rows.length := hl.rows_length.symm ▸ hi
      have hone := Program.unpack_settles hanswer hp hs hi p.equivalent.model.objective.constant
      rw [Nat.zero_add, hq k hi, Program.getD_probabilities hp.coherent hi, List.getElem_zip,
        h.goal]
      rwa [List.getD_eq_getElem _ _ hcolumns, List.getD_eq_getElem _ _ hrows] at hone
  refine hall.mono (fun results hresults => ?_) fun _ h => h
  rw [← List.range_eq_range', hlength] at hresults
  have hdecision : ∀ j < p.firstStage.columns.length,
      coord answer.point j = coord (answer.point.take p.firstStage.columns.length) j :=
    fun j hj => (coord_take hj).symm
  -- Together the parts are the optimum again, so that its value is that of the plan.
  have hpoints : ∀ i < p.scenarioCount, ∀ k < (p.recourse i).columns.length,
      p.equivalent.part i (coord answer.point) k = coord (results.getD i default).point k := by
    intro i hi k hk
    rw [(Program.getD_of_forall₂_range hresults hi).2, Program.coord_pointOf hp.coherent hi _ hk]
  have hfits := Program.fits_of_certifies hanswer hp
  have hvalue : p.valueAt (coord answer.point) (fun i => p.equivalent.part i (coord answer.point)) =
      p.valueAt (coord (answer.point.take p.firstStage.columns.length))
        fun i => coord (results.getD i default).point :=
    Program.valueAt_congr hp.coherent hdecision hpoints
  refine
    { finite := hanswer.point_finite.take _
      length := ?_
      fits := hp.fits_congr hdecision
        (Program.feasible_of_equivalent hp.coherent hfits).1.first
      recourse := hresults.imp fun _ _ h => h.1
      objective := ?_
      posed := fun i hi hcolumns => ⟨hdefined i hi, hcolumns.resolve_left (by decide)⟩
      best := fun _ x' y' hxy => ?_ }
  · rw [List.length_take, hanswer.point_length, Program.equivalentProgram,
      Model.length_cost_formAt, min_eq_left h.width]
  · rw [hreports.objective hproper hstatus, ← hvalue]
    exact congrArg Exact.finite (h.objective (coord answer.point))
  · obtain ⟨v, -, hv, hloss⟩ := Program.exists_equivalent hp.coherent hxy
    have hv' : p.equivalent.model.Fits (coord []) v := h.coherent.fits_congr
      (fun j hj => absurd hj (by rw [h.own]; exact Nat.not_lt_zero j)) (fun _ _ => rfl) hv
    have hle := (hreports.solves hproper ⟨allFinite_nil, h.own.le⟩ hstatus).2 v hv'
    rw [hloss] at hle
    refine le_of_eq_of_le ?_ hle
    rw [Program.lossAt, ← hvalue]
    exact Program.lossAt_equivalent hp.coherent (coord answer.point)

/-! ## Runs -/

variable [Host σ (Exact F)]

/-- A run on the deterministic equivalent that ends with an optimum delivers. -/
theorem run_ensures_delivers (host : Host.Sound σ F) {b : Backend σ (Exact F)}
    (hb : b.Faithful) (hp : p.Proper) (hs : p.Solvable) (c : Config (Exact F))
    {s : ExtensiveState (Exact F)} (hform : s.form = p.equivalent) {q : Program σ (Exact F)}
    (hq : ∀ i < p.scenarioCount, q.subproblemAt i = .ok (p.recourse i)) :
    (run c b q).Ensures s
      (fun status s' => status = .optimal → ∃ x, s'.decision = some x ∧
        p.Delivers .extensive x s'.objective s'.secondStage)
      (fun _ _ => True) := by
  have hproper := Program.equivalent_proper hp
  have hown := (Program.equivalent_represents hp.coherent).own
  unfold run
  refine Change.ensures_bind (Change.ensures_state ?_)
  split
  · exact Change.ensures_bind (Change.ensures_update (Change.ensures_pure nofun))
  rw [hform, Backend.optimize_none _ hproper hown]
  refine Change.ensures_bind (Change.ensures_ofAct (((Backend.optimize_ensures host
    (backendFor_faithful c hb) hproper allFinite_nil (Or.inl hown)).and
    ((backendFor c b).optimize_posed hproper allFinite_nil (Or.inl hown))).mono ?_
    fun _ _ => trivial))
  rintro r ⟨hr, hposed⟩
  have hdefined := Program.defined_of_equivalent hp.coherent hposed.toDefined
  refine Change.ensures_bind (Change.ensures_update ?_)
  dsimp only
  split
  · exact Change.ensures_bind (Change.ensures_fail trivial)
  split
  · rename_i hstatus
    obtain ⟨answer, hanswer, rfl⟩ := hr.certificate hstatus
    have hunpacked := unpackAll_settles_delivers hanswer hstatus hp hs hdefined hq
    rw [← (Program.equivalent_layout hp.coherent).firstColumns] at hunpacked
    refine Change.ensures_bind (Change.ensures_update (Change.ensures_bind (Change.ensures_lift
      (hunpacked.mono (fun second hsecond => ?_) fun _ _ => trivial))))
    exact Change.ensures_bind (Change.ensures_update (Change.ensures_bind (Change.ensures_update
      (Change.ensures_pure fun _ => ⟨_, rfl, hsecond⟩))))
  · rename_i hother
    exact Change.ensures_bind (Change.ensures_update (Change.ensures_pure fun h => absurd h hother))

end ExtensiveState

/-! ## The L-shaped method -/

namespace LShaped

variable [Host σ (Exact F)] {s : State (Exact F)} {p : Program σ (Exact F)}
  {m : LShaped σ (Exact F)}

omit [Host σ (Exact F)] in
/-- The results of a complete round are those of its outcomes, which are in order. -/
theorem results_eq {x : List (Exact F)} {round : Round (Exact F)} {is : List Nat}
    (h : List.Forall₂ (p.Solved x) is round.outcomes) (his : is.Pairwise (· ≤ ·)) :
    round.results = round.outcomes.map (·.result) := by
  have hindices : round.outcomes.map (·.index) = is.map Int.ofNat := by
    refine (eq_map_of_forall₂ (g := Int.ofNat) ?_)
    exact List.forall₂_map_right_iff.2 (h.imp fun _ _ ho => ho.index)
  have hsorted : round.outcomes.Pairwise fun a b => decide (a.index ≤ b.index) = true := by
    have hpairwise : (round.outcomes.map (·.index)).Pairwise (· ≤ ·) := by
      rw [hindices, List.pairwise_map]
      exact his.imp fun hab => Int.ofNat_le.2 hab
    exact (List.pairwise_map.1 hpairwise).imp fun hab => decide_eq_true hab
  rw [Round.results, Sorting.sorted_of_pairwise _ hsorted]

/-- A run of the L-shaped method that ends with an optimum delivers its incumbent. -/
theorem Reachable.delivers (host : Host.Sound σ F) (hb : m.backend.Faithful)
    (hm : m.Configured) (hp : p.Proper) (h : Reachable m p s) (hstatus : s.status = .optimal) :
    ∃ x, s.decision = some x ∧ p.Delivers .lshaped x s.objective s.secondStage := by
  have hinvariant := h.invariant host hb hp hm.masterBound
  have houtcome := hinvariant.outcome
  rw [State.OutcomeHolds, hstatus] at houtcome
  obtain ⟨⟨u, i, -, -, hu, hi, -⟩, hincumbent, hobjective⟩ := houtcome
  -- What is delivered is the round of the incumbent, in which no scenario failed.
  have hsound : i.Sound p u := by
    rcases hinvariant.upper with ⟨-, hnone⟩ | ⟨u', i', hu', hi', hsound⟩
    · rw [hnone] at hi
      cases hi
    · rw [hi'] at hi
      rw [hu'] at hu
      cases hi
      cases hu
      exact hsound
  obtain ⟨hdecision, hsecond, -⟩ := hincumbent i hi
  have hsolved := hsound.round.complete hsound.complete
  have hresults : List.Forall₂ (fun k r => (p.recourse k).Reports i.decision r ∧
      r.status = .optimal) (List.range p.scenarioCount) s.secondStage := by
    rw [hsecond, results_eq hsolved List.pairwise_le_range, List.forall₂_map_right_iff]
    exact hsolved.imp fun _ _ ho => ⟨ho.reports, ho.optimal⟩
  have hplaced : ∀ k < p.scenarioCount, ∀ r, (p.recourse k).Reports i.decision r →
      r.status = .optimal → p.PlacedAt i.decision k r := fun k hk r hr hoptimal => by
    have hsuits := Model.suits_of_length hsound.evaluated.finite
      (hsound.evaluated.length.symm ▸ hp.placeholders k hk)
    refine ⟨?_, ?_, (hr.solves (hp.second k hk) hsuits hoptimal).1,
      hr.objective (hp.second k hk) hoptimal⟩
    · obtain ⟨answer, hanswer, rfl⟩ := hr.certificate hoptimal
      exact hanswer.point_finite
    · obtain ⟨answer, hanswer, rfl⟩ := hr.certificate hoptimal
      exact hanswer.point_length.trans (Model.length_cost_formAt _ _)
  have hposed : ∀ k ∈ List.range p.scenarioCount, (p.recourse k).Posed :=
    ((List.forall₂_and_left (p := fun k => (p.recourse k).Posed) _ _).1
      (hsolved.imp fun _ _ ho => ⟨ho.posed, ho⟩)).1
  refine ⟨i.decision, hdecision, hsound.evaluated.finite, hsound.evaluated.length,
    hsound.evaluated.fits, ?_, ?_, fun k hk _ => hposed k (List.mem_range.2 hk),
    fun hmethod => by cases hmethod⟩
  · have hrange := List.forall₂_and_left (p := (· < p.scenarioCount)) _ _ |>.2
      ⟨fun k hk => List.mem_range.1 hk, hresults⟩
    refine hrange.imp ?_
    rintro k r ⟨hk, hr, hoptimal⟩
    exact ⟨hplaced k hk r hr hoptimal, fun _ => hr.optimum hoptimal,
      fun hmethod => by cases hmethod⟩
  · obtain ⟨y, hy, rfl⟩ := hsound.evaluated.value
    have hloss := Program.lossAt_eq_of_solves (h.solvable hp) hy fun k hk => by
      obtain ⟨hr, hoptimal⟩ := Program.getD_of_forall₂_range hresults hk
      exact hr.solves (hp.second k hk) (Model.suits_of_length hsound.evaluated.finite
        (hsound.evaluated.length.symm ▸ hp.placeholders k hk)) hoptimal
    rw [hobjective, hu, hinvariant.sign, Goal.sign_eq, Exact.finite_mul, hloss, Program.lossAt,
      ← mul_assoc, Goal.factor_mul_self, one_mul]

end LShaped

end Recourse
