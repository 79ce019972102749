/-
  Proofs/Solver/Multipliers.lean --- duals and reduced costs of the first stage.

  A run on the deterministic equivalent publishes the duals of the first-stage rows and the
  reduced costs of the first-stage columns that some optimal result has
  (`Program.OptimalMultipliers`).  Other methods get there without the equivalent: prices
  for the first stage that belong to a feasible plan are such multipliers when what they
  leave of the loss is least at the plan, among all decisions whose recourse fits them
  (`Program.optimalMultipliers_of_least`).
-/
import Recourse.Proofs.Solver.Equivalent

set_option autoImplicit false
set_option linter.unusedSectionVars false

open scoped BigOperators

namespace Recourse

variable {F : Type} [Field F] [LinearOrder F] [IsStrictOrderedRing F] [FloorRing F] {σ : Type}

theorem SolveResult.costs_inSense (r : SolveResult (Exact F)) (sign constant : Exact F) :
    (r.inSense sign constant).costs = Scalar.scale sign r.costs := by
  unfold SolveResult.costs SolveResult.inSense
  cases r.reducedCosts <;> rfl

/-! ## Behind the first stage -/

namespace ExtensiveForm

/-- A point keeps to the rows and columns behind those of the first stage. -/
def FitsBehind (f : ExtensiveForm (Exact F)) (master : Model (Exact F)) (v : Nat → F) : Prop :=
  (∀ r ∈ f.model.rows.drop master.rows.length, r.Holds v) ∧
    ∀ c ∈ f.model.columns.drop master.columns.length, Model.Admits v c (v c.index)

section Scenario

variable {f : ExtensiveForm (Exact F)} {master sub : Model (Exact F)}

/-- One more scenario brings its own rows and columns and no others. -/
theorem fitsBehind_addScenario_iff (hrows : master.rows.length ≤ f.model.rows.length)
    (hcolumns : master.columns.length ≤ f.model.columns.length) (hsub : sub.Coherent)
    (q : Exact F) (v : Nat → F) : (f.addScenario q sub).FitsBehind master v ↔
      f.FitsBehind master v ∧ sub.Fits v fun k => v ((newColumns f sub).getD k 0) := by
  rw [← fits_copies_iff hsub v, FitsBehind, FitsBehind]
  simp only [addScenario]
  rw [List.drop_append_of_le_length hrows, List.drop_append_of_le_length hcolumns,
    List.forall_mem_append, List.forall_mem_append]
  exact and_and_and_comm

end Scenario

/-- The rows and columns behind those of the first stage are those of the scenarios. -/
theorem fitsBehind_build_iff {master : Model (Exact F)} (hm : master.Coherent)
    (hown : master.decisionCount = 0) {weight : Nat → F} {recourse : Nat → Model (Exact F)}
    {n : Nat} (hsub : ∀ i < n, (recourse i).Coherent ∧
      (recourse i).decisionCount ≤ master.columns.length) (v : Nat → F) :
    let f := build master ((List.range n).map fun i => (.finite (weight i), recourse i))
    f.FitsBehind master v ↔ ∀ i < n, (recourse i).Fits v (f.part i v) := by
  induction n with
  | zero =>
    refine ⟨fun _ i hi => absurd hi (Nat.not_lt_zero i), fun _ => ?_⟩
    have hrows := List.drop_of_length_le (i := master.rows.length)
      (l := (ofMaster master).model.rows) (by simp [ofMaster, copyRows])
    have hcolumns := List.drop_of_length_le (i := master.columns.length)
      (l := (ofMaster master).model.columns) (by simp [ofMaster])
    show FitsBehind (ofMaster master) master v
    rw [FitsBehind, hrows, hcolumns]
    exact ⟨fun r hr => absurd hr List.not_mem_nil, fun c hc => absurd hc List.not_mem_nil⟩
  | succ n ih =>
    have hsub' := fun i (hi : i < n) => hsub i (hi.trans n.lt_succ_self)
    have h := represents_build hm hown weight hsub'
    have hl := layout_build hown weight recourse n
    have hrows := congrArg List.length hl.rows_flatten
    rw [List.length_append, List.length_range, List.length_range] at hrows
    have hlast := part_addScenario_self (.finite (weight n)) (recourse n) v
      (f := build master ((List.range n).map fun i => (.finite (weight i), recourse i)))
    rw [h.columns_length] at hlast
    simp only at ih ⊢
    rw [build_succ, fitsBehind_addScenario_iff (by omega) h.width (hsub n n.lt_succ_self).1,
      ih hsub', Nat.forall_lt_succ_right, hlast]
    refine and_congr_left fun _ => forall₂_congr fun i hi => ?_
    rw [part_addScenario_of_lt _ _ (h.columns_length.symm ▸ hi)]

/-- What a copied row says besides its name and its position. -/
theorem map_copyRows_id {α : Type} (g : Row (Exact F) → α) (mark : String) (start : Nat)
    (rows : List (Row (Exact F))) (hg : ∀ i, ∀ r, g (copyRow id mark i r) = g r) :
    (copyRows id mark start rows).map g = rows.map g := by
  rw [copyRows, List.map_map]
  refine (List.map_congr_left (g := g ∘ Prod.fst) fun t _ => hg _ t.1).trans ?_
  rw [← List.map_map, List.zipIdx_map_fst]

/-- The matrix form of the deterministic equivalent begins with that of the first stage. -/
theorem Layout.extends {f : ExtensiveForm (Exact F)} {master : Model (Exact F)} {n : Nat}
    {recourse : Nat → Model (Exact F)} (h : f.Layout master n recourse)
    (hproper : f.model.Proper) :
    (f.model.formAt []).toProgram.Extends (master.formAt []).toProgram := by
  have hrows : ∀ {α : Type} (g : Row (Exact F) → α), (∀ i r, g (copyRow id "" i r) = g r) →
      (f.model.rows.map g).take master.rows.length = master.rows.map g := by
    intro α g hg
    rw [← List.map_take, h.leadingRows]
    exact map_copyRows_id g "" 0 master.rows hg
  have hcolumns : ∀ g : Variable (Exact F) → Exact F,
      (f.model.columns.map g).take master.columns.length = master.columns.map g := by
    intro g
    rw [← List.map_take, h.leadingColumns]
  refine (Model.formAt_hasRelations _ []).extends (Model.formAt_hasRelations _ [])
    hproper.isKnown ?_ ?_ ?_ ?_ ?_ ?_
  · rw [Model.length_rows_formAt]
    exact hrows _ fun i r => by simp [copyRow, renumber]
  · rw [Model.length_rows_formAt]
    exact hrows _ fun _ _ => rfl
  · rw [Model.length_rows_formAt]
    exact hrows _ fun _ _ => rfl
  · rw [Model.length_cost_formAt, Model.length_cost_formAt]
    exact h.width
  · rw [Model.length_cost_formAt]
    exact hcolumns _
  · rw [Model.length_cost_formAt]
    exact hcolumns _

end ExtensiveForm

namespace Program

variable {p : Program σ (Exact F)}

/-- The matrix form of the deterministic equivalent. -/
def equivalentProgram (p : Program σ (Exact F)) : LinearProgram (Exact F) :=
  (p.equivalent.model.formAt []).toProgram

/-- The matrix form of the first stage. -/
def firstProgram (p : Program σ (Exact F)) : LinearProgram (Exact F) :=
  (p.firstStage.formAt []).toProgram

@[simp] theorem length_rows_firstProgram (p : Program σ (Exact F)) :
    p.firstProgram.rows.length = p.firstStage.rows.length := Model.length_rows_formAt _ _

@[simp] theorem length_cost_firstProgram (p : Program σ (Exact F)) :
    p.firstProgram.cost.length = p.firstStage.columns.length := Model.length_cost_formAt _ _

/-- The rows of the first stage mention its columns only. -/
theorem firstProgram_within (hp : p.Proper) :
    ∀ r ∈ p.firstProgram.rows, r.Within p.firstProgram.cost.length :=
  (Model.formAt_regular hp.first []).within

/-- The deterministic equivalent begins with the first stage. -/
theorem equivalentProgram_extends (hp : p.Proper) :
    p.equivalentProgram.Extends p.firstProgram :=
  (equivalent_layout hp.coherent).extends (equivalent_proper hp)

/-- Behind the first stage the deterministic equivalent asks that every recourse fits. -/
theorem fits_of_holdsBehind (hp : p.Proper) {v : Nat → F}
    (hv : p.equivalentProgram.HoldsBehind p.firstStage.rows.length p.firstStage.columns.length v) :
    ∀ i < p.scenarioCount, (p.recourse i).Fits v (p.equivalent.part i v) := by
  have hproper := equivalent_proper hp
  have h := equivalent_represents hp.coherent
  have hbehind : p.equivalent.FitsBehind p.firstStage v := by
    constructor
    · intro r hr
      obtain ⟨i, hi, rfl⟩ := List.getElem_of_mem hr
      rw [List.length_drop] at hi
      rw [List.getElem_drop]
      exact (Model.rowHolds_formAt_iff hproper [] _ v).1
        (hv.rows _ (by rw [equivalentProgram, Model.length_rows_formAt]; omega)
          (Nat.le_add_right _ i))
    · intro c hc
      obtain ⟨j, hj, rfl⟩ := List.getElem_of_mem hc
      rw [List.length_drop] at hj
      rw [List.getElem_drop, hproper.numbered _ (by omega)]
      have hcolumn := (Model.columnHolds_formAt_iff ⟨allFinite_nil, h.own.le⟩
        (j := p.firstStage.columns.length + j) (by omega) v).1
        (hv.columns _ (by rw [equivalentProgram, Model.length_cost_formAt]; omega)
          (Nat.le_add_right _ j))
      have hnone := ExtensiveForm.decision_eq_none h.own _ (List.getElem_mem
        (by omega : p.firstStage.columns.length + j < p.equivalent.model.columns.length))
      rw [Model.Admits, hnone] at hcolumn ⊢
      exact hcolumn
  rw [equivalent_eq hp.coherent] at hbehind ⊢
  exact (ExtensiveForm.fitsBehind_build_iff hp.coherent.first hp.own
    (fun i hi => ⟨hp.coherent.second i hi, hp.coherent.decisionCount_le hi⟩) v).1 hbehind

/-- A feasible plan is a feasible point of the equivalent's matrix form. -/
theorem exists_equivalentPoint (hp : p.Proper) {x : Nat → F} {z : Nat → Nat → F}
    (hxz : p.Feasible x z) : ∃ point : List (Exact F), AllFinite point ∧
      point.length = p.equivalentProgram.cost.length ∧
      p.equivalentProgram.Feasible (coord point) ∧
      (∀ j < p.firstStage.columns.length, coord point j = x j) ∧
      p.lossAt (coord point) (fun i => p.equivalent.part i (coord point)) = p.lossAt x z := by
  have hproper := equivalent_proper hp
  have h := equivalent_represents hp.coherent
  have hlength : p.equivalentProgram.cost.length = p.equivalent.model.columns.length :=
    Model.length_cost_formAt _ _
  obtain ⟨v, hdecision, hfits, hloss⟩ := exists_equivalent hp.coherent hxz
  obtain ⟨point, hpoint⟩ : ∃ point : List (Exact F), point =
    ((List.range p.equivalentProgram.cost.length).map v).map Exact.finite := ⟨_, rfl⟩
  have hcoord : ∀ j < p.equivalent.model.columns.length, coord point j = v j := by
    intro j hj
    rw [hpoint, coord_map_range (hlength.symm ▸ hj)]
  refine ⟨point, hpoint ▸ allFinite_map_finite _, by rw [hpoint]; simp, ?_, fun j hj => ?_, ?_⟩
  · refine (Model.feasible_formAt_iff hproper ⟨allFinite_nil, h.own.le⟩ _).2
      (h.coherent.fits_congr ?_ ?_ hfits)
    · intro j hj
      rw [h.own] at hj
      exact absurd hj (Nat.not_lt_zero j)
    · exact fun j hj => (hcoord j hj).symm
  · rw [hcoord j (hj.trans_le h.width), hdecision j hj]
  · rw [lossAt_equivalent hp.coherent, ← hloss, Model.lossAt, Model.lossAt,
      h.coherent.objectiveAt_congr hcoord]

/-! ## Multipliers -/

/-- Duals of the first-stage rows and reduced costs of the first-stage columns in some
optimal result of the deterministic equivalent, in the sense of the program. -/
def OptimalMultipliers (p : Program σ (Exact F)) (duals costs : List (Exact F)) : Prop :=
  ∃ r : SolveResult (Exact F), p.equivalent.model.Reports [] r ∧ r.status = .optimal ∧
    duals = r.duals.take p.equivalent.firstRows ∧ costs = r.costs.take p.equivalent.firstColumns

/-- A column without bounds has no reduced cost. -/
theorem OptimalMultipliers.coord_eq_zero_of_free (hp : p.Proper) {duals costs : List (Exact F)}
    (h : p.OptimalMultipliers duals costs) {j : Nat} (hj : j < p.firstStage.columns.length)
    (hlower : Scalar.isFinite (p.firstProgram.columnBand j).lower = false)
    (hupper : Scalar.isFinite (p.firstProgram.columnBand j).upper = false) :
    coord costs j = 0 := by
  have hextends := equivalentProgram_extends hp
  have hband := hextends.column j (by rwa [length_cost_firstProgram])
  have hj' : j < p.equivalentProgram.cost.length := by
    have hle := hextends.columns_le
    rw [length_cost_firstProgram] at hle
    omega
  obtain ⟨r, hreports, hstatus, -, rfl⟩ := h
  obtain ⟨answer, hanswer, rfl⟩ := hreports.certificate hstatus
  obtain ⟨hpositive, hnegative⟩ := hanswer.column_charges hj'
  rw [show (p.equivalent.model.formAt []).toProgram = p.equivalentProgram from rfl, hband]
    at hpositive hnegative
  have hzero : coord answer.costs j = 0 := by
    refine le_antisymm (not_lt.1 fun hlt => ?_) (not_lt.1 fun hlt => ?_)
    · rw [hpositive hlt, Exact.isFinite_finite] at hlower
      cases hlower
    · rw [hnegative hlt, Exact.isFinite_finite] at hupper
      cases hupper
  rw [(equivalent_layout hp.coherent).firstColumns, coord_take hj, SolveResult.costs_inSense,
    Goal.sign_eq, coord_scale _ hanswer.costs_finite, hzero, mul_zero]

/-- What prices for the first stage leave of the loss of a decision and its recourse. -/
def residualAt (p : Program σ (Exact F)) (y d : List (Exact F)) (x : Nat → F)
    (z : Nat → Nat → F) : F :=
  p.lossAt x z - p.firstProgram.charge y d x

/-- They leave as much of the cost of a point of the equivalent, but for the constant. -/
theorem residual_equivalentProgram (hp : p.Proper) {y : List (Exact F)}
    (hy : y.length = p.firstProgram.rows.length) (d : List (Exact F)) (v : Nat → F) :
    p.equivalentProgram.residual y d v =
      p.residualAt y d v (fun i => p.equivalent.part i v) -
        p.equivalent.model.goal.factor * p.equivalent.model.objective.constant.value := by
  rw [LinearProgram.residual, (equivalentProgram_extends hp).charge_eq hy, equivalentProgram,
    Model.costAt_formAt (equivalent_proper hp), residualAt, lossAt_equivalent hp.coherent]
  ring

/-- Prices for the first stage that belong to a feasible plan are multipliers of the program
when what they leave of the loss is least there, among all decisions whose recourse fits
them. -/
theorem optimalMultipliers_of_least (hp : p.Proper) {y d : List (Exact F)}
    (hy : y.length = p.firstStage.rows.length) (hd : d.length = p.firstStage.columns.length)
    {x : Nat → F} {z : Nat → Nat → F} (hxz : p.Feasible x z)
    (hcharges : p.firstProgram.ChargesAhead y d x)
    (hleast : ∀ x' z', (∀ i < p.scenarioCount, (p.recourse i).Fits x' (z' i)) →
      p.residualAt y d x z ≤ p.residualAt y d x' z') :
    p.OptimalMultipliers (Scalar.scale p.firstStage.goal.sign y)
      (Scalar.scale p.firstStage.goal.sign d) := by
  have hgoal := (equivalent_represents hp.coherent).goal
  have hl := equivalent_layout hp.coherent
  have hy' : y.length = p.firstProgram.rows.length := by simp [hy]
  have hd' : d.length = p.firstProgram.cost.length := by simp [hd]
  have hwithin := firstProgram_within hp
  obtain ⟨point, hfinite, hlength, hfeasible, hdecision, hloss⟩ := exists_equivalentPoint hp hxz
  have hsame : ∀ j < p.firstProgram.cost.length, x j = coord point j := fun j hj =>
    (hdecision j (length_cost_firstProgram p ▸ hj)).symm
  have hplan : p.residualAt y d (coord point) (fun i => p.equivalent.part i (coord point)) =
      p.residualAt y d x z := by
    rw [residualAt, residualAt, hloss, LinearProgram.charge_congr hwithin hd' hsame]
  obtain ⟨r, hstatus, hcertifies, -, hduals, hcosts⟩ := LinearProgram.exists_certificate hfinite
    hlength hfeasible (((equivalentProgram_extends hp).chargesAhead_iff hy' hd' _).2
      (hcharges.congr hwithin hsame)) fun v hv => by
        rw [residual_equivalentProgram hp hy', residual_equivalentProgram hp hy', hplan]
        rw [hy, hd] at hv
        exact sub_le_sub_right (hleast v _ (fits_of_holdsBehind hp hv)) _
  refine ⟨r.inSense p.equivalent.model.goal.sign p.equivalent.model.objective.constant,
    ⟨r, ?_, rfl⟩, hstatus, ?_, ?_⟩
  · rw [SolveResult.Answers, hstatus]
    exact hcertifies
  · rw [hl.firstRows, ← hy, SolveResult.inSense, Scalar.scale, Scalar.scale, hgoal,
      ← List.map_take, hduals]
  · rw [hl.firstColumns, ← hd, SolveResult.costs_inSense, Scalar.scale, Scalar.scale, hgoal,
      ← List.map_take, hcosts]

end Program

/-! ## Runs on the deterministic equivalent -/

namespace ExtensiveState

variable [Host σ (Exact F)] {p : Program σ (Exact F)}

/-- The multipliers that a run on the deterministic equivalent publishes. -/
theorem run_ensures_multipliers (host : Host.Sound σ F) {b : Backend σ (Exact F)}
    (hb : b.Faithful) (hp : p.Proper) (c : Config (Exact F)) {s : ExtensiveState (Exact F)}
    (hform : s.form = p.equivalent) (q : Program σ (Exact F)) :
    (run c b q).Ensures s
      (fun status s' => status = .optimal → ∃ duals costs, s'.duals = some duals ∧
        s'.reducedCosts = some costs ∧ p.OptimalMultipliers duals costs)
      (fun _ _ => True) := by
  have hproper := Program.equivalent_proper hp
  have hown := (Program.equivalent_represents hp.coherent).own
  unfold run
  refine Change.ensures_bind (Change.ensures_state ?_)
  split
  · exact Change.ensures_bind (Change.ensures_update (Change.ensures_pure nofun))
  rw [hform, Backend.optimize_none _ hproper hown]
  refine Change.ensures_bind (Change.ensures_ofAct ((Backend.optimize_ensures host
    (backendFor_faithful c hb) hproper allFinite_nil (Or.inl hown)).mono ?_ fun _ _ => trivial))
  intro r hr
  refine Change.ensures_bind (Change.ensures_update ?_)
  dsimp only
  split
  · exact Change.ensures_bind (Change.ensures_fail trivial)
  split
  · rename_i hstatus
    refine Change.ensures_bind (Change.ensures_update (Change.ensures_lift_bind (fun second _ => ?_)
      fun _ => trivial))
    exact Change.ensures_bind (Change.ensures_update (Change.ensures_bind (Change.ensures_update
      (Change.ensures_pure fun _ => ⟨_, _, rfl, rfl, r, hr, hstatus, rfl, rfl⟩))))
  · rename_i hother
    exact Change.ensures_bind (Change.ensures_update (Change.ensures_pure fun h => absurd h hother))

end ExtensiveState

end Recourse
