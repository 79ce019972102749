/-
  Proofs/Solver/PhaseOne.lean --- what phase one says about other decisions.

  The value of the phase-one problem at a decision, extended by its slope, is at most
  zero at every decision at which something fits the model (`phaseOne_ensures`).  A
  point that fits there, with slacks of zero, satisfies the rows of the phase-one
  problem and costs nothing; what the reduced costs charge for the move to it is the
  slope along the change of the decision and something that is not negative.
-/
import Recourse.Proofs.Model.Gradient
import Recourse.Solver.PhaseOne

set_option autoImplicit false
set_option linter.unusedSectionVars false

namespace Recourse

variable {F : Type} [Field F] [LinearOrder F] [IsStrictOrderedRing F] [FloorRing F]

namespace PhaseOne

/-! ## Slacks -/

/-- Every row keeps its terms, and its slacks come after the columns of before. -/
theorem addSlacks_spec (next : Nat) (rows : List (SparseRow (Exact F) × Relation)) :
    next ≤ (addSlacks next rows).2 ∧ (addSlacks next rows).1.length = rows.length ∧
      ∀ i (hi : i < rows.length), ∃ slacks : SparseRow (Exact F),
        (addSlacks next rows).1.getD i [] = rows[i].1 ++ slacks ∧
          ∀ t ∈ slacks, next ≤ t.1 ∧ t.1 < (addSlacks next rows).2 := by
  induction rows generalizing next with
  | nil => exact ⟨le_refl _, rfl, fun i hi => absurd hi (Nat.not_lt_zero i)⟩
  | cons r rest ih =>
    obtain ⟨row, relation⟩ := r
    obtain ⟨hlast, hlength, hrows⟩ := ih (next + (slackSigns relation : List (Exact F)).length)
    simp only [addSlacks]
    refine ⟨by omega, by simp [hlength], ?_⟩
    intro i hi
    cases i with
    | zero =>
      refine ⟨_, rfl, ?_⟩
      intro t ht
      obtain ⟨s, hs, rfl⟩ := List.mem_map.1 ht
      have hs : s.2 < (slackSigns relation : List (Exact F)).length :=
        (List.mem_zipIdx' hs).1
      exact ⟨Nat.le_add_right _ _, by show next + s.2 < _; omega⟩
    | succ i =>
      obtain ⟨slacks, hrow, hslacks⟩ := hrows i (Nat.lt_of_succ_lt_succ hi)
      exact ⟨slacks, hrow, fun t ht => ⟨by have := (hslacks t ht).1; omega, (hslacks t ht).2⟩⟩

/-! ## The problem -/

section Problem

variable {m : Model (Exact F)} (x : List (Exact F))

/-- Number of columns of the phase-one problem of a model. -/
def width (m : Model (Exact F)) (x : List (Exact F)) : Nat :=
  (addSlacks m.columns.length ((m.formAt x).rows.zip (m.formAt x).relations)).2

theorem columns_formAt : (m.formAt x).columns = m.columns.length := by
  simp [StandardForm.columns, Model.formAt]

theorem zip_formAt : (m.formAt x).rows.zip (m.formAt x).relations =
    m.rows.map fun r => (r.expr.terms, r.relation) := by
  simp [Model.formAt, List.zip_map']

theorem le_width : m.columns.length ≤ width m x := (addSlacks_spec _ _).1

theorem cost_problem : (problem (m.formAt x)).cost =
    Scalar.zeros m.columns.length ++ List.replicate (width m x - m.columns.length) 1 := by
  simp only [problem, columns_formAt, width]

theorem length_cost_problem : (problem (m.formAt x)).cost.length = width m x := by
  have h := le_width (m := m) x
  rw [cost_problem, Exact.zeros_eq]
  simp
  omega

theorem rows_problem : (problem (m.formAt x)).rows =
    (addSlacks m.columns.length (m.rows.map fun r => (r.expr.terms, r.relation))).1 := by
  simp only [problem, columns_formAt, zip_formAt]

theorem length_rows_problem : (problem (m.formAt x)).rows.length = m.rows.length := by
  rw [rows_problem, (addSlacks_spec _ _).2.1, List.length_map]

theorem problem_hasRelations : (problem (m.formAt x)).HasRelations (m.rows.map (·.relation))
    (m.rows.map fun r => r.bound - r.expr.constant) where
  limits := rfl
  rightHandSide := rfl
  relations_length := by rw [length_rows_problem, List.length_map]
  rightHandSide_length := by rw [length_rows_problem, List.length_map]

/-- A row with its slacks. -/
theorem exists_row {i : Nat} (hi : i < m.rows.length) : ∃ slacks : SparseRow (Exact F),
    (problem (m.formAt x)).rows.getD i [] = m.rows[i].expr.terms ++ slacks ∧
      ∀ t ∈ slacks, m.columns.length ≤ t.1 ∧ t.1 < width m x := by
  obtain ⟨slacks, hrow, hslacks⟩ := (addSlacks_spec m.columns.length
    (m.rows.map fun r => (r.expr.terms, r.relation))).2.2 i (by simpa using hi)
  rw [← rows_problem x] at hrow
  refine ⟨slacks, by simpa using hrow, ?_⟩
  rw [width, zip_formAt]
  exact hslacks

theorem problem_regular (hm : m.Proper) : (problem (m.formAt x)).Regular := by
  refine (problem_hasRelations x).regular ?_
  intro r hr
  obtain ⟨i, hi, rfl⟩ := List.getElem_of_mem hr
  have hi' : i < m.rows.length := length_rows_problem (m := m) x ▸ hi
  obtain ⟨slacks, hrow, hslacks⟩ := exists_row x hi'
  rw [List.getD_eq_getElem _ _ hi] at hrow
  rw [length_cost_problem, hrow]
  intro t ht
  rcases List.mem_append.1 ht with ht | ht
  · exact ((hm.rows _ (List.getElem_mem hi')).within t ht).trans_le (le_width x)
  · exact (hslacks t ht).2

/-- Where the slacks are zero the rows are those of the model. -/
theorem rowAt_problem {v : Nat → F} (hv : ∀ j, m.columns.length ≤ j → v j = 0)
    {i : Nat} (hi : i < m.rows.length) :
    (problem (m.formAt x)).rowAt i v = SparseRow.valueAt m.rows[i].expr.terms v := by
  obtain ⟨slacks, hrow, hslacks⟩ := exists_row x hi
  have hzero : SparseRow.valueAt slacks v = 0 := by
    apply List.sum_eq_zero
    intro a ha
    obtain ⟨t, ht, rfl⟩ := List.mem_map.1 ha
    rw [hv t.1 (hslacks t ht).1, mul_zero]
  rw [LinearProgram.rowAt, hrow, SparseRow.valueAt_append, hzero, add_zero]

/-- Where the slacks are zero nothing is paid. -/
theorem cost_problem_eq_zero {v : Nat → F} (hv : ∀ j, m.columns.length ≤ j → v j = 0) :
    costAt (problem (m.formAt x)).cost v = 0 := by
  rw [cost_problem, costAt_append, costAt_zeros, zero_add]
  apply Finset.sum_eq_zero
  intro j _
  beta_reduce
  have hj : v ((Scalar.zeros m.columns.length : List (Exact F)).length + j) = 0 :=
    hv _ (by rw [Exact.zeros_eq]; simp)
  rw [hj, mul_zero]

theorem lower_problem : (problem (m.formAt x)).lower =
    (m.formAt x).lower ++ Scalar.zeros (width m x - m.columns.length) := by
  simp only [problem, columns_formAt, width]

theorem upper_problem : (problem (m.formAt x)).upper = (m.formAt x).upper ++
    List.replicate (width m x - m.columns.length) Scalar.infinity := by
  simp only [problem, columns_formAt, width]

/-- The bounds of a column of the model. -/
theorem bounds_problem {j : Nat} (hj : j < m.columns.length) :
    (problem (m.formAt x)).lower.getD j .undefined = (m.formAt x).lower.getD j .undefined ∧
      (problem (m.formAt x)).upper.getD j .undefined =
        (m.formAt x).upper.getD j .undefined := by
  rw [lower_problem, upper_problem]
  exact ⟨List.getD_append _ _ _ _ (by simpa [Model.formAt] using hj),
    List.getD_append _ _ _ _ (by simpa [Model.formAt] using hj)⟩

/-- The bounds of a slack. -/
theorem bounds_slack {j : Nat} (hj : m.columns.length ≤ j) (hlast : j < width m x) :
    (problem (m.formAt x)).lower.getD j .undefined = .finite 0 ∧
      (problem (m.formAt x)).upper.getD j .undefined = .plusInfinity := by
  have hlength : (m.formAt x).lower.length = m.columns.length ∧
      (m.formAt x).upper.length = m.columns.length := by simp [Model.formAt]
  rw [lower_problem, upper_problem, List.getD_append_right _ _ _ _ (hlength.1.trans_le hj),
    List.getD_append_right _ _ _ _ (hlength.2.trans_le hj), hlength.1, hlength.2,
    List.getD_eq_getElem?_getD, List.getD_eq_getElem?_getD, Scalar.zeros,
    List.getElem?_replicate_of_lt (by omega), List.getElem?_replicate_of_lt (by omega)]
  exact ⟨rfl, rfl⟩

theorem crossed_problem (hm : m.Proper) {x : List (Exact F)} (hx : m.Suits x) :
    LinearProgram.crossed (problem (m.formAt x)).lower (problem (m.formAt x)).upper = [] := by
  apply LinearProgram.crossed_eq_nil
  intro j hj
  by_cases h : j < m.columns.length
  · rw [(bounds_problem x h).1, (bounds_problem x h).2]
    exact Model.uncrossed_formAt hm hx h
  · have hlast : j < width m x := by
      rw [lower_problem, List.length_append] at hj
      simp [Model.formAt, Scalar.zeros] at hj
      omega
    rw [(bounds_slack x (not_lt.1 h) hlast).1, (bounds_slack x (not_lt.1 h) hlast).2]
    rfl

end Problem

/-! ## The value at other decisions -/

/-- A point of the model with slacks of zero. -/
def withoutSlack (n : Nat) (v : Nat → F) (j : Nat) : F := if j < n then v j else 0

variable {m : Model (Exact F)} {x : List (Exact F)} {x' v : Nat → F}

theorem withoutSlack_of_le (n : Nat) (v : Nat → F) {j : Nat} (hj : n ≤ j) :
    withoutSlack n v j = 0 := if_neg (not_lt.2 hj)

theorem rowHolds_withoutSlack (hm : m.Proper) (hv : m.Fits x' v) {i : Nat}
    (hi : i < m.rows.length) :
    (problem (m.formAt x)).RowHolds i (withoutSlack m.columns.length v) := by
  have hvalue : SparseRow.valueAt m.rows[i].expr.terms (withoutSlack m.columns.length v) =
      SparseRow.valueAt m.rows[i].expr.terms v :=
    SparseRow.valueAt_congr fun t ht =>
      if_pos ((hm.rows _ (List.getElem_mem hi)).within t ht)
  refine (Model.rowHolds_iff_holds (problem_hasRelations x) hm.isKnown
    ((length_rows_problem (m := m) x).symm ▸ hi)
    (rowAt_problem x (fun _ => withoutSlack_of_le _ _) hi)
    (by simp [List.getD_eq_getElem?_getD, hi])
    (by simp [List.getD_eq_getElem?_getD, hi, Row.side])).2 ?_
  have hrow := hv.rows _ (List.getElem_mem hi)
  rw [Row.Holds] at hrow ⊢
  rwa [hvalue]

/-- What the reduced costs charge for a move to a point without slack is at least what
they charge for the change of the decision. -/
theorem charge_ge (hm : m.Proper) (hx : m.Suits x) {r : SolveResult (Exact F)}
    (h : r.Certifies (problem (m.formAt x))) (hv : m.Fits x' v) :
    ∑ j ∈ Finset.range (width m x),
        coord r.costs j * m.spread (fun k => x' k - coord x k) j ≤
      ∑ j ∈ Finset.range (width m x),
        coord r.costs j * (withoutSlack m.columns.length v j - coord r.point j) := by
  apply Finset.sum_le_sum
  intro j hj
  have hj : j < width m x := Finset.mem_range.1 hj
  have hcost : j < (problem (m.formAt x)).cost.length := (length_cost_problem (m := m) x).symm ▸ hj
  -- A placeholder moves with the decision, a column of the model is charged for its own move, and a
  -- slack drops to zero.
  by_cases hcolumn : j < m.columns.length
  · have hnew := hv.columns _ (List.getElem_mem hcolumn)
    rw [hm.numbered j hcolumn] at hnew
    have hbounds := bounds_problem (m := m) x hcolumn
    have hold : (m.formAt x).toProgram.ColumnHolds j (coord r.point) := by
      have hold := h.feasible.columns j hcost
      rwa [LinearProgram.ColumnHolds, hbounds.1, hbounds.2] at hold
    rw [withoutSlack, if_pos hcolumn]
    cases hd : m.columns[j].decision with
    | some k =>
      rw [Model.columnHolds_formAt_iff hx hcolumn, Model.Admits, hd] at hold
      rw [Model.Admits, hd] at hnew
      rw [Model.spread_of_decision hm _ hcolumn hd, hnew, hold]
    | none =>
      rw [Model.spread_of_own hm _ hcolumn hd, mul_zero]
      refine h.charge_nonneg hcost (v := v) ?_
      rw [LinearProgram.ColumnHolds, hbounds.1, hbounds.2]
      refine (Model.columnHolds_formAt_iff hx hcolumn v).2 ?_
      rw [Model.Admits, hd] at hnew ⊢
      exact hnew
  · have hslack := bounds_slack (m := m) x (not_lt.1 hcolumn) hj
    rw [Model.spread_of_le hm _ (not_lt.1 hcolumn), mul_zero]
    refine h.charge_nonneg hcost ?_
    rw [LinearProgram.ColumnHolds, hslack.1, hslack.2, withoutSlack_of_le _ _ (not_lt.1 hcolumn)]
    exact ⟨(Exact.respectsLower_finite _ _).2 (le_refl _), by simp [Exact.RespectsUpper]⟩

/-- The value of phase one, extended by its slope, is at most zero wherever something
fits. -/
theorem value_le (hm : m.Proper) (hx : m.Suits x) {r : SolveResult (Exact F)}
    (h : r.Certifies (problem (m.formAt x))) {g : List (Exact F)}
    (hg : ∀ w : Nat → F, costAt g w = -∑ i ∈ Finset.range m.rows.length, coord r.duals i *
      SparseRow.valueAt (m.rows.getD i default).expr.terms (m.spread w))
    (hv : m.Fits x' v) :
    costAt (problem (m.formAt x)).cost (coord r.point) +
      costAt g (fun k => x' k - coord x k) ≤ 0 := by
  set w : Nat → F := fun k => x' k - coord x k with hw
  have hspread : ∀ j, m.columns.length ≤ j → m.spread w j = 0 := fun _ => Model.spread_of_le hm w
  have hrows : ∑ i ∈ Finset.range m.rows.length,
      coord r.duals i * (problem (m.formAt x)).rowAt i (m.spread w) =
      ∑ i ∈ Finset.range m.rows.length, coord r.duals i *
        SparseRow.valueAt (m.rows.getD i default).expr.terms (m.spread w) := by
    apply Finset.sum_congr rfl
    intro i hi
    have hi := Finset.mem_range.1 hi
    rw [rowAt_problem x hspread hi, List.getD_eq_getElem _ _ hi]
  have hstationary := h.stationary (m.spread w)
  have hcost := h.cost_ge fun i hi =>
    rowHolds_withoutSlack hm hv (length_rows_problem (m := m) x ▸ hi)
  have hcharge := charge_ge hm hx h hv
  rw [cost_problem_eq_zero x hspread, length_rows_problem, length_cost_problem, hrows]
    at hstationary
  rw [cost_problem_eq_zero x fun _ => withoutSlack_of_le _ _, length_cost_problem] at hcost
  calc costAt (problem (m.formAt x)).cost (coord r.point) + costAt g w
      = costAt (problem (m.formAt x)).cost (coord r.point) +
          ∑ j ∈ Finset.range (width m x), coord r.costs j * m.spread w j := by
        rw [hg w, neg_eq_of_add_eq_zero_right hstationary.symm]
    _ ≤ costAt (problem (m.formAt x)).cost (coord r.point) + ∑ j ∈ Finset.range (width m x),
          coord r.costs j * (withoutSlack m.columns.length v j - coord r.point j) := by gcongr
    _ ≤ 0 := hcost

end PhaseOne

/-- Phase one gives numbers: a value and a slope that are together at most zero wherever
something fits the model.  It is never refused for crossed bounds. -/
theorem Model.phaseOne_ensures {σ : Type} [Host σ (Exact F)] (host : Host.Sound σ F)
    {m : Model (Exact F)} (hm : m.Proper) {x : List (Exact F)} (hx : AllFinite x)
    (hlength : m.decisionCount = 0 ∨ m.decisionCount = x.length) (params : Setting (Exact F)) :
    (m.phaseOne x x.length params : Act σ (Exact F) _).Ensures
      (fun found => Scalar.isFinite found.1 = true ∧ found.2.length = x.length ∧
        AllFinite found.2 ∧ ∀ x' v : Nat → F, m.Fits x' v →
          found.1.value + costAt found.2 (fun k => x' k - coord x k) ≤ 0)
      (fun f => ¬ f.IsCrossed) := by
  have hsuits := suits_of_length hx hlength
  unfold Model.phaseOne
  rw [standardForm_some hm hlength]
  refine Act.ensures_bind (Act.ensures_pure ?_)
  refine Act.ensures_bind ((LinearProgram.solve_ensures host
    (PhaseOne.problem_regular x hm) params).mono ?_
    fun f hf hcrossed => hf hcrossed (PhaseOne.crossed_problem hm hsuits))
  intro r hr
  by_cases hs : r.status = .optimal
  · have hcertifies : r.Certifies (PhaseOne.problem (m.formAt x)) := by
      unfold SolveResult.Answers at hr
      rwa [hs] at hr
    simp only [hs, ne_eq, not_true, if_false]
    have hrows : r.duals.length = m.rows.length :=
      hcertifies.duals_length.trans (PhaseOne.length_rows_problem x)
    have hzeros : (Scalar.zeros x.length : List (Exact F)).length = x.length := by
      simp [Scalar.zeros]
    refine Act.ensures_bind (Act.ensures_lift ((subtractDuals_settles hm hcertifies.duals_finite
      hrows (allFinite_zeros x.length) (by rwa [hzeros])).mono ?_ fun _ => False.elim))
    intro g hg
    refine Act.ensures_pure ⟨?_, hg.1.trans hzeros, hg.2.1, ?_⟩
    · rw [hcertifies.objective]
      exact Exact.isFinite_finite _
    · intro x' v hv
      rw [hcertifies.objective]
      refine PhaseOne.value_le hm hsuits hcertifies ?_ hv
      intro w
      rw [hg.2.2 w, costAt_zeros, zero_sub]
  · simp only [hs, ne_eq, not_false_iff, if_true]
    refine Act.ensures_bind (Act.ensures_fail ?_)
    rintro ⟨_, h⟩
    cases h

end Recourse
