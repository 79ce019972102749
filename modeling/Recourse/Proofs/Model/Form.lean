/-
  Proofs/Model/Form.lean --- a model and its matrix form mean the same.

  A proper model always has a matrix form (`standardForm_eq`), whose feasible points
  are those that fit the model at the decision (`feasible_formAt_iff`) and whose cost
  is the objective turned into minimization.  `Model.Reports` is what a backend's
  result says about a model, and `optimize_ensures` says that every result of a
  backend on a sound engine says so truly.
-/
import Recourse.Proofs.Linear.Duality
import Recourse.Proofs.Model.Meaning
import Recourse.Solver.Backend

set_option autoImplicit false
set_option linter.unusedSectionVars false

namespace Recourse

variable {F : Type} [Field F] [LinearOrder F] [IsStrictOrderedRing F] [FloorRing F]

/-! ## Programs whose rows have relations -/

namespace LinearProgram

theorem holds_iff_of_limitsOf {r : Relation} {b : Exact F} {l : Exact F × Exact F}
    (h : limitsOf r b = .ok l) (a : F) :
    r.Holds a b ↔ l.1.RespectsLower a ∧ l.2.RespectsUpper a := by
  unfold limitsOf at h
  unfold Relation.Holds
  split at h <;> cases h <;> simp_all [Exact.RespectsLower, Exact.RespectsUpper]

theorem not_isKnown_of_limitsOf {r : Relation} {b : Exact F} {f : Fault (Exact F)}
    (h : limitsOf r b = .error f) : ¬ r.IsKnown ∧ ¬ f.IsCrossed := by
  unfold limitsOf at h
  unfold Relation.IsKnown
  split at h <;> cases h
  refine ⟨by simp_all, ?_⟩
  rintro ⟨_, h⟩
  cases h

/-- The limits of a row are those its relation and its right-hand side give. -/
theorem limitsOfAll_settles (relations : List Relation) (b : List (Exact F))
    (h : b.length = relations.length) :
    Settles (limitsOfAll relations b)
      (fun l => l.length = relations.length ∧ ∀ i < relations.length,
        limitsOf (relations.getD i .equal) (b.getD i .undefined) =
          .ok ((l.map (·.1)).getD i .undefined, (l.map (·.2)).getD i .undefined))
      (fun f => (∃ r ∈ relations, ¬ r.IsKnown) ∧ ¬ f.IsCrossed) := by
  induction relations generalizing b with
  | nil => exact ⟨rfl, fun i hi => absurd hi (Nat.not_lt_zero i)⟩
  | cons r relations ih =>
    obtain ⟨x, b, rfl⟩ := List.exists_cons_of_length_eq_add_one h
    have hrow : Settles (limitsOf r x) (fun l => limitsOf r x = .ok l)
        (fun f => (∃ s ∈ r :: relations, ¬ s.IsKnown) ∧ ¬ f.IsCrossed) := by
      cases hr : limitsOf r x with
      | ok l => rfl
      | error f =>
        exact ⟨⟨r, List.mem_cons_self, (not_isKnown_of_limitsOf hr).1⟩,
          (not_isKnown_of_limitsOf hr).2⟩
    refine Settles.bind (hrow.mono ?_ fun _ => id)
    intro l hl
    refine Settles.bind ((ih b (Nat.succ.inj h)).mono ?_
      fun f ⟨⟨s, hs, hknown⟩, hf⟩ => ⟨⟨s, List.mem_cons_of_mem _ hs, hknown⟩, hf⟩)
    intro ls hls
    refine ⟨by simp [hls.1], ?_⟩
    intro i hi
    cases i with
    | zero => simpa using hl
    | succ i => simpa using hls.2 i (Nat.lt_of_succ_lt_succ hi)

/-- Limits that a relation gives and that count as equal are equal. -/
theorem crisp_limitsOf {r : Relation} {b : Exact F} {l : Exact F × Exact F}
    (h : limitsOf r b = .ok l) (ha : RowSplit.agree l.1 l.2 = true) : l.1 = l.2 := by
  obtain ⟨x, y, hx, hy⟩ := RowSplit.agree_finite ha
  unfold limitsOf at h
  split at h <;> cases h
  · rfl
  · rfl
  · cases hx
  · cases hx
  · cases hy
  · cases hy

/-- A program whose rows are related to a right-hand side. -/
structure HasRelations (p : LinearProgram (Exact F)) (relations : List Relation)
    (b : List (Exact F)) : Prop where
  /-- Its rows have these relations. -/
  limits : p.limits = .senses relations
  /-- They are related to these numbers. -/
  rightHandSide : p.rightHandSide = some b
  /-- There is one relation per row. -/
  relations_length : relations.length = p.rows.length
  /-- There is one number per row. -/
  rightHandSide_length : b.length = p.rows.length

variable {p : LinearProgram (Exact F)} {relations : List Relation} {b : List (Exact F)}

theorem HasRelations.rowLimits_settles (hp : p.HasRelations relations b) :
    Settles p.rowLimits
      (fun l => l.1.length = p.rows.length ∧ l.2.length = p.rows.length ∧
        ∀ i < p.rows.length, limitsOf (relations.getD i .equal) (b.getD i .undefined) =
          .ok (l.1.getD i .undefined, l.2.getD i .undefined))
      (fun f => (∃ r ∈ relations, ¬ r.IsKnown) ∧ ¬ f.IsCrossed) := by
  unfold rowLimits
  rw [hp.limits, hp.rightHandSide]
  simp only [hp.relations_length, ne_eq, not_true, if_false]
  have hall := limitsOfAll_settles relations b
    (hp.rightHandSide_length.trans hp.relations_length.symm)
  cases hl : limitsOfAll relations b with
  | error f => exact hall.of_error hl
  | ok l =>
    have hall := hall.of_ok hl
    rw [hp.relations_length] at hall
    have hunzip : l.unzip = (l.map (·.1), l.map (·.2)) := List.unzip_eq_map
    show _ ∧ _
    rw [hunzip]
    exact ⟨by simp [hall.1], by simp [hall.1], hall.2⟩

/-- A program whose rows have relations is regular. -/
theorem HasRelations.regular (hp : p.HasRelations relations b)
    (hwithin : ∀ r ∈ p.rows, r.Within p.cost.length) : p.Regular :=
  ⟨hwithin, hp.rowLimits_settles.mono
    (fun _ hl => ⟨hl.1, hl.2.1, fun i hi ha => crisp_limitsOf (hl.2.2 i hi) ha⟩) fun _ hf => hf.2⟩

/-- The limits of a row are those its relation and its right-hand side give. -/
theorem HasRelations.limitsOf_eq (hp : p.HasRelations relations b)
    (hknown : ∀ r ∈ relations, r.IsKnown) {i : Nat} (hi : i < p.rows.length) :
    limitsOf (relations.getD i .equal) (b.getD i .undefined) =
      .ok (p.lowerLimit i, p.upperLimit i) := by
  have hlimits := hp.rowLimits_settles
  unfold lowerLimit upperLimit
  cases hl : p.rowLimits with
  | error f =>
    obtain ⟨⟨r, hr, hnot⟩, -⟩ := hlimits.of_error hl
    exact absurd (hknown r hr) hnot
  | ok l => exact (hlimits.of_ok hl).2.2 i hi

/-- A row with a known relation holds as it stands in the program. -/
theorem HasRelations.rowHolds_iff (hp : p.HasRelations relations b)
    (hknown : ∀ r ∈ relations, r.IsKnown) {i : Nat} (hi : i < p.rows.length) (v : Nat → F) :
    p.RowHolds i v ↔ (relations.getD i .equal).Holds (p.rowAt i v) (b.getD i .undefined) :=
  (holds_iff_of_limitsOf (hp.limitsOf_eq hknown hi) _).symm

theorem getD_eq_of_take_eq {α : Type} {xs ys : List α} {n i : Nat} (h : xs.take n = ys)
    (hi : i < n) (default : α) : xs.getD i default = ys.getD i default := by
  rw [← h, List.getD_eq_getElem?_getD, List.getD_eq_getElem?_getD, List.getElem?_take_of_lt hi]

/-- A program that begins with the rows, the relations, the right-hand side and the bounds
of another one. -/
theorem HasRelations.extends {q : LinearProgram (Exact F)} {relations' : List Relation}
    {b' : List (Exact F)} (hp : p.HasRelations relations b) (hq : q.HasRelations relations' b')
    (hknown : ∀ r ∈ relations, r.IsKnown) (hrows : p.rows.take q.rows.length = q.rows)
    (hrelations : relations.take q.rows.length = relations')
    (hright : b.take q.rows.length = b') (hcolumns : q.cost.length ≤ p.cost.length)
    (hlower : p.lower.take q.cost.length = q.lower)
    (hupper : p.upper.take q.cost.length = q.upper) : p.Extends q := by
  have hle : q.rows.length ≤ p.rows.length := by
    have hlength := congrArg List.length hrows
    rw [List.length_take] at hlength
    omega
  have hknown' : ∀ r ∈ relations', r.IsKnown := fun r hr =>
    hknown r (List.mem_of_mem_take (hrelations.symm ▸ hr))
  refine ⟨hle, hcolumns, fun i hi => ?_, fun j hj => ?_⟩
  · have hlimits := hp.limitsOf_eq hknown (hi.trans_le hle)
    rw [getD_eq_of_take_eq hrelations hi, getD_eq_of_take_eq hright hi,
      hq.limitsOf_eq hknown' hi] at hlimits
    injection hlimits with hlimits
    injection hlimits with hlow hup
    rw [rowBand, rowBand, getD_eq_of_take_eq hrows hi, hlow, hup]
  · rw [columnBand, columnBand, getD_eq_of_take_eq hlower hj, getD_eq_of_take_eq hupper hj]

end LinearProgram

/-! ## Models that have a matrix form -/

namespace Model

section Read

variable {K : Type} [Scalar K] {m : Model K} {d : Option (List K)}

theorem isAligned_of_index (h : ∀ i (hi : i < m.rows.length), m.rows[i].index = (i : Int)) :
    m.isAligned = true := by
  unfold Model.isAligned
  rw [List.all_eq_true]
  rintro ⟨r, i⟩ hr
  obtain ⟨hi, rfl⟩ := List.mk_mem_zipIdx_iff_getElem?.1 hr |> List.getElem?_eq_some_iff.1
  simpa using h i hi

/-- The decision of a model is the one that is given, else the one that is stored, and there is
one entry for every placeholder. -/
theorem decisionFor_eq_ok {y : List K} (h : m.decisionFor d = .ok y) (hm : m.decisionCount ≠ 0) :
    d.or m.fixed = some y ∧ y.length = m.decisionCount := by
  unfold decisionFor at h
  rw [if_neg hm] at h
  split at h
  · cases h
  · rename_i z hz
    obtain ⟨_, hcheck, hy⟩ := bind_eq_ok_iff.1 h
    cases hy
    unfold checkDecision at hcheck
    split at hcheck
    · exact ⟨hz, ‹_›⟩
    · cases hcheck

/-- A matrix form is read off the model, with the bounds of its columns at the decision. -/
theorem standardForm_eq_ok {form : StandardForm K} (h : m.standardForm d = .ok form) :
    (∀ t ∈ m.objective.terms, t.1 < m.columns.length) ∧
      ∃ y, m.decisionFor d = .ok y ∧ form =
        { cost := (List.range m.columns.length).map m.objective.coefficient
          rows := m.matrix
          rightHandSide := m.rows.map fun r => r.bound - r.expr.constant
          relations := m.rows.map (·.relation)
          lower := m.columns.map fun v => (boundsAt y v).1
          upper := m.columns.map fun v => (boundsAt y v).2
          constant := m.objective.constant
          goal := m.goal } := by
  unfold standardForm at h
  dsimp only at h
  split at h
  · cases h
  rename_i hobjective
  obtain ⟨y, hy, h⟩ := bind_eq_ok_iff.1 h
  split at h
  · cases h
  cases h
  refine ⟨fun t ht => ?_, y, hy, rfl⟩
  by_contra hout
  exact hobjective (List.any_eq_true.2 ⟨t, ht, decide_eq_true (not_lt.1 hout)⟩)

end Read

end Model

/-! ## The matrix form of a proper model -/

namespace Model

variable {m : Model (Exact F)}

/-- The matrix form of a proper model at a decision. -/
def formAt (m : Model (Exact F)) (x : List (Exact F)) : StandardForm (Exact F) where
  cost := (List.range m.columns.length).map m.objective.coefficient
  rows := m.rows.map (·.expr.terms)
  rightHandSide := m.rows.map fun r => r.bound - r.expr.constant
  relations := m.rows.map (·.relation)
  lower := m.columns.map fun c => (boundsAt x c).1
  upper := m.columns.map fun c => (boundsAt x c).2
  constant := m.objective.constant
  goal := m.goal

theorem any_outside {n : Nat} {terms : Table Nat (Exact F)} (h : SparseRow.Within terms n) :
    (terms.any fun t => decide (n ≤ t.1)) = false := by
  rw [List.any_eq_false]
  exact fun t ht => by simpa using h t ht

/-- A model whose rows stand in their places and that mentions its own columns only has a
matrix form whenever its placeholders can be fixed. -/
theorem standardForm_of_aligned
    (haligned : ∀ i (hi : i < m.rows.length), m.rows[i].index = (i : Int))
    (hobjective : SparseRow.Within m.objective.terms m.columns.length)
    (hrows : ∀ r ∈ m.rows, SparseRow.Within r.expr.terms m.columns.length)
    (decision : Option (List (Exact F))) :
    m.standardForm decision = (m.decisionFor decision).map m.formAt := by
  have hobjective : (m.objective.terms.any fun t => decide (m.variableCount ≤ t.1)) = false :=
    any_outside hobjective
  have hrows : (m.rows.any fun r => r.expr.terms.any fun t => decide (m.variableCount ≤ t.1))
      = false := by
    rw [List.any_eq_false]
    intro r hr
    have hr : (r.expr.terms.any fun t => decide (m.variableCount ≤ t.1)) = false :=
      any_outside (hrows r hr)
    simp [hr]
  unfold standardForm
  simp only [hobjective, hrows, bind, Except.bind, pure, Except.pure]
  cases m.decisionFor decision with
  | error f => rfl
  | ok x => simp [Except.map, formAt, matrix, isAligned_of_index haligned, variableCount]

/-- A proper model always has a matrix form whenever its placeholders can be fixed. -/
theorem standardForm_eq (hm : m.Proper) (decision : Option (List (Exact F))) :
    m.standardForm decision = (m.decisionFor decision).map m.formAt :=
  standardForm_of_aligned hm.aligned hm.objective.within (fun r hr => (hm.rows r hr).within)
    decision

/-- A decision that suits a model: one number per placeholder or more. -/
structure Suits (m : Model (Exact F)) (x : List (Exact F)) : Prop where
  /-- It is made of numbers. -/
  finite : AllFinite x
  /-- There is one for every placeholder. -/
  length : m.decisionCount ≤ x.length

section Form

variable {x : List (Exact F)}

theorem formAt_hasRelations (m : Model (Exact F)) (x : List (Exact F)) :
    (m.formAt x).toProgram.HasRelations (m.rows.map (·.relation))
      (m.rows.map fun r => r.bound - r.expr.constant) where
  limits := rfl
  rightHandSide := rfl
  relations_length := by simp [StandardForm.toProgram, formAt]
  rightHandSide_length := by simp [StandardForm.toProgram, formAt]

theorem length_cost_formAt (m : Model (Exact F)) (x : List (Exact F)) :
    (m.formAt x).toProgram.cost.length = m.columns.length := by
  simp [StandardForm.toProgram, formAt, Scalar.scale]

theorem length_rows_formAt (m : Model (Exact F)) (x : List (Exact F)) :
    (m.formAt x).toProgram.rows.length = m.rows.length := by
  simp [StandardForm.toProgram, formAt]

theorem formAt_regular (hm : m.Proper) (x : List (Exact F)) : (m.formAt x).toProgram.Regular := by
  refine (formAt_hasRelations m x).regular ?_
  intro r hr
  obtain ⟨row, hrow, rfl⟩ := List.mem_map.1 hr
  rw [length_cost_formAt]
  exact (hm.rows row hrow).within

theorem rowAt_formAt (m : Model (Exact F)) (x : List (Exact F)) {i : Nat}
    (hi : i < m.rows.length) (v : Nat → F) :
    (m.formAt x).toProgram.rowAt i v = SparseRow.valueAt m.rows[i].expr.terms v := by
  simp [LinearProgram.rowAt, StandardForm.toProgram, formAt, List.getD_eq_getElem?_getD, hi]

/-- A row of a program that has the terms, the relation and the bound of a row of a
model holds where that one does. -/
theorem rowHolds_iff_holds {p : LinearProgram (Exact F)} {relations : List Relation}
    {b : List (Exact F)} (hp : p.HasRelations relations b) (hknown : ∀ r ∈ relations, r.IsKnown)
    {r : Row (Exact F)} {i : Nat} (hi : i < p.rows.length) {v : Nat → F}
    (hrow : p.rowAt i v = SparseRow.valueAt r.expr.terms v)
    (hrelation : relations.getD i .equal = r.relation) (hbound : b.getD i .undefined = r.side) :
    p.RowHolds i v ↔ r.Holds v := by
  rw [hp.rowHolds_iff hknown hi, hrow, hrelation, hbound, Row.Holds]

theorem Proper.isKnown (hm : m.Proper) : ∀ r ∈ m.rows.map (·.relation), r.IsKnown := by
  intro r hr
  obtain ⟨row, hrow, rfl⟩ := List.mem_map.1 hr
  exact hm.relations row hrow

theorem rowHolds_formAt_iff (hm : m.Proper) (x : List (Exact F)) {i : Nat}
    (hi : i < m.rows.length) (v : Nat → F) :
    (m.formAt x).toProgram.RowHolds i v ↔ m.rows[i].Holds v :=
  rowHolds_iff_holds (formAt_hasRelations m x) hm.isKnown
    ((length_rows_formAt m x).symm ▸ hi) (rowAt_formAt m x hi v)
    (by simp [List.getD_eq_getElem?_getD, hi])
    (by simp [List.getD_eq_getElem?_getD, hi, Row.side])

theorem columnHolds_formAt_iff (hx : m.Suits x) {j : Nat} (hj : j < m.columns.length)
    (v : Nat → F) :
    (m.formAt x).toProgram.ColumnHolds j v ↔ Admits (coord x) m.columns[j] (v j) := by
  have hlower : (m.formAt x).toProgram.lower.getD j .undefined = (boundsAt x m.columns[j]).1 := by
    simp [StandardForm.toProgram, formAt, List.getD_eq_getElem?_getD, hj]
  have hupper : (m.formAt x).toProgram.upper.getD j .undefined = (boundsAt x m.columns[j]).2 := by
    simp [StandardForm.toProgram, formAt, List.getD_eq_getElem?_getD, hj]
  rw [LinearProgram.ColumnHolds, hlower, hupper, Admits, boundsAt]
  cases hd : m.columns[j].decision with
  | none => rfl
  | some k =>
    simp only [hx.finite.getD_zero, Exact.respectsLower_finite, Exact.respectsUpper_finite]
    exact ⟨fun h => le_antisymm h.2 h.1, fun h => ⟨h.ge, h.le⟩⟩

/-- The feasible points of the matrix form are those that fit the model. -/
theorem feasible_formAt_iff (hm : m.Proper) (hx : m.Suits x) (v : Nat → F) :
    (m.formAt x).toProgram.Feasible v ↔ m.Fits (coord x) v := by
  constructor
  · intro h
    constructor
    · intro r hr
      obtain ⟨i, hi, rfl⟩ := List.getElem_of_mem hr
      exact (rowHolds_formAt_iff hm x hi v).1 (h.rows i ((length_rows_formAt m x).symm ▸ hi))
    · intro c hc
      obtain ⟨j, hj, rfl⟩ := List.getElem_of_mem hc
      rw [hm.numbered j hj]
      exact (columnHolds_formAt_iff hx hj v).1
        (h.columns j ((length_cost_formAt m x).symm ▸ hj))
  · intro h
    constructor
    · intro i hi
      have hi : i < m.rows.length := length_rows_formAt m x ▸ hi
      exact (rowHolds_formAt_iff hm x hi v).2 (h.rows _ (List.getElem_mem hi))
    · intro j hj
      have hj : j < m.columns.length := length_cost_formAt m x ▸ hj
      have hadmits := h.columns _ (List.getElem_mem hj)
      rw [hm.numbered j hj] at hadmits
      exact (columnHolds_formAt_iff hx hj v).2 hadmits

theorem allFinite_cost (hm : m.Proper) (x : List (Exact F)) : AllFinite (m.formAt x).cost := by
  intro a ha
  obtain ⟨j, -, rfl⟩ := List.mem_map.1 ha
  exact LinearExpr.isFinite_coefficient hm.objective j

/-- The cost of the matrix form is the objective turned into minimization, less its
constant. -/
theorem costAt_formAt (hm : m.Proper) (x : List (Exact F)) (v : Nat → F) :
    costAt (m.formAt x).toProgram.cost v =
      m.lossAt v - m.goal.factor * m.objective.constant.value := by
  have hsign : (m.formAt x).sign = .finite m.goal.factor := m.goal.sign_eq
  rw [StandardForm.toProgram, hsign, costAt_scale _ (allFinite_cost hm x), formAt,
    LinearExpr.costAt_coefficients hm.objective, lossAt, objectiveAt, LinearExpr.valueAt]
  ring

end Form

/-! ## Results of a backend -/

/-- What a result says about a model at a decision: an answer to the matrix form, turned
into the sense of the objective. -/
def Reports (m : Model (Exact F)) (x : List (Exact F)) (r : SolveResult (Exact F)) : Prop :=
  ∃ answer : SolveResult (Exact F), answer.Answers (m.formAt x).toProgram ∧
    r = answer.inSense m.goal.sign m.objective.constant

namespace Reports

variable {x : List (Exact F)} {r : SolveResult (Exact F)}

/-- A result is optimal, infeasible or unbounded. -/
theorem status_cases (h : m.Reports x r) :
    r.status = .optimal ∨ r.status = .infeasible ∨ r.status = .unbounded := by
  obtain ⟨answer, hanswer, rfl⟩ := h
  have hstatus : (answer.inSense m.goal.sign m.objective.constant).status = answer.status := rfl
  rw [hstatus]
  unfold SolveResult.Answers at hanswer
  cases hs : answer.status <;> simp_all

/-- An optimal result comes from a certificate. -/
theorem certificate (h : m.Reports x r) (hs : r.status = .optimal) :
    ∃ answer : SolveResult (Exact F), answer.Certifies (m.formAt x).toProgram ∧
      r = answer.inSense m.goal.sign m.objective.constant := by
  obtain ⟨answer, hanswer, rfl⟩ := h
  have hs : answer.status = .optimal := hs
  unfold SolveResult.Answers at hanswer
  rw [hs] at hanswer
  exact ⟨answer, hanswer, rfl⟩

/-- The duals of an optimal result are numbers, one for each row. -/
theorem duals_finite (h : m.Reports x r) (hs : r.status = .optimal) :
    AllFinite r.duals ∧ r.duals.length = m.rows.length := by
  obtain ⟨answer, hanswer, rfl⟩ := h.certificate hs
  have hlength := hanswer.duals_length.trans (length_rows_formAt m x)
  simp only [SolveResult.inSense, Goal.sign_eq]
  exact ⟨hanswer.duals_finite.scale _, by simp [Scalar.scale, hlength]⟩

/-- The objective of an optimal result is that of its point. -/
theorem objective (hm : m.Proper) (h : m.Reports x r) (hs : r.status = .optimal) :
    r.objective = .finite (m.objectiveAt (coord r.point)) := by
  obtain ⟨answer, hanswer, rfl⟩ := h.certificate hs
  have hcost := costAt_formAt hm x (coord answer.point)
  simp only [SolveResult.inSense]
  rw [hanswer.objective, Goal.sign_eq, ← Exact.finite_value hm.objective.constant, hcost, lossAt]
  have hfactor := m.goal.factor_mul_self (F := F)
  simp only [Exact.finite_mul, Exact.finite_add, Exact.finite.injEq]
  linear_combination (m.objectiveAt (coord answer.point) - m.objective.constant.value) * hfactor

/-- The point of an optimal result solves the model. -/
theorem solves (hm : m.Proper) (hx : m.Suits x) (h : m.Reports x r) (hs : r.status = .optimal) :
    m.Solves (coord x) (coord r.point) := by
  obtain ⟨answer, hanswer, rfl⟩ := h.certificate hs
  refine ⟨(feasible_formAt_iff hm hx _).1 hanswer.feasible, ?_⟩
  intro w hw
  have hle := hanswer.optimal ((feasible_formAt_iff hm hx _).2 hw)
  rw [costAt_formAt hm, costAt_formAt hm] at hle
  exact (sub_le_sub_iff_right _).1 hle

/-- Nothing fits a model that is reported infeasible. -/
theorem infeasible (hm : m.Proper) (hx : m.Suits x) (h : m.Reports x r)
    (hs : r.status = .infeasible) (v : Nat → F) : ¬ m.Fits (coord x) v := by
  obtain ⟨answer, hanswer, rfl⟩ := h
  have hs : answer.status = .infeasible := hs
  unfold SolveResult.Answers at hanswer
  rw [hs] at hanswer
  exact fun hv => hanswer v ((feasible_formAt_iff hm hx v).2 hv)

/-- A model that is reported unbounded has points of any value, however good. -/
theorem unbounded (hm : m.Proper) (hx : m.Suits x) (h : m.Reports x r)
    (hs : r.status = .unbounded) : m.UnboundedAt (coord x) := by
  intro level
  obtain ⟨answer, hanswer, rfl⟩ := h
  have hs : answer.status = .unbounded := hs
  unfold SolveResult.Answers at hanswer
  rw [hs] at hanswer
  obtain ⟨v, hv, hlevel⟩ := hanswer (level - m.goal.factor * m.objective.constant.value)
  rw [costAt_formAt hm] at hlevel
  exact ⟨v, (feasible_formAt_iff hm hx v).1 hv, by linarith⟩

/-- A model without a lower bound is reported unbounded. -/
theorem status_unbounded (hm : m.Proper) (hx : m.Suits x) (h : m.Reports x r)
    (hunbounded : m.UnboundedAt (coord x)) : r.status = .unbounded := by
  obtain ⟨answer, hanswer, rfl⟩ := h
  apply hanswer.status_unbounded
  intro level
  obtain ⟨v, hv, hlevel⟩ := hunbounded (level + m.goal.factor * m.objective.constant.value)
  refine ⟨v, (feasible_formAt_iff hm hx v).2 hv, ?_⟩
  rw [costAt_formAt hm]
  linarith

end Reports

/-- A model without placeholders has the same form at every decision. -/
theorem formAt_of_decisionCount_eq_zero (h : m.decisionCount = 0) (x : List (Exact F)) :
    m.formAt x = m.formAt [] := by
  have hbounds : ∀ c ∈ m.columns, boundsAt x c = boundsAt [] c := by
    intro c hc
    have hnone : ¬ c.isDecision = true := by
      have hempty := List.eq_nil_of_length_eq_zero h
      exact List.filter_eq_nil_iff.1 hempty c hc
    have hd : c.decision = none := by simpa [Variable.isDecision] using hnone
    simp [boundsAt, hd]
  simp only [formAt, StandardForm.mk.injEq, true_and, and_true]
  exact ⟨List.map_congr_left fun c hc => by rw [hbounds c hc],
    List.map_congr_left fun c hc => by rw [hbounds c hc]⟩

/-- Fixing the placeholders of a proper model crosses no bounds. -/
theorem uncrossed_formAt (hm : m.Proper) {x : List (Exact F)} (hx : m.Suits x) {j : Nat}
    (hj : j < m.columns.length) :
    Scalar.less ((m.formAt x).upper.getD j .undefined) ((m.formAt x).lower.getD j .undefined) =
      false := by
  have hbounds : Scalar.less (boundsAt x m.columns[j]).2 (boundsAt x m.columns[j]).1 = false := by
    unfold boundsAt
    cases hd : m.columns[j].decision with
    | none => exact hm.uncrossed _ (List.getElem_mem hj)
    | some k =>
      simp only [hx.finite.getD_zero, Exact.less_finite, lt_irrefl, decide_false]
  simpa [formAt, List.getD_eq_getElem?_getD, hj] using hbounds

theorem crossed_formAt (hm : m.Proper) {x : List (Exact F)} (hx : m.Suits x) :
    LinearProgram.crossed (m.formAt x).lower (m.formAt x).upper = [] :=
  LinearProgram.crossed_eq_nil fun _ hj => uncrossed_formAt hm hx (by simpa [formAt] using hj)

/-- A proper model has its form at every decision that has one entry per placeholder. -/
theorem standardForm_some (hm : m.Proper) {x : List (Exact F)}
    (hlength : m.decisionCount = 0 ∨ m.decisionCount = x.length) :
    m.standardForm (some x) = .ok (m.formAt x) := by
  rw [standardForm_eq hm, decisionFor]
  by_cases h0 : m.decisionCount = 0
  · rw [if_pos h0, formAt_of_decisionCount_eq_zero h0 x]
    rfl
  · have hcount : x.length = m.decisionCount := (hlength.resolve_left h0).symm
    simp [h0, checkDecision, hcount, Except.map, bind, Except.bind, pure, Except.pure]

/-- A model without placeholders needs no decision. -/
theorem standardForm_none (hm : m.Proper) (h : m.decisionCount = 0) :
    m.standardForm none = .ok (m.formAt []) := by
  rw [standardForm_eq hm, decisionFor, if_pos h]
  rfl

theorem suits_of_length {x : List (Exact F)} (hx : AllFinite x)
    (hlength : m.decisionCount = 0 ∨ m.decisionCount = x.length) : m.Suits x :=
  ⟨hx, by rcases hlength with h | h <;> omega⟩

end Model

/-- A backend that hands out what was found. -/
def Backend.Faithful {σ : Type} (b : Backend σ (Exact F)) : Prop :=
  ∀ r, (b.report r).Ensures (· = r) Fault.IsBreakdown

theorem Backend.plain_faithful {σ : Type} : (Backend.plain : Backend σ (Exact F)).Faithful :=
  fun _ => Act.ensures_pure rfl

variable {σ : Type} [Host σ (Exact F)] {m : Model (Exact F)} {x : List (Exact F)}

/-- Every result of a faithful backend on a sound engine reports truly on the model,
and nothing is refused as crossed. -/
theorem Backend.optimize_ensures (host : Host.Sound σ F) {b : Backend σ (Exact F)}
    (hb : b.Faithful) (hm : m.Proper) (hx : AllFinite x)
    (hlength : m.decisionCount = 0 ∨ m.decisionCount = x.length) :
    (b.optimize m (some x)).Ensures (m.Reports x) (fun f => ¬ f.IsCrossed) := by
  have hsuits := Model.suits_of_length hx hlength
  have hform := Model.standardForm_some hm hlength
  unfold Backend.optimize
  rw [hform]
  refine Act.ensures_bind (Act.ensures_pure ?_)
  refine Act.ensures_bind ((LinearProgram.solve_ensures host (Model.formAt_regular hm x)
    b.params).mono ?_ ?_)
  · intro answer hanswer
    refine (hb _).mono ?_ fun f hf => LinearProgram.not_isCrossed_of_isBreakdown hf
    intro r hr
    exact ⟨answer, hanswer, hr⟩
  · intro f hf hcrossed
    exact hf hcrossed (Model.crossed_formAt hm hsuits)

/-- Without placeholders the decision makes no difference. -/
theorem Backend.optimize_none (b : Backend σ (Exact F)) (hm : m.Proper)
    (h : m.decisionCount = 0) : b.optimize m none = b.optimize m (some []) := by
  unfold Backend.optimize
  rw [Model.standardForm_none hm h, Model.standardForm_some hm (Or.inl h)]

end Recourse
