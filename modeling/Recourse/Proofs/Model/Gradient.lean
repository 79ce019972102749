/-
  Proofs/Model/Gradient.lean --- slopes of optimal values.

  The gradient that the library makes out of the duals of a subproblem is a
  subgradient of its optimal value, turned into minimization
  (`Reports.loss_ge`).  A change of the decision is spread over the columns of the
  model: to each placeholder goes its part, to the other columns nothing.  Along
  such a change the gradient is the change of the objective less that of the rows,
  weighed by their duals (`recourseGradient_settles`).
-/
import Recourse.Proofs.Model.Form
import Recourse.Solver.Round

set_option autoImplicit false
set_option linter.unusedSectionVars false

namespace Recourse

variable {F : Type} [Field F] [LinearOrder F] [IsStrictOrderedRing F] [FloorRing F]

/-! ## Lists of terms -/

theorem sum_range_eq_sum_map (n : Nat) (f : Nat → F) :
    ∑ i ∈ Finset.range n, f i = ((List.range n).map f).sum := rfl

theorem sum_map_eq_sum_range {α : Type} (xs : List α) (f : α → F) (g : Nat → F)
    (h : ∀ i (hi : i < xs.length), f xs[i] = g i) :
    (xs.map f).sum = ∑ i ∈ Finset.range xs.length, g i := by
  rw [sum_range_eq_sum_map]
  refine congrArg List.sum (List.ext_getElem (by simp) ?_)
  intro i h1 _
  have hi : i < xs.length := by simpa using h1
  simpa using h i hi

theorem coord_modify (g : List (Exact F)) (j : Nat) (f : Exact F → Exact F) (k : Nat)
    (hj : j < g.length) :
    coord (g.modify j f) k = if k = j then (f (g.getD j .undefined)).value else coord g k := by
  by_cases h : k = j
  · subst h
    simp [coord, List.getD_eq_getElem?_getD, hj]
  · simp [coord, List.getD_eq_getElem?_getD, h, Ne.symm h]

namespace Model

variable {m : Model (Exact F)}

/-- A change of the decision, spread over the columns of a model. -/
def spread (m : Model (Exact F)) (w : Nat → F) (c : Nat) : F :=
  match m.position? c with
  | some j => w j
  | none => 0

theorem position?_eq (hm : m.Proper) (c : Nat) :
    m.position? c = (m.columns[c]?).bind (·.decision) := by
  unfold Model.position?
  cases hfind : m.columns.find? (fun v => v.index == c && v.isDecision) with
  | none =>
    rw [List.find?_eq_none] at hfind
    cases hc : m.columns[c]? with
    | none => rfl
    | some v =>
      obtain ⟨hlt, rfl⟩ := List.getElem?_eq_some_iff.1 hc
      have hv := hfind _ (List.getElem_mem hlt)
      rw [hm.numbered c hlt] at hv
      have hnone : m.columns[c].decision = none := by simpa [Variable.isDecision] using hv
      exact hnone.symm
  | some v =>
    obtain ⟨i, hi, rfl⟩ := List.getElem_of_mem (List.mem_of_find?_eq_some hfind)
    have hv := List.find?_some hfind
    rw [hm.numbered i hi, Bool.and_eq_true, beq_iff_eq] at hv
    rw [← hv.1, List.getElem?_eq_getElem hi]

theorem spread_of_decision (hm : m.Proper) (w : Nat → F) {c j : Nat} (hc : c < m.columns.length)
    (hj : m.columns[c].decision = some j) : m.spread w c = w j := by
  rw [spread, position?_eq hm, List.getElem?_eq_getElem hc, Option.bind_some, hj]

theorem spread_of_own (hm : m.Proper) (w : Nat → F) {c : Nat} (hc : c < m.columns.length)
    (hj : m.columns[c].decision = none) : m.spread w c = 0 := by
  rw [spread, position?_eq hm, List.getElem?_eq_getElem hc, Option.bind_some, hj]

theorem spread_of_le (hm : m.Proper) (w : Nat → F) {c : Nat} (hc : m.columns.length ≤ c) :
    m.spread w c = 0 := by
  rw [spread, position?_eq hm, List.getElem?_eq_none hc, Option.bind_none]

/-! ## Duals -/

/-- A term of a row in the place of a decision. -/
theorem subtractAt_settles {g : List (Exact F)} (hg : AllFinite g) {j : Nat} (hj : j < g.length)
    (a : F) :
    Settles (subtractAt g j (.finite a))
      (fun g' => g'.length = g.length ∧ AllFinite g' ∧
        ∀ w : Nat → F, costAt g' w = costAt g w - a * w j)
      (fun _ => False) := by
  have hmodify : ∀ k, coord (g.modify j (· - .finite a)) k =
      coord g k - if k = j then a else 0 := by
    intro k
    rw [coord_modify g j _ k hj, hg.getD hj]
    split
    · rename_i h
      rw [h, Exact.finite_sub, Exact.value_finite]
    · rw [sub_zero]
  unfold subtractAt
  rw [if_pos hj]
  refine ⟨List.length_modify _ _ _, ?_, ?_⟩
  · intro b hb
    obtain ⟨k, hk, rfl⟩ := List.getElem_of_mem hb
    rw [List.getElem_modify]
    split
    · rename_i h
      subst h
      have hfinite := hg _ (List.getElem_mem hj)
      rw [← Exact.finite_value hfinite, Exact.finite_sub]
      exact Exact.isFinite_finite _
    · exact hg _ (List.getElem_mem _)
  · intro w
    have hsum : ∑ k ∈ Finset.range g.length, (if k = j then a else 0) * w k = a * w j := by
      simp only [ite_mul, zero_mul]
      rw [Finset.sum_ite_eq', if_pos (Finset.mem_range.2 hj)]
    rw [costAt, costAt, List.length_modify, ← hsum, ← Finset.sum_sub_distrib]
    exact Finset.sum_congr rfl fun k _ => by rw [hmodify k, sub_mul]

/-- What one coefficient of a decision in a row takes away along a change. -/
def chargeOf (duals : List (Exact F)) (w : Nat → F) (t : Int × Nat × Exact F) : F :=
  coord duals t.1.toNat * (t.2.2.value * w t.2.1)

/-- Taking away the charges of several coefficients, one after the other. -/
theorem foldlM_settles (duals : List (Exact F)) (hduals : AllFinite duals)
    (terms : List (Int × Nat × Exact F)) {g : List (Exact F)} (hg : AllFinite g)
    (hterms : ∀ t ∈ terms, t.1.toNat < duals.length ∧ t.2.1 < g.length ∧
      Scalar.isFinite t.2.2 = true) :
    Settles
      (terms.foldlM (fun g t => do
        if g.length ≤ t.2.1 then throw (.misuse .position)
        subtractAt g t.2.1 ((← SolveResult.entry duals t.1.toNat) * t.2.2)) g)
      (fun g' => g'.length = g.length ∧ AllFinite g' ∧
        ∀ w : Nat → F, costAt g' w = costAt g w - (terms.map (chargeOf duals w)).sum)
      (fun _ => False) := by
  induction terms generalizing g with
  | nil => exact ⟨rfl, hg, fun w => by simp⟩
  | cons t terms ih =>
    obtain ⟨hrow, hposition, hfinite⟩ := hterms t List.mem_cons_self
    have hentry : SolveResult.entry duals t.1.toNat = .ok (.finite (coord duals t.1.toNat)) := by
      rw [← hduals.getD hrow]
      simp [SolveResult.entry, hrow]
    rw [List.foldlM_cons]
    refine Settles.bind ?_
    rw [if_neg (not_le.2 hposition), hentry, ← Exact.finite_value hfinite]
    refine (subtractAt_settles hg hposition (coord duals t.1.toNat * t.2.2.value)).mono
      ?_ fun _ => id
    intro g' hg'
    obtain ⟨hlength, hg', hcost⟩ := hg'
    refine (ih hg' ?_).mono ?_ fun _ => id
    · intro s hs
      rw [hlength]
      exact hterms s (List.mem_cons_of_mem _ hs)
    · intro g'' hg''
      refine ⟨hg''.1.trans hlength, hg''.2.1, ?_⟩
      intro w
      rw [hg''.2.2 w, hcost w, List.map_cons, List.sum_cons, chargeOf]
      ring

/-- The charges of the decisions in a row make up the row along the change. -/
theorem sum_charges (m : Model (Exact F)) (duals : List (Exact F)) (w : Nat → F) (i : Int)
    (terms : List (Nat × Exact F)) (hterms : ∀ t ∈ terms, Scalar.isFinite t.2 = true) :
    ((terms.filterMap fun t =>
      match m.position? t.1 with
      | some j => if Scalar.isZero t.2 then none else some (i, j, t.2)
      | none => none).map (chargeOf duals w)).sum =
      coord duals i.toNat * SparseRow.valueAt terms (m.spread w) := by
  induction terms with
  | nil => simp
  | cons t terms ih =>
    have ih := ih fun t ht => hterms t (List.mem_cons_of_mem _ ht)
    rw [SparseRow.valueAt_cons, mul_add, ← ih, List.filterMap_cons, spread]
    cases hj : m.position? t.1 with
    | none => simp
    | some j =>
      simp only
      rw [← Exact.finite_value (hterms t List.mem_cons_self), Exact.isZero_finite]
      by_cases hzero : t.2.value = 0
      · simp [hzero]
      · simp [hzero, chargeOf]

theorem sum_masterTerms (hm : m.Proper) (duals : List (Exact F)) (w : Nat → F) :
    (m.masterTerms.map (chargeOf duals w)).sum =
      ∑ i ∈ Finset.range m.rows.length,
        coord duals i * SparseRow.valueAt (m.rows.getD i default).expr.terms (m.spread w) := by
  unfold Model.masterTerms
  rw [List.map_flatMap, List.flatMap, List.sum_flatten, List.map_map]
  apply sum_map_eq_sum_range _ _ _
  intro i hi
  have hperm : m.rows[i].expr.sortedTerms.Perm m.rows[i].expr.terms := Sorting.sorted_perm _ _
  have hfinite : ∀ t ∈ m.rows[i].expr.sortedTerms, Scalar.isFinite t.2 = true := fun t ht =>
    (hm.rows _ (List.getElem_mem hi)).finite t (hperm.mem_iff.1 ht)
  refine (sum_charges m duals w m.rows[i].index _ hfinite).trans ?_
  rw [hm.aligned i hi, Int.toNat_natCast, List.getD_eq_getElem _ _ hi]
  exact congrArg _ ((hperm.map fun t : Nat × Exact F => t.2.value * m.spread w t.1).sum_eq)

theorem masterTerms_settles (hm : m.Proper) {n : Nat} (hn : m.decisionCount = 0 ∨ m.decisionCount = n) :
    ∀ t ∈ m.masterTerms, t.1.toNat < m.rows.length ∧ t.2.1 < n ∧
      Scalar.isFinite t.2.2 = true := by
  intro t ht
  obtain ⟨r, hr, ht⟩ := List.mem_flatMap.1 ht
  obtain ⟨i, hi, rfl⟩ := List.getElem_of_mem hr
  obtain ⟨s, hs, hst⟩ := List.mem_filterMap.1 ht
  have hfinite := (hm.rows _ hr).finite s ((Sorting.sorted_perm _ _).mem_iff.1 hs)
  cases hj : m.position? s.1 with
  | none => simp [hj] at hst
  | some j =>
    have hdecision : j < m.decisionCount := by
      rw [position?_eq hm] at hj
      obtain ⟨c, hc, hcj⟩ := Option.bind_eq_some_iff.1 hj
      obtain ⟨_, rfl⟩ := List.getElem?_eq_some_iff.1 hc
      exact hm.decision_lt (List.getElem_mem _) hcj
    simp only [hj] at hst
    split at hst
    · cases hst
    · cases hst
      rw [hm.aligned i hi]
      have hn : j < n := by omega
      exact ⟨hi, hn, hfinite⟩

/-- Subtracting the duals of a proper model always succeeds; along a change of the
decision it takes away the change of the rows, weighed by their duals. -/
theorem subtractDuals_settles (hm : m.Proper) {duals g : List (Exact F)} (hduals : AllFinite duals)
    (hlength : duals.length = m.rows.length) (hg : AllFinite g)
    (hn : m.decisionCount = 0 ∨ m.decisionCount = g.length) :
    Settles (m.subtractDuals duals g)
      (fun g' => g'.length = g.length ∧ AllFinite g' ∧ ∀ w : Nat → F, costAt g' w = costAt g w -
        ∑ i ∈ Finset.range m.rows.length,
          coord duals i * SparseRow.valueAt (m.rows.getD i default).expr.terms (m.spread w))
      (fun _ => False) := by
  refine (foldlM_settles duals hduals m.masterTerms hg ?_).mono ?_
    fun _ => id
  · intro t ht
    rw [hlength]
    exact masterTerms_settles hm hn t ht
  · intro g' hg'
    exact ⟨hg'.1, hg'.2.1, fun w => by rw [hg'.2.2 w, sum_masterTerms hm]⟩

/-! ## The objective -/

/-- The placeholders of a proper model are in order of position already. -/
theorem placeholders_eq (hm : m.Proper) :
    m.placeholders = (m.columns.filterMap fun c => c.decision.map (·, c)) ∧
      m.placeholders.map (·.1) = List.range m.decisionCount := by
  have hfst : (m.columns.filterMap fun c => c.decision.map (·, c)).map (·.1) =
      List.range m.decisionCount := by
    rw [← hm.placeholders, List.map_filterMap]
    refine congrFun (congrArg _ (funext ?_)) _
    intro c
    cases c.decision <;> rfl
  have hsorted : (m.columns.filterMap fun c => c.decision.map (·, c)).Pairwise
      fun a b => decide (a.1 ≤ b.1) = true := by
    have hrange : ((m.columns.filterMap fun c => c.decision.map (·, c)).map (·.1)).Pairwise
        (· < ·) := by
      rw [hfst]
      exact List.pairwise_lt_range
    rw [List.pairwise_map] at hrange
    exact hrange.imp fun h => decide_eq_true (Nat.le_of_lt h)
  have heq : m.placeholders = m.columns.filterMap fun c => c.decision.map (·, c) :=
    Sorting.sorted_of_pairwise _ hsorted
  exact ⟨heq, heq ▸ hfst⟩

theorem length_placeholders (hm : m.Proper) : m.placeholders.length = m.decisionCount := by
  simpa using congrArg List.length (placeholders_eq hm).2

theorem length_decisionObjective (hm : m.Proper) :
    m.decisionObjective.length = m.decisionCount := by
  rw [Model.decisionObjective, List.length_map, length_placeholders hm]

theorem allFinite_decisionObjective (hm : m.Proper) : AllFinite m.decisionObjective := by
  intro a ha
  obtain ⟨p, -, rfl⟩ := List.mem_map.1 ha
  exact LinearExpr.isFinite_coefficient hm.objective _

/-- The coefficients of the decisions make up the objective along a change. -/
theorem costAt_decisionObjective (hm : m.Proper) (w : Nat → F) :
    costAt m.decisionObjective w = SparseRow.valueAt m.objective.terms (m.spread w) := by
  have hplaceholder : ∀ i (hi : i < m.placeholders.length),
      (m.objective.coefficient m.placeholders[i].2.index).value * w m.placeholders[i].1 =
        coord m.decisionObjective i * w i := by
    intro i hi
    have hfst : m.placeholders[i].1 = i := by
      have h := List.getElem_map (·.1) (l := m.placeholders) (h := by simpa using hi)
      simpa [(placeholders_eq hm).2] using h.symm
    rw [hfst, coord, Model.decisionObjective, List.getD_eq_getElem _ _ (by simpa using hi),
      List.getElem_map]
  have hcolumn : ∀ i (hi : i < m.columns.length),
      (m.objective.coefficient m.columns[i].index).value * m.spread w m.columns[i].index =
        coord ((List.range m.columns.length).map m.objective.coefficient) i * m.spread w i := by
    intro i hi
    rw [hm.numbered i hi]
    simp [coord, List.getD_eq_getElem?_getD, hi]
  -- Columns that are not placeholders do not move.
  have hcolumns : ∀ cs : List (Variable (Exact F)), (∀ c ∈ cs, c ∈ m.columns) →
      ((cs.filterMap fun c => c.decision.map (·, c)).map fun p =>
        (m.objective.coefficient p.2.index).value * w p.1).sum =
      (cs.map fun c => (m.objective.coefficient c.index).value * m.spread w c.index).sum := by
    intro cs hcs
    induction cs with
    | nil => rfl
    | cons c cs ih =>
      have ih := ih fun c hc => hcs c (List.mem_cons_of_mem _ hc)
      obtain ⟨i, hi, rfl⟩ := List.getElem_of_mem (hcs c List.mem_cons_self)
      rw [List.map_cons, List.sum_cons, ← ih, List.filterMap_cons, hm.numbered i hi]
      cases hd : m.columns[i].decision with
      | none => simp [spread_of_own hm w hi hd]
      | some j => simp [spread_of_decision hm w hi hd, hm.numbered i hi]
  calc costAt m.decisionObjective w
      = ∑ i ∈ Finset.range m.placeholders.length, coord m.decisionObjective i * w i := by
        rw [costAt, length_decisionObjective hm, length_placeholders hm]
    _ = (m.placeholders.map fun p =>
          (m.objective.coefficient p.2.index).value * w p.1).sum :=
        (sum_map_eq_sum_range _ _ _ hplaceholder).symm
    _ = (m.columns.map fun c =>
          (m.objective.coefficient c.index).value * m.spread w c.index).sum := by
        rw [(placeholders_eq hm).1, hcolumns _ fun _ => id]
    _ = ∑ i ∈ Finset.range m.columns.length,
          coord ((List.range m.columns.length).map m.objective.coefficient) i *
            m.spread w i := sum_map_eq_sum_range _ _ _ hcolumn
    _ = SparseRow.valueAt m.objective.terms (m.spread w) := by
        rw [← LinearExpr.costAt_coefficients hm.objective, costAt, List.length_map,
          List.length_range]

theorem addDecisionObjective_settles (hm : m.Proper) (n : Nat)
    (hn : m.decisionCount = 0 ∨ m.decisionCount = n) :
    Settles (m.addDecisionObjective (Scalar.zeros n))
      (fun g => g.length = n ∧ AllFinite g ∧ ∀ w : Nat → F,
        costAt g w = SparseRow.valueAt m.objective.terms (m.spread w))
      (fun _ => False) := by
  have hlength := length_decisionObjective hm
  have hfinite := allFinite_decisionObjective hm
  have hcost := costAt_decisionObjective hm
  unfold Model.addDecisionObjective
  rw [Exact.zeros_eq]
  generalize m.decisionObjective = cs at hlength hfinite hcost
  -- Adding to zeros gives the summand, however the three cases say it.
  have hsum : cs.length = n → List.zipWith (· + ·) ((List.replicate n 0).map Exact.finite) cs = cs := by
    intro h
    apply List.ext_getElem (by simp [h])
    intro i h1 h2
    rw [List.getElem_zipWith, List.getElem_map, List.getElem_replicate,
      ← Exact.finite_value (hfinite _ (List.getElem_mem h2)), Exact.finite_add, zero_add]
  match cs with
  | [] =>
    refine ⟨by simp, allFinite_map_finite _, ?_⟩
    intro w
    rw [← hcost w, ← Exact.zeros_eq, costAt_zeros]
    rfl
  | [c] =>
    have hn : n = 1 := by
      have h1 : m.decisionCount = 1 := by simpa using hlength.symm
      omega
    subst hn
    have hsum := hsum rfl
    simp only [List.replicate_one, List.map_cons, List.map_nil, List.zipWith_cons_cons,
      List.zipWith_nil_left] at hsum ⊢
    rw [hsum]
    exact ⟨rfl, hfinite, hcost⟩
  | c :: c' :: cs =>
    have hn : (c :: c' :: cs).length = n := by
      have h2 : 0 < m.decisionCount := by rw [← hlength]; simp
      omega
    have hif : (c :: c' :: cs).length = ((List.replicate n (0 : F)).map Exact.finite).length := by
      rw [hn, List.length_map, List.length_replicate]
    simp only [if_pos hif, hsum hn]
    exact ⟨hn, hfinite, hcost⟩

/-- The gradient of a proper model always exists.  Along a change of the decision it is
the change of the objective less that of the rows, weighed by their duals. -/
theorem recourseGradient_settles (hm : m.Proper) {r : SolveResult (Exact F)}
    (hduals : AllFinite r.duals) (hlength : r.duals.length = m.rows.length) {n : Nat}
    (hn : m.decisionCount = 0 ∨ m.decisionCount = n) :
    Settles (m.recourseGradient r n)
      (fun g => g.length = n ∧ AllFinite g ∧ ∀ w : Nat → F, costAt g w =
        SparseRow.valueAt m.objective.terms (m.spread w) -
          ∑ i ∈ Finset.range m.rows.length, coord r.duals i *
            SparseRow.valueAt (m.rows.getD i default).expr.terms (m.spread w))
      (fun _ => False) := by
  refine Settles.bind ((addDecisionObjective_settles hm n hn).mono ?_ fun _ => id)
  intro g hg
  obtain ⟨hg, hfinite, hcost⟩ := hg
  refine (subtractDuals_settles hm hduals hlength hfinite (by rwa [hg])).mono ?_
    fun _ => id
  intro g' hg'
  exact ⟨hg'.1.trans hg, hg'.2.1, fun w => by rw [hg'.2.2 w, hcost w]⟩

/-! ## Subgradients -/

/-- What the reduced costs charge for a move to a point that fits at another decision is
at least what they charge for the change of the decision. -/
theorem charge_ge (hm : m.Proper) {x : List (Exact F)} {x' : Nat → F} (hx : m.Suits x)
    {answer : SolveResult (Exact F)} (h : answer.Certifies (m.formAt x).toProgram)
    {v : Nat → F} (hv : m.Fits x' v) :
    ∑ j ∈ Finset.range m.columns.length,
        coord answer.costs j * m.spread (fun k => x' k - coord x k) j ≤
      ∑ j ∈ Finset.range m.columns.length,
        coord answer.costs j * (v j - coord answer.point j) := by
  have hfits := (feasible_formAt_iff hm hx _).1 h.feasible
  apply Finset.sum_le_sum
  intro j hj
  have hj := Finset.mem_range.1 hj
  have hnew := hv.columns _ (List.getElem_mem hj)
  have hold := hfits.columns _ (List.getElem_mem hj)
  rw [hm.numbered j hj] at hnew hold
  cases hd : m.columns[j].decision with
  | some k =>
    rw [Admits, hd] at hnew hold
    rw [spread_of_decision hm _ hj hd, hnew, hold]
  | none =>
    have hcolumn : (m.formAt x).toProgram.ColumnHolds j v := by
      rw [columnHolds_formAt_iff hx hj, Admits, hd]
      rwa [Admits, hd] at hnew
    rw [spread_of_own hm _ hj hd, mul_zero]
    exact h.charge_nonneg ((length_cost_formAt m x).symm ▸ hj) hcolumn

/-- The duals of a program in the sense of its cost, and those of the model, agree along
a change of the decision. -/
theorem sum_rows_spread (x : List (Exact F)) {answer : SolveResult (Exact F)}
    (hduals : AllFinite answer.duals) (w : Nat → F) :
    ∑ i ∈ Finset.range m.rows.length,
        coord answer.duals i * (m.formAt x).toProgram.rowAt i (m.spread w) =
      m.goal.factor * ∑ i ∈ Finset.range m.rows.length,
        coord (Scalar.scale m.goal.sign answer.duals) i *
          SparseRow.valueAt (m.rows.getD i default).expr.terms (m.spread w) := by
  rw [Finset.mul_sum]
  apply Finset.sum_congr rfl
  intro i hi
  have hi := Finset.mem_range.1 hi
  rw [rowAt_formAt m x hi, Goal.sign_eq, coord_scale _ hduals, List.getD_eq_getElem _ _ hi]
  linear_combination -(coord answer.duals i *
    SparseRow.valueAt m.rows[i].expr.terms (m.spread w)) * m.goal.factor_mul_self (F := F)

/-- The gradient is a subgradient of the optimal value, turned into minimization. -/
theorem Reports.loss_ge (hm : m.Proper) {x : List (Exact F)} {x' : Nat → F} (hx : m.Suits x)
    {r : SolveResult (Exact F)} (h : m.Reports x r) (hs : r.status = .optimal)
    {g : List (Exact F)} (hg : m.recourseGradient r x.length = .ok g)
    (hlength : m.decisionCount = 0 ∨ m.decisionCount = x.length) {v : Nat → F}
    (hv : m.Fits x' v) :
    m.goal.factor * (m.objectiveAt (coord r.point) +
      costAt g fun k => x' k - coord x k) ≤ m.lossAt v := by
  obtain ⟨answer, hanswer, rfl⟩ := h.certificate hs
  have hduals := h.duals_finite hs
  have hgradient := (recourseGradient_settles hm hduals.1 hduals.2 hlength).of_ok hg
  set w : Nat → F := fun k => x' k - coord x k with hw
  have hstationary := hanswer.stationary (m.spread w)
  have hcost := hanswer.cost_ge fun i hi =>
    (rowHolds_formAt_iff hm x (length_rows_formAt m x ▸ hi) v).2
      (hv.rows _ (List.getElem_mem _))
  have hcharge := charge_ge hm hx hanswer hv
  rw [length_rows_formAt, length_cost_formAt, sum_rows_spread x hanswer.duals_finite w,
    costAt_formAt hm, lossAt, objectiveAt, LinearExpr.valueAt] at hstationary
  rw [length_cost_formAt, costAt_formAt hm, costAt_formAt hm] at hcost
  have hslope : m.goal.factor * costAt g w =
      ∑ j ∈ Finset.range m.columns.length, coord answer.costs j * m.spread w j := by
    rw [hgradient.2.2 w]
    simp only [SolveResult.inSense] at hstationary ⊢
    linear_combination hstationary
  calc m.goal.factor * (m.objectiveAt (coord answer.point) + costAt g w)
      = m.lossAt (coord answer.point) +
          ∑ j ∈ Finset.range m.columns.length, coord answer.costs j * m.spread w j := by
        rw [mul_add, hslope, lossAt]
    _ ≤ m.lossAt (coord answer.point) + ∑ j ∈ Finset.range m.columns.length,
          coord answer.costs j * (v j - coord answer.point j) := by gcongr
    _ ≤ m.lossAt v := by linarith only [hcost]

end Model

end Recourse
