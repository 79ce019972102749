/-
  Proofs/Model/Subgradient.lean --- the gradient of a subproblem is a subgradient.

  A row that is added to a model twice stands in it twice at one position, and the
  matrix of the model holds both there; `Model.Placed` is all that is asked of the
  rows.  `Model.merged` is the model with one row for every row of that matrix.  It is
  solved as the given one is (`optimize_merged`), and along every change of the
  decision its gradient is the same (`gradient_settles`), so that what is known of
  models whose rows stand in their places carries over.
-/
import Recourse.Proofs.Model.Gradient
import Recourse.Proofs.Model.Terms
import Recourse.Proofs.Linear.Transcript
import Mathlib.Data.Rat.Floor

set_option autoImplicit false
set_option linter.unusedSectionVars false

open scoped BigOperators

namespace Recourse

variable {F : Type} [Field F] [LinearOrder F] [IsStrictOrderedRing F] [FloorRing F]

namespace Model

/-! ## Rows that were added more than once -/

/-- A model built column by column and row by row, out of numbers.  The position of a row is
that of the time it was added last, and it stands in the model once for every time. -/
@[mk_iff]
structure Placed (m : Model (Exact F)) : Prop extends m.Coherent where
  /-- No column has crossed bounds. -/
  uncrossed : ∀ c ∈ m.columns, Scalar.less c.upper c.lower = false
  /-- Rows have positions among the rows of the model. -/
  positions : ∀ r ∈ m.rows, 0 ≤ r.index ∧ r.index < m.rows.length
  /-- Rows have known relations. -/
  relations : ∀ r ∈ m.rows, r.relation.IsKnown

instance decidablePlaced (m : Model (Exact F)) : Decidable m.Placed :=
  have : DecidablePred Relation.IsKnown := fun r =>
    inferInstanceAs (Decidable (r.text ∈ ["=", "==", "<=", "<", ">=", ">"]))
  decidable_of_iff _ (placed_iff m).symm

variable {m : Model (Exact F)}

theorem Proper.placed (hm : m.Proper) : m.Placed where
  toCoherent := hm.coherent
  uncrossed := hm.uncrossed
  positions r hr := by
    obtain ⟨i, hi, rfl⟩ := List.getElem_of_mem hr
    rw [hm.aligned i hi]
    exact ⟨Int.natCast_nonneg i, Int.ofNat_lt.2 hi⟩
  relations := hm.relations

/-- A model with every row at its own position is proper. -/
theorem Placed.proper (hm : m.Placed) (haligned : m.isAligned = true) : m.Proper := by
  refine hm.toCoherent.proper hm.uncrossed (fun i hi => ?_) hm.relations
  unfold isAligned at haligned
  rw [List.all_eq_true] at haligned
  have h := haligned (m.rows[i], i)
    (List.mk_mem_zipIdx_iff_getElem?.2 (List.getElem?_eq_getElem hi))
  simpa using h

/-! ## The rows of the matrix -/

/-- Terms of several rows that are added one by one. -/
theorem foldl_rows_spec {n : Nat} (rows : List (Row (Exact F)))
    (hrows : ∀ r ∈ rows, LinearExpr.ProperTerms r.expr.terms n) {terms : Table Nat (Exact F)}
    (h : LinearExpr.ProperTerms terms n) :
    let sum := (rows.flatMap (·.expr.terms)).foldl (LinearExpr.addTerm 1) terms
    LinearExpr.ProperTerms sum n ∧ ∀ v, SparseRow.valueAt sum v =
      SparseRow.valueAt terms v + (rows.map fun r => SparseRow.valueAt r.expr.terms v).sum := by
  induction rows generalizing terms with
  | nil => exact ⟨h, fun v => (add_zero _).symm⟩
  | cons r rows ih =>
    obtain ⟨hr, hrest⟩ := List.forall_mem_cons.1 hrows
    have hcolumns : ∀ k < n, id k < n := fun _ hk => hk
    obtain ⟨hterms, hvalue⟩ := LinearExpr.foldl_addTerm_spec hr h hcolumns 1
    obtain ⟨hsum, hsums⟩ := ih hrest hterms
    rw [List.flatMap_cons, List.foldl_append]
    refine ⟨hsum, fun v => (hsums v).trans ?_⟩
    rw [hvalue v, one_mul, List.map_cons, List.sum_cons, ← add_assoc]
    rfl

theorem properTerms_rowAt (hm : m.Coherent) (i : Nat) :
    LinearExpr.ProperTerms (m.rowAt i) m.columns.length :=
  (foldl_rows_spec _ (fun r hr => hm.rows r (List.mem_of_mem_filter hr))
    (LinearExpr.properTerms_ofNumber 0 _)).1

/-- A row of the matrix is the sum of the rows at its position. -/
theorem valueAt_rowAt (hm : m.Coherent) (i : Nat) (v : Nat → F) :
    SparseRow.valueAt (m.rowAt i) v = ((m.rows.filter (·.index == (i : Int))).map fun r =>
      SparseRow.valueAt r.expr.terms v).sum := by
  have h := (foldl_rows_spec (m.rows.filter (·.index == (i : Int)))
    (fun r hr => hm.rows r (List.mem_of_mem_filter hr))
    (LinearExpr.properTerms_ofNumber 0 m.columns.length)).2 v
  exact h.trans (zero_add _)

/-- A weighted sum over the rows, position by position. -/
theorem sum_positions (weight : Nat → F) (f : Row (Exact F) → F) (n : Nat)
    (rows : List (Row (Exact F))) (h : ∀ r ∈ rows, 0 ≤ r.index ∧ r.index < (n : Int)) :
    ∑ i ∈ Finset.range n, weight i * ((rows.filter (·.index == (i : Int))).map f).sum =
      (rows.map fun r => weight r.index.toNat * f r).sum := by
  induction rows with
  | nil => simp
  | cons r rows ih =>
    obtain ⟨⟨hnonneg, hlt⟩, hrest⟩ := List.forall_mem_cons.1 h
    obtain ⟨k, hk⟩ := Int.eq_ofNat_of_zero_le hnonneg
    have hkn : k < n := by omega
    have hsplit : ∀ i : Nat, ((((r :: rows).filter (·.index == (i : Int))).map f).sum : F) =
        (if i = k then f r else 0) + ((rows.filter (·.index == (i : Int))).map f).sum := by
      intro i
      by_cases hi : i = k
      · have hhead : (r.index == (i : Int)) = true := by rw [hk, hi]; exact beq_self_eq_true _
        rw [List.filter_cons, if_pos hhead, List.map_cons, List.sum_cons, if_pos hi]
      · have hhead : ¬ (r.index == (i : Int)) = true := by
          rw [beq_iff_eq, hk]
          exact fun h => hi (Int.ofNat_inj.1 h).symm
        rw [List.filter_cons, if_neg hhead, if_neg hi, zero_add]
    simp only [hsplit, mul_add, Finset.sum_add_distrib, mul_ite, mul_zero]
    rw [Finset.sum_ite_eq', if_pos (Finset.mem_range.2 hkn), ih hrest, List.map_cons,
      List.sum_cons, hk, Int.toNat_natCast]

/-! ## The merged model -/

/-- The model with one row for every row of the matrix. -/
def merged (m : Model (Exact F)) : Model (Exact F) :=
  { m with
    rows := (List.range m.rows.length).map fun i =>
      { m.rows.getD i default with
        expr := { (m.rows.getD i default).expr with terms := m.rowAt i }
        index := i } }

theorem length_rows_merged (m : Model (Exact F)) : m.merged.rows.length = m.rows.length := by
  simp [merged]

theorem mem_rows_merged {r : Row (Exact F)} (hr : r ∈ m.merged.rows) :
    ∃ i, ∃ hi : i < m.rows.length, r.expr.terms = m.rowAt i ∧ r.relation = m.rows[i].relation := by
  obtain ⟨i, hi, rfl⟩ := List.mem_map.1 hr
  have hi := List.mem_range.1 hi
  exact ⟨i, hi, rfl, by rw [List.getD_eq_getElem _ _ hi]⟩

theorem terms_merged {i : Nat} (hi : i < m.rows.length) :
    (m.merged.rows.getD i default).expr.terms = m.rowAt i := by
  simp [merged, List.getD_eq_getElem?_getD, hi]

theorem merged_proper (hm : m.Placed) : m.merged.Proper where
  numbered := hm.numbered
  uncrossed := hm.uncrossed
  placeholders := hm.placeholders
  aligned i hi := by simp [merged]
  relations r hr := by
    obtain ⟨i, hi, -, hrelation⟩ := mem_rows_merged hr
    rw [hrelation]
    exact hm.relations _ (List.getElem_mem hi)
  rows r hr := by
    obtain ⟨i, -, hterms, -⟩ := mem_rows_merged hr
    rw [hterms]
    exact properTerms_rowAt hm.toCoherent i
  objective := hm.objective

/-- A model whose rows do not all stand at their positions has the matrix form of the merged
one. -/
theorem standardForm_merged (hm : m.Placed) (haligned : m.isAligned = false)
    (decision : Option (List (Exact F))) :
    m.standardForm decision = m.merged.standardForm decision := by
  have hmerged := merged_proper hm
  have hright : (m.merged.rows.map fun r => r.bound - r.expr.constant) =
      m.rows.map fun r => r.bound - r.expr.constant := by
    refine List.ext_getElem (by simp [merged]) fun i _ h => ?_
    have hi : i < m.rows.length := by simpa using h
    simp [merged, List.getD_eq_getElem?_getD, hi]
  have hrelations : m.merged.rows.map (·.relation) = m.rows.map (·.relation) := by
    refine List.ext_getElem (by simp [merged]) fun i _ h => ?_
    have hi : i < m.rows.length := by simpa using h
    simp [merged, List.getD_eq_getElem?_getD, hi]
  have hmatrix : m.matrix = m.merged.rows.map (·.expr.terms) := by
    rw [matrix, if_neg (by rw [haligned]; exact Bool.false_ne_true), merged, List.map_map]
    rfl
  have hobjective : (m.objective.terms.any fun t => decide (m.variableCount ≤ t.1)) = false :=
    any_outside hm.objective.within
  have hrows : (m.rows.any fun r => r.expr.terms.any fun t => decide (m.variableCount ≤ t.1))
      = false := by
    rw [List.any_eq_false]
    intro r hr
    have hr : (r.expr.terms.any fun t => decide (m.variableCount ≤ t.1)) = false :=
      any_outside (hm.rows r hr).within
    simp [hr]
  have hdecision : m.merged.decisionFor decision = m.decisionFor decision := rfl
  rw [standardForm_eq hmerged, hdecision]
  unfold standardForm
  simp only [hobjective, hrows, bind, Except.bind, pure, Except.pure, Bool.false_eq_true, if_false]
  cases m.decisionFor decision with
  | error f => rfl
  | ok x =>
    rw [hmatrix, ← hright, ← hrelations]
    rfl

/-! ## Gradients -/

theorem masterTerms_placed (hm : m.Placed) {n : Nat}
    (hn : m.decisionCount = 0 ∨ m.decisionCount = n) :
    ∀ t ∈ m.masterTerms, t.1.toNat < m.rows.length ∧ t.2.1 < n ∧
      Scalar.isFinite t.2.2 = true := by
  intro t ht
  obtain ⟨r, hr, ht⟩ := List.mem_flatMap.1 ht
  obtain ⟨s, hs, hst⟩ := List.mem_filterMap.1 ht
  have hfinite := (hm.rows r hr).finite s ((Sorting.sorted_perm _ _).mem_iff.1 hs)
  cases hj : m.position? s.1 with
  | none => simp [hj] at hst
  | some j =>
    have hdecision : j < m.decisionCount := by
      have hposition : m.merged.position? s.1 = some j := hj
      rw [position?_eq (merged_proper hm)] at hposition
      obtain ⟨c, hc, hcj⟩ := Option.bind_eq_some_iff.1 hposition
      obtain ⟨_, rfl⟩ := List.getElem?_eq_some_iff.1 hc
      exact hm.decision_lt (List.getElem_mem _) hcj
    simp only [hj] at hst
    split at hst
    · cases hst
    · cases hst
      obtain ⟨hnonneg, hlt⟩ := hm.positions r hr
      have hrow : r.index.toNat < m.rows.length := by omega
      have hcolumn : j < n := by omega
      exact ⟨hrow, hcolumn, hfinite⟩

/-- The charges of the decisions make up the rows of the matrix along a change, weighed by
their duals. -/
theorem sum_masterTerms_placed (hm : m.Placed) (duals : List (Exact F)) (w : Nat → F) :
    (m.masterTerms.map (chargeOf duals w)).sum = ∑ i ∈ Finset.range m.rows.length,
      coord duals i * SparseRow.valueAt (m.rowAt i) (m.spread w) := by
  simp only [valueAt_rowAt hm.toCoherent]
  rw [sum_positions (coord duals) _ _ _ hm.positions]
  unfold masterTerms
  rw [List.map_flatMap, List.flatMap, List.sum_flatten, List.map_map]
  refine congrArg List.sum (List.map_congr_left fun r hr => ?_)
  have hperm : r.expr.sortedTerms.Perm r.expr.terms := Sorting.sorted_perm _ _
  have hfinite : ∀ t ∈ r.expr.sortedTerms, Scalar.isFinite t.2 = true := fun t ht =>
    (hm.rows r hr).finite t (hperm.mem_iff.1 ht)
  refine (sum_charges m duals w r.index _ hfinite).trans (congrArg _ ?_)
  exact (hperm.map fun t : Nat × Exact F => t.2.value * m.spread w t.1).sum_eq

/-- The gradient always exists.  Along a change of the decision it is the change of the
objective less that of the rows of the matrix, weighed by their duals. -/
theorem gradient_settles (hm : m.Placed) {r : SolveResult (Exact F)} (hduals : AllFinite r.duals)
    (hlength : r.duals.length = m.rows.length) {n : Nat}
    (hn : m.decisionCount = 0 ∨ m.decisionCount = n) :
    Settles (m.recourseGradient r n)
      (fun g => g.length = n ∧ AllFinite g ∧ ∀ w : Nat → F, costAt g w =
        SparseRow.valueAt m.objective.terms (m.spread w) -
          ∑ i ∈ Finset.range m.rows.length,
            coord r.duals i * SparseRow.valueAt (m.rowAt i) (m.spread w))
      (fun _ => False) := by
  refine Settles.bind ((addDecisionObjective_settles (merged_proper hm) n hn).mono ?_ fun _ => id)
  intro g hg
  obtain ⟨hg, hfinite, hcost⟩ := hg
  refine (foldlM_settles r.duals hduals m.masterTerms hfinite ?_).mono ?_ fun _ => id
  · rw [hlength, hg]
    exact masterTerms_placed hm hn
  · rintro g' ⟨hg', hfinite', hcost'⟩
    refine ⟨hg'.trans hg, hfinite', fun w => ?_⟩
    rw [hcost' w, hcost w, sum_masterTerms_placed hm]
    rfl

theorem exists_gradient (hm : m.Placed) {r : SolveResult (Exact F)} (hduals : AllFinite r.duals)
    (hlength : r.duals.length = m.rows.length) {n : Nat}
    (hn : m.decisionCount = 0 ∨ m.decisionCount = n) :
    ∃ g, m.recourseGradient r n = .ok g ∧ g.length = n ∧ AllFinite g := by
  have hsettles := gradient_settles hm hduals hlength hn
  cases hg : m.recourseGradient r n with
  | error f => exact (hsettles.of_error hg).elim
  | ok g => exact ⟨g, rfl, (hsettles.of_ok hg).1, (hsettles.of_ok hg).2.1⟩

/-- Along every change of the decision the gradients of a model and of the merged one agree. -/
theorem costAt_gradient_merged (hm : m.Placed) {r : SolveResult (Exact F)}
    (hduals : AllFinite r.duals) (hlength : r.duals.length = m.rows.length) {n : Nat}
    (hn : m.decisionCount = 0 ∨ m.decisionCount = n) {g g' : List (Exact F)}
    (hg : m.recourseGradient r n = .ok g) (hg' : m.merged.recourseGradient r n = .ok g')
    (w : Nat → F) : costAt g w = costAt g' w := by
  have hmerged := (recourseGradient_settles (merged_proper hm) hduals
    (hlength.trans (length_rows_merged m).symm) hn).of_ok hg'
  rw [((gradient_settles hm hduals hlength hn).of_ok hg).2.2 w, hmerged.2.2 w,
    length_rows_merged]
  refine congrArg₂ _ rfl (Finset.sum_congr rfl fun i hi => ?_)
  rw [terms_merged (Finset.mem_range.1 hi)]
  rfl

/-! ## Optimal values -/

/-- The optimal value of a model at a decision: the best value that its matrix form takes,
in the sense of the objective. -/
def BestAt (m : Model (Exact F)) (x : List (Exact F)) (q : F) : Prop :=
  ∃ form v, m.standardForm (some x) = .ok form ∧ form.toProgram.Feasible v ∧
    (∀ w, form.toProgram.Feasible w →
      costAt form.toProgram.cost v ≤ costAt form.toProgram.cost w) ∧
    q = m.goal.factor * costAt form.toProgram.cost v + form.constant.value

/-- A model whose rows do not all stand at their positions has the optimal values of the merged
one. -/
theorem bestAt_merged (hm : m.Placed) (haligned : m.isAligned = false) (x : List (Exact F))
    (q : F) : m.BestAt x q ↔ m.merged.BestAt x q := by
  unfold BestAt
  rw [standardForm_merged hm haligned]
  rfl

/-- A matrix form takes one entry for every placeholder. -/
theorem length_of_standardForm {x : List (Exact F)} {form : StandardForm (Exact F)}
    (h : m.standardForm (some x) = .ok form) :
    m.decisionCount = 0 ∨ m.decisionCount = x.length := by
  by_contra hnot
  rw [not_or] at hnot
  have hdecision : ∃ f, m.decisionFor (some x) = .error f := by
    refine ⟨.dimension (.modelDecision x.length m.decisionCount), ?_⟩
    simp [decisionFor, hnot.1, checkDecision, Ne.symm hnot.2, bind, Except.bind]
  obtain ⟨f, hf⟩ := hdecision
  unfold standardForm at h
  simp only [hf, bind, Except.bind, throw, throwThe, MonadExceptOf.throw] at h
  split at h <;> cases h

/-- The optimal value of a model whose rows stand in their places is that of its points. -/
theorem bestAt_iff_hasValue (hm : m.Proper) {x : List (Exact F)} (hx : AllFinite x)
    (hlength : m.decisionCount = 0 ∨ m.decisionCount = x.length) (q : F) :
    m.BestAt x q ↔ m.HasValue (coord x) q := by
  have hsuits := suits_of_length hx hlength
  have hform := standardForm_some hm hlength
  have hvalue : ∀ v, m.goal.factor * costAt (m.formAt x).toProgram.cost v +
      (m.formAt x).constant.value = m.objectiveAt v := by
    intro v
    rw [costAt_formAt hm, lossAt]
    show _ + m.objective.constant.value = _
    linear_combination (m.objectiveAt v - m.objective.constant.value) *
      m.goal.factor_mul_self (F := F)
  have hloss : ∀ v w, costAt (m.formAt x).toProgram.cost v ≤ costAt (m.formAt x).toProgram.cost w ↔
      m.lossAt v ≤ m.lossAt w := fun v w => by
    rw [costAt_formAt hm, costAt_formAt hm]
    exact sub_le_sub_iff_right _
  constructor
  · rintro ⟨form, v, hv, hfeasible, hbest, rfl⟩
    obtain rfl : m.formAt x = form := Except.ok.inj (hform.symm.trans hv)
    refine ⟨v, ⟨(feasible_formAt_iff hm hsuits v).1 hfeasible, fun w hw => ?_⟩, (hvalue v).symm⟩
    exact (hloss v w).1 (hbest w ((feasible_formAt_iff hm hsuits w).2 hw))
  · rintro ⟨v, ⟨hfits, hbest⟩, rfl⟩
    refine ⟨m.formAt x, v, hform, (feasible_formAt_iff hm hsuits v).2 hfits, fun w hw => ?_,
      (hvalue v).symm⟩
    exact (hloss v w).2 (hbest w ((feasible_formAt_iff hm hsuits w).1 hw))

/-! ## Subgradients -/

/-- A slope bounds the optimal value of a model at every other decision where there is one:
from below if less is better, from above if more is. -/
def Supports (m : Model (Exact F)) (x : List (Exact F)) (q : F) (g : List (Exact F)) : Prop :=
  ∀ (x' : List (Exact F)) (q' : F), AllFinite x' → m.BestAt x' q' →
    match m.goal with
    | .minimize => q + costAt g (fun j => coord x' j - coord x j) ≤ q'
    | .maximize => q' ≤ q + costAt g (fun j => coord x' j - coord x j)

/-- The gradient that belongs to an optimal result, or any that agrees with it along every
change of the decision, supports the optimal value. -/
theorem Reports.supports (hm : m.Proper) {x : List (Exact F)} (hx : AllFinite x)
    (hlength : m.decisionCount = 0 ∨ m.decisionCount = x.length) {r : SolveResult (Exact F)}
    (h : m.Reports x r) (hs : r.status = .optimal) {g g' : List (Exact F)}
    (hg : m.recourseGradient r x.length = .ok g) (hcost : ∀ w, costAt g' w = costAt g w) :
    m.Supports x (m.objectiveAt (coord r.point)) g' := by
  intro x' q' hx' hbest
  obtain ⟨form, -, hform, -⟩ := id hbest
  obtain ⟨v, hv, rfl⟩ := (bestAt_iff_hasValue hm hx' (length_of_standardForm hform) q').1 hbest
  have hloss := h.loss_ge hm (suits_of_length hx hlength) hs hg hlength hv.1
  rw [← hcost, lossAt] at hloss
  cases hgoal : m.goal with
  | minimize => simpa [hgoal, Goal.factor] using hloss
  | maximize =>
    rw [hgoal, Goal.factor] at hloss
    show _ ≤ _
    linarith

theorem Reports.bestAt (hm : m.Proper) {x : List (Exact F)} (hx : AllFinite x)
    (hlength : m.decisionCount = 0 ∨ m.decisionCount = x.length) {r : SolveResult (Exact F)}
    (h : m.Reports x r) (hs : r.status = .optimal) :
    m.BestAt x (m.objectiveAt (coord r.point)) :=
  (bestAt_iff_hasValue hm hx hlength _).2
    ⟨coord r.point, h.solves hm (suits_of_length hx hlength) hs, rfl⟩

end Model

namespace Backend

variable {σ : Type} [Host σ (Exact F)] {b : Backend σ (Exact F)} {m : Model (Exact F)}
  {x : List (Exact F)}

/-- Only decisions with one entry for every placeholder are optimized. -/
theorem optimize_length (b : Backend σ (Exact F)) (m : Model (Exact F)) (x : List (Exact F)) :
    (b.optimize m (some x)).Ensures
      (fun _ => m.decisionCount = 0 ∨ m.decisionCount = x.length) fun _ => True := by
  unfold optimize
  refine Act.ensures_lift_bind (fun form hform => ?_) fun _ => trivial
  exact fun ledger => (Settles.self _).mono (fun _ _ => Model.length_of_standardForm hform)
    fun _ h => h

/-- A model whose rows do not all stand at their positions is solved as the merged one. -/
theorem optimize_merged (b : Backend σ (Exact F)) (hm : m.Placed) (haligned : m.isAligned = false)
    (decision : Option (List (Exact F))) :
    b.optimize m decision = b.optimize m.merged decision := by
  unfold optimize
  rw [Model.standardForm_merged hm haligned]

/-- Every optimal result of a sound engine gives the optimal value, and its gradient, whatever
the duals, is a subgradient there. -/
theorem optimize_subgradient (host : Host.Sound σ F) (hb : b.Faithful) (hm : m.Placed)
    (hx : AllFinite x) :
    (b.optimize m (some x)).Ensures
      (fun r => r.status = .optimal → ∃ q g, r.objective = .finite q ∧ m.BestAt x q ∧
        m.recourseGradient r x.length = .ok g ∧ g.length = x.length ∧ AllFinite g ∧
        m.Supports x q g)
      fun _ => True := by
  intro ledger
  cases hresult : ((b.optimize m (some x)).run.run ledger).1 with
  | error f => trivial
  | ok r =>
    intro hs
    have hlength := (optimize_length b m x ledger).of_ok hresult
    cases haligned : m.isAligned with
    | true =>
      have hproper := hm.proper haligned
      have hreports := (optimize_ensures host hb hproper hx hlength ledger).of_ok hresult
      obtain ⟨hduals, hrows⟩ := hreports.duals_finite hs
      obtain ⟨g, hg, hg'⟩ := Model.exists_gradient hm hduals hrows hlength
      exact ⟨_, g, hreports.objective hproper hs, hreports.bestAt hproper hx hlength hs, hg,
        hg'.1, hg'.2, hreports.supports hproper hx hlength hs hg fun _ => rfl⟩
    | false =>
      have hproper := Model.merged_proper hm
      rw [optimize_merged b hm haligned] at hresult
      have hreports := (optimize_ensures host hb hproper hx hlength ledger).of_ok hresult
      obtain ⟨hduals, hrows⟩ := hreports.duals_finite hs
      rw [Model.length_rows_merged] at hrows
      obtain ⟨g, hg, hg'⟩ := Model.exists_gradient hm hduals hrows hlength
      obtain ⟨g', hmerged, -⟩ := Model.exists_gradient hproper.placed hduals
        (hrows.trans (Model.length_rows_merged m).symm) hlength
      refine ⟨_, g, hreports.objective hproper hs,
        (Model.bestAt_merged hm haligned x _).2 (hreports.bestAt hproper hx hlength hs), hg,
        hg'.1, hg'.2, fun x' q' hx' hq' => ?_⟩
      exact hreports.supports hproper hx hlength hs hmerged
        (Model.costAt_gradient_merged hm hduals hrows hlength hg hmerged) x' q' hx'
        ((Model.bestAt_merged hm haligned x' q').1 hq')

/-- At most one unit more than the decision is sold: a row of `saleModel`. -/
def saleRow : Row (Exact ℚ) where
  expr := ⟨[(0, .finite 1), (1, .finite (-1))], .finite 0, []⟩
  relation := .atMost
  bound := .finite 1
  name := none
  index := 1
  tag := 0

/-- A model to maximize with the placeholder between two columns, and with a row that was added
twice. -/
def saleModel : Model (Exact ℚ) where
  name := "sale"
  columns := [⟨0, .finite 0, .finite 5, none, none⟩, ⟨1, .minusInfinity, .plusInfinity, none, some 0⟩,
    ⟨2, .finite 0, .plusInfinity, none, none⟩]
  rows := [saleRow, saleRow]
  objective? := some ⟨[(0, .finite 2), (1, .finite 1), (2, .finite (-1))], .finite 1, []⟩
  goal := .maximize
  fixed := none
  result := none

/-- What an engine finds for `saleModel` at the decision three: the row limits the sale. -/
def saleTranscript : Transcript ℚ where
  findings :=
    [.optimal
      { point := [.finite (7 / 2), .finite 3, .finite 0]
        value := .finite (-10)
        upperMarginals := [.finite 0, .finite (-1)]
        equalMarginals := []
        lowerMarginals := [.finite 0, .finite 0, .finite 1]
        boundMarginals := [.finite 0, .finite (-3), .finite 0]
        iterations := 1 }]

/-- The sale at the decision three is worth eleven, and three more for every further unit of the
decision at most. -/
theorem saleModel_subgradient : saleModel.Placed ∧ saleModel.isAligned = false ∧
    ∃ r g, ((Backend.plain.optimize saleModel (some [.finite 3])).run.run
        ⟨saleTranscript, [], 0⟩).1 = .ok r ∧
      r.status = .optimal ∧ saleModel.recourseGradient r 1 = .ok g ∧ coord g 0 = 3 ∧
      saleModel.BestAt [.finite 3] 11 ∧ saleModel.Supports [.finite 3] 11 g := by
  have hplaced : saleModel.Placed := by decide +kernel
  refine ⟨hplaced, by decide +kernel, ?_⟩
  have hrun : ((Backend.plain.optimize saleModel (some [.finite 3])).run.run
      ⟨saleTranscript, [], 0⟩).1.toOption.any (fun r => decide (r.status = .optimal ∧
        r.objective = .finite 11 ∧ (saleModel.recourseGradient r 1).toOption.any fun g =>
          decide (coord g 0 = 3))) = true := by decide +kernel
  cases hr : ((Backend.plain.optimize saleModel (some [.finite 3])).run.run
      ⟨saleTranscript, [], 0⟩).1 with
  | error f => rw [hr] at hrun; cases hrun
  | ok r =>
    rw [hr] at hrun
    obtain ⟨hs, hobjective, hslope⟩ := of_decide_eq_true hrun
    have hfinite : AllFinite ([.finite 3] : List (Exact ℚ)) := by decide +kernel
    obtain ⟨q, g, hq, hbest, hg, -, -, hsupports⟩ := (optimize_subgradient Transcript.sound
      Backend.plain_faithful hplaced hfinite _).of_ok hr hs
    obtain rfl : q = 11 := Exact.finite.inj (hq.symm.trans hobjective)
    have hg : saleModel.recourseGradient r 1 = .ok g := hg
    rw [hg] at hslope
    exact ⟨r, g, rfl, hs, hg, of_decide_eq_true hslope, hbest, hsupports⟩

end Backend

end Recourse
