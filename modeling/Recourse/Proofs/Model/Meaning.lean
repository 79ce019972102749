/-
  Proofs/Model/Meaning.lean --- what models mean.

  A point fits a model at a decision when it satisfies the rows and the bounds and
  carries the decision at the placeholders.  `Model.Coherent` says that a model speaks
  of its own columns only: columns stand at their positions, expressions mention them
  and nothing else, and the placeholders stand for the decisions in order.
  `Model.Proper` adds what building a model column by column and row by row out of
  numbers guarantees where no row is added twice.  Infinite bounds and right-hand sides
  are admitted, of either sign; they limit nothing.
-/
import Recourse.Model.Form
import Recourse.Proofs.Linear.Meaning

set_option autoImplicit false
set_option linter.unusedSectionVars false

namespace Recourse

variable {F : Type} [Field F] [LinearOrder F] [IsStrictOrderedRing F] [FloorRing F]

/-! ## Expressions and rows -/

namespace LinearExpr

/-- Terms of numbers that mention columns below `n`, each once. -/
@[mk_iff]
structure ProperTerms (terms : Table Nat (Exact F)) (n : Nat) : Prop where
  /-- They mention no other columns. -/
  within : SparseRow.Within terms n
  /-- The coefficients are numbers. -/
  finite : ∀ t ∈ terms, Scalar.isFinite t.2 = true
  /-- Each column is mentioned once. -/
  nodup : (terms.map (·.1)).Nodup

instance decidableProperTerms (terms : Table Nat (Exact F)) (n : Nat) :
    Decidable (ProperTerms terms n) :=
  have : Decidable (SparseRow.Within terms n) :=
    inferInstanceAs (Decidable (∀ t ∈ terms, t.1 < n))
  decidable_of_iff _ (properTerms_iff terms n).symm

theorem ProperTerms.mono {terms : Table Nat (Exact F)} {n n' : Nat} (h : ProperTerms terms n)
    (hn : n ≤ n') : ProperTerms terms n' :=
  ⟨fun t ht => (h.within t ht).trans_le hn, h.finite, h.nodup⟩

/-- The number an expression takes at a point. -/
def valueAt (e : LinearExpr (Exact F)) (v : Nat → F) : F :=
  SparseRow.valueAt e.terms v + e.constant.value

/-- An expression over the first `n` columns, made of numbers, with each column once. -/
@[mk_iff]
structure Proper (e : LinearExpr (Exact F)) (n : Nat) : Prop where
  /-- It mentions no other columns. -/
  within : SparseRow.Within e.terms n
  /-- Its coefficients are numbers. -/
  finite : ∀ t ∈ e.terms, Scalar.isFinite t.2 = true
  /-- Each column is mentioned once. -/
  nodup : (e.terms.map (·.1)).Nodup
  /-- Its constant is a number. -/
  constant : Scalar.isFinite e.constant = true

instance decidableProper (e : LinearExpr (Exact F)) (n : Nat) : Decidable (e.Proper n) :=
  have : Decidable (SparseRow.Within e.terms n) :=
    inferInstanceAs (Decidable (∀ t ∈ e.terms, t.1 < n))
  decidable_of_iff _ (proper_iff e n).symm

theorem Proper.mono {e : LinearExpr (Exact F)} {n n' : Nat} (h : e.Proper n) (hn : n ≤ n') :
    e.Proper n' :=
  ⟨fun t ht => (h.within t ht).trans_le hn, h.finite, h.nodup, h.constant⟩

/-- The library's own evaluation of an expression agrees. -/
theorem eval_finite {e : LinearExpr (Exact F)} {n : Nat} (h : e.Proper n) (v : Nat → F) :
    e.eval (fun j => .finite (v j)) = .finite (e.valueAt v) := by
  have hterms : Scalar.sum (e.terms.map fun t => t.2 * .finite (v t.1)) =
      .finite (SparseRow.valueAt e.terms v) := SparseRow.eval_finite h.finite v
  rw [eval, hterms, ← Exact.finite_value h.constant, valueAt]
  rfl

/-- The coefficient of a column among terms that mention each column once. -/
theorem find?_value {terms : Table Nat (Exact F)} (h : (terms.map (·.1)).Nodup) (j : Nat) :
    ((terms.find? j).getD 0).value = SparseRow.coefficientAt terms j := by
  induction terms with
  | nil => rfl
  | cons t rest ih =>
    obtain ⟨k, a⟩ := t
    rw [List.map_cons, List.nodup_cons] at h
    by_cases hj : j = k
    · have hrest : SparseRow.coefficientAt rest j = 0 := by
        apply List.sum_eq_zero
        intro x hx
        obtain ⟨t, ht, rfl⟩ := List.mem_map.1 hx
        refine if_neg fun hk => h.1 ?_
        rw [← hj, ← hk]
        exact List.mem_map.2 ⟨t, ht, rfl⟩
      have hcons : SparseRow.coefficientAt ((k, a) :: rest) j = a.value +
          SparseRow.coefficientAt rest j := by
        simp [SparseRow.coefficientAt, hj]
      rw [hcons, hrest, add_zero]
      simp [Table.find?, hj]
    · have hcons : SparseRow.coefficientAt ((k, a) :: rest) j =
          SparseRow.coefficientAt rest j := by
        simp [SparseRow.coefficientAt, Ne.symm hj]
      rw [hcons, ← ih h.2]
      simp [Table.find?, hj]

theorem coefficient_value {e : LinearExpr (Exact F)} {n : Nat} (h : e.Proper n) (j : Nat) :
    (e.coefficient j).value = SparseRow.coefficientAt e.terms j := find?_value h.nodup j

theorem isFinite_coefficient {e : LinearExpr (Exact F)} {n : Nat} (h : e.Proper n) (j : Nat) :
    Scalar.isFinite (e.coefficient j) = true := by
  have hterms : ∀ terms : Table Nat (Exact F), (∀ t ∈ terms, Scalar.isFinite t.2 = true) →
      Scalar.isFinite ((terms.find? j).getD 0) = true := by
    intro terms hterms
    induction terms with
    | nil => simp [Table.find?, Exact.zero_eq]
    | cons t rest ih =>
      by_cases hj : j = t.1
      · simpa [Table.find?, hj] using hterms t List.mem_cons_self
      · simpa [Table.find?, hj] using ih fun t ht => hterms t (List.mem_cons_of_mem _ ht)
  exact hterms e.terms h.finite

/-- The costs of the columns, read off an expression one by one. -/
theorem costAt_coefficients {e : LinearExpr (Exact F)} {n : Nat} (h : e.Proper n) (v : Nat → F) :
    costAt ((List.range n).map e.coefficient) v = SparseRow.valueAt e.terms v := by
  rw [SparseRow.valueAt_eq_sum h.within, costAt, List.length_map, List.length_range]
  apply Finset.sum_congr rfl
  intro j hj
  rw [coord, ← coefficient_value h]
  simp [List.getD_eq_getElem?_getD, Finset.mem_range.1 hj]

end LinearExpr

/-- A number stands in a relation to a bound.  A bound that is no number, an infinity
among them, bounds nothing. -/
def Relation.Holds (r : Relation) (a : F) (b : Exact F) : Prop :=
  match r.text with
  | "=" | "==" => b.RespectsLower a ∧ b.RespectsUpper a
  | "<=" | "<" => b.RespectsUpper a
  | ">=" | ">" => b.RespectsLower a
  | _ => False

theorem Relation.holds_iff (r : Relation) (a : F) (b : Exact F) :
    r.Holds a b ↔ (r.text ∈ ["=", "==", ">=", ">"] ∨ r.text ∈ ["<=", "<"]) ∧
      (r.text ∈ ["=", "==", ">=", ">"] → b.RespectsLower a) ∧
      (r.text ∈ ["=", "==", "<=", "<"] → b.RespectsUpper a) := by
  unfold Relation.Holds
  split <;> simp_all

instance Relation.decidableHolds (r : Relation) (a : F) (b : Exact F) : Decidable (r.Holds a b) :=
  decidable_of_iff _ (r.holds_iff a b).symm

/-- A relation that rows can have. -/
def Relation.IsKnown (r : Relation) : Prop := r.text ∈ ["=", "==", "<=", "<", ">=", ">"]

/-- A row against its right-hand side: the bound less the constant of the row, which is an
infinity where one of the two is. -/
def Row.side (r : Row (Exact F)) : Exact F := r.bound - r.expr.constant

/-- A point satisfies a row. -/
def Row.Holds (r : Row (Exact F)) (v : Nat → F) : Prop :=
  r.relation.Holds (SparseRow.valueAt r.expr.terms v) r.side

instance Row.decidableHolds (r : Row (Exact F)) (v : Nat → F) : Decidable (r.Holds v) :=
  inferInstanceAs (Decidable (r.relation.Holds (SparseRow.valueAt r.expr.terms v) r.side))

/-! ## Models -/

/-- The factor of a goal, in the field. -/
def Goal.factor : Goal → F
  | .minimize => 1
  | .maximize => -1

theorem Goal.sign_eq (g : Goal) : (g.sign : Exact F) = .finite g.factor := by
  cases g <;> rfl

@[simp] theorem Goal.factor_mul_self (g : Goal) : (g.factor : F) * g.factor = 1 := by
  cases g <;> simp [factor]

namespace Model

/-- A value for a column that the model admits: the decision at a placeholder, else
anything between the bounds. -/
def Admits (x : Nat → F) (c : Variable (Exact F)) (a : F) : Prop :=
  match c.decision with
  | some j => a = x j
  | none => c.lower.RespectsLower a ∧ c.upper.RespectsUpper a

instance decidableAdmits (x : Nat → F) (c : Variable (Exact F)) (a : F) :
    Decidable (Admits x c a) :=
  decidable_of_iff ((∀ j ∈ c.decision, a = x j) ∧
    (c.decision = none → c.lower.RespectsLower a ∧ c.upper.RespectsUpper a)) (by
      unfold Admits
      cases c.decision <;> simp)

/-- A point satisfies every row and bound of a model and carries a decision at the
placeholders. -/
@[mk_iff]
structure Fits (m : Model (Exact F)) (x v : Nat → F) : Prop where
  /-- Every row. -/
  rows : ∀ r ∈ m.rows, r.Holds v
  /-- Every column. -/
  columns : ∀ c ∈ m.columns, Admits x c (v c.index)

instance decidableFits (m : Model (Exact F)) (x v : Nat → F) : Decidable (m.Fits x v) :=
  decidable_of_iff _ (fits_iff m x v).symm

/-- The objective of a model at a point, in its own sense. -/
def objectiveAt (m : Model (Exact F)) (v : Nat → F) : F := m.objective.valueAt v

/-- The objective turned into minimization. -/
def lossAt (m : Model (Exact F)) (v : Nat → F) : F := m.goal.factor * m.objectiveAt v

/-- A point fits a model at a decision, and no other that does is better. -/
def Solves (m : Model (Exact F)) (x v : Nat → F) : Prop :=
  m.Fits x v ∧ ∀ w, m.Fits x w → m.lossAt v ≤ m.lossAt w

/-- A model has an optimum at a decision, with some value. -/
def HasValue (m : Model (Exact F)) (x : Nat → F) (q : F) : Prop :=
  ∃ v, m.Solves x v ∧ m.objectiveAt v = q

/-- At a decision there are points of any loss, however low. -/
def UnboundedAt (m : Model (Exact F)) (x : Nat → F) : Prop :=
  ∀ level : F, ∃ v, m.Fits x v ∧ m.lossAt v < level

/-- A model that mentions its own columns and no others, with numbers as coefficients. -/
@[mk_iff]
structure Coherent (m : Model (Exact F)) : Prop where
  /-- Columns stand at their positions. -/
  numbered : ∀ i (h : i < m.columns.length), m.columns[i].index = i
  /-- The placeholders stand for the decisions in order, each once. -/
  placeholders : m.columns.filterMap (·.decision) = List.range m.decisionCount
  /-- Rows are sums of columns of the model; their constants and bounds may be infinite. -/
  rows : ∀ r ∈ m.rows, LinearExpr.ProperTerms r.expr.terms m.columns.length
  /-- So is the objective, and its constant is a number. -/
  objective : m.objective.Proper m.columns.length

instance decidableCoherent (m : Model (Exact F)) : Decidable m.Coherent :=
  decidable_of_iff _ (coherent_iff m).symm

/-- A model built column by column and row by row, out of numbers. -/
@[mk_iff]
structure Proper (m : Model (Exact F)) : Prop where
  /-- Columns stand at their positions. -/
  numbered : ∀ i (h : i < m.columns.length), m.columns[i].index = i
  /-- No column has crossed bounds. -/
  uncrossed : ∀ c ∈ m.columns, Scalar.less c.upper c.lower = false
  /-- The placeholders stand for the decisions in order, each once. -/
  placeholders : m.columns.filterMap (·.decision) = List.range m.decisionCount
  /-- Rows stand at their positions. -/
  aligned : ∀ i (h : i < m.rows.length), m.rows[i].index = (i : Int)
  /-- Rows have known relations. -/
  relations : ∀ r ∈ m.rows, r.relation.IsKnown
  /-- Rows are sums of columns of the model; their constants and bounds may be infinite. -/
  rows : ∀ r ∈ m.rows, LinearExpr.ProperTerms r.expr.terms m.columns.length
  /-- So is the objective, and its constant is a number. -/
  objective : m.objective.Proper m.columns.length

instance decidableProper (m : Model (Exact F)) : Decidable m.Proper :=
  have : DecidablePred Relation.IsKnown := fun r =>
    inferInstanceAs (Decidable (r.text ∈ ["=", "==", "<=", "<", ">=", ">"]))
  decidable_of_iff _ (proper_iff m).symm

/-- A solution of a model has the value of the model. -/
theorem HasValue.unique {m : Model (Exact F)} {x : Nat → F} {q q' : F} (h : m.HasValue x q)
    (h' : m.HasValue x q') : q = q' := by
  obtain ⟨v, hv, rfl⟩ := h
  obtain ⟨w, hw, rfl⟩ := h'
  have heq : m.lossAt v = m.lossAt w := le_antisymm (hv.2 w hw.1) (hw.2 v hv.1)
  have hfactor := m.goal.factor_mul_self (F := F)
  rw [lossAt, lossAt] at heq
  calc m.objectiveAt v = m.goal.factor * (m.goal.factor * m.objectiveAt v) := by
        rw [← mul_assoc, hfactor, one_mul]
    _ = m.goal.factor * (m.goal.factor * m.objectiveAt w) := by rw [heq]
    _ = m.objectiveAt w := by rw [← mul_assoc, hfactor, one_mul]

/-- A model with an optimum has a bound. -/
theorem HasValue.not_unboundedAt {m : Model (Exact F)} {x : Nat → F} {q : F}
    (h : m.HasValue x q) : ¬ m.UnboundedAt x := by
  obtain ⟨v, hv, -⟩ := h
  intro hunbounded
  obtain ⟨w, hw, hless⟩ := hunbounded (m.lossAt v)
  exact absurd (hv.2 w hw) (not_le.2 hless)

theorem Coherent.decision_lt {m : Model (Exact F)} (hm : m.Coherent) {c : Variable (Exact F)}
    (hc : c ∈ m.columns) {j : Nat} (hj : c.decision = some j) : j < m.decisionCount := by
  have hmem : j ∈ m.columns.filterMap (·.decision) := List.mem_filterMap.2 ⟨c, hc, hj⟩
  rw [hm.placeholders] at hmem
  exact List.mem_range.1 hmem

/-- Fitting depends on the decisions that a model refers to and on the columns it has. -/
theorem Coherent.fits_congr {m : Model (Exact F)} (hm : m.Coherent) {x x' v v' : Nat → F}
    (hx : ∀ j < m.decisionCount, x j = x' j) (hv : ∀ k < m.columns.length, v k = v' k)
    (h : m.Fits x v) : m.Fits x' v' := by
  constructor
  · intro r hr
    have hrow := h.rows r hr
    rw [Row.Holds] at hrow ⊢
    rwa [← SparseRow.valueAt_congr fun t ht => hv _ ((hm.rows r hr).within t ht)]
  · intro c hc
    have hcolumn := h.columns c hc
    obtain ⟨i, hi, rfl⟩ := List.getElem_of_mem hc
    rw [hm.numbered i hi] at hcolumn ⊢
    unfold Admits at hcolumn ⊢
    cases hd : m.columns[i].decision with
    | none => rwa [hd, hv i hi] at hcolumn
    | some j =>
      rw [hd] at hcolumn
      simp only at hcolumn ⊢
      rw [← hv i hi, hcolumn, hx j (hm.decision_lt hc hd)]

theorem Coherent.objectiveAt_congr {m : Model (Exact F)} (hm : m.Coherent) {v v' : Nat → F}
    (hv : ∀ k < m.columns.length, v k = v' k) : m.objectiveAt v = m.objectiveAt v' := by
  rw [objectiveAt, objectiveAt, LinearExpr.valueAt, LinearExpr.valueAt,
    SparseRow.valueAt_congr fun t ht => hv _ (hm.objective.within t ht)]

/-! ## Proper models -/

theorem Proper.coherent {m : Model (Exact F)} (hm : m.Proper) : m.Coherent :=
  ⟨hm.numbered, hm.placeholders, hm.rows, hm.objective⟩

/-- A coherent model is proper when its bounds do not cross and its rows are in place. -/
theorem Coherent.proper {m : Model (Exact F)} (hm : m.Coherent)
    (huncrossed : ∀ c ∈ m.columns, Scalar.less c.upper c.lower = false)
    (haligned : ∀ i (h : i < m.rows.length), m.rows[i].index = (i : Int))
    (hrelations : ∀ r ∈ m.rows, r.relation.IsKnown) : m.Proper :=
  ⟨hm.numbered, huncrossed, hm.placeholders, haligned, hrelations, hm.rows, hm.objective⟩

theorem Proper.decision_lt {m : Model (Exact F)} (hm : m.Proper) {c : Variable (Exact F)}
    (hc : c ∈ m.columns) {j : Nat} (hj : c.decision = some j) : j < m.decisionCount :=
  hm.coherent.decision_lt hc hj

theorem Proper.fits_congr {m : Model (Exact F)} (hm : m.Proper) {x x' v v' : Nat → F}
    (hx : ∀ j < m.decisionCount, x j = x' j) (hv : ∀ k < m.columns.length, v k = v' k)
    (h : m.Fits x v) : m.Fits x' v' := hm.coherent.fits_congr hx hv h

end Model

end Recourse
