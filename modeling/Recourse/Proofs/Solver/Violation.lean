/-
  Proofs/Solver/Violation.lean --- phase one measures the violation of a model.

  `StandardForm.violationAt` adds up how far a point misses each row.  The slacks of the
  phase-one problem pay for exactly that: no feasible point of the problem costs less than
  the violation of its columns (`PhaseOne.violationAt_le_cost`), and every point within the
  bounds can be completed by slacks that cost no more (`PhaseOne.exists_feasible`).  So the
  problem always has an optimum, its value is the least violation, and where that is zero
  the model is feasible.  `Model.phaseOne_separates` puts this together with the slope.
-/
import Recourse.Proofs.Linear.Handover
import Recourse.Proofs.Model.Posed
import Recourse.Proofs.Model.Subgradient
import Recourse.Proofs.Solver.PhaseOne
import Mathlib.Algebra.BigOperators.Intervals

set_option autoImplicit false
set_option linter.unusedSectionVars false

open scoped BigOperators

namespace Recourse

variable {F : Type} [Field F] [LinearOrder F] [IsStrictOrderedRing F] [FloorRing F]

/-! ## How far a row is missed -/

namespace Relation

/-- How far a number is from standing in a relation to a bound. -/
def violation (r : Relation) (a b : F) : F :=
  match r.text with
  | "=" | "==" => |a - b|
  | "<=" | "<" => max (a - b) 0
  | ">=" | ">" => max (b - a) 0
  | _ => 0

theorem violation_nonneg (r : Relation) (a b : F) : 0 ≤ r.violation a b := by
  unfold violation
  split
  · exact abs_nonneg _
  · exact abs_nonneg _
  all_goals first | exact le_max_right _ _ | exact le_refl _

/-- A known relation is missed by nothing exactly where it holds. -/
theorem violation_eq_zero_iff {r : Relation} (hr : r.IsKnown) (a b : F) :
    r.violation a b = 0 ↔ r.Holds a (.finite b) := by
  have hequal : |a - b| = 0 ↔ b ≤ a ∧ a ≤ b := by
    rw [abs_eq_zero, sub_eq_zero, le_antisymm_iff, and_comm]
  unfold IsKnown at hr
  unfold violation Holds
  split <;> simp_all

/-- A number that is too small satisfies a relation once its violation is added. -/
theorem holds_add_violation {r : Relation} (hr : r.IsKnown) {a b : F} (h : a ≤ b) :
    r.Holds (a + r.violation a b) (.finite b) := by
  have hsub : a - b ≤ 0 := sub_nonpos.2 h
  have hmax : max (b - a) 0 = b - a := max_eq_left (sub_nonneg.2 h)
  unfold IsKnown at hr
  unfold violation Holds
  split <;> simp_all [abs_of_nonpos hsub]

/-- A number that is too large satisfies a relation once its violation is taken away. -/
theorem holds_sub_violation {r : Relation} (hr : r.IsKnown) {a b : F} (h : b ≤ a) :
    r.Holds (a - r.violation a b) (.finite b) := by
  have hsub : 0 ≤ a - b := sub_nonneg.2 h
  have hmax : max (a - b) 0 = a - b := max_eq_left hsub
  unfold IsKnown at hr
  unfold violation Holds
  split <;> simp_all [abs_of_nonneg hsub]

end Relation

namespace PhaseOne

/-! ## The slacks of one row -/

/-- The terms of the slacks of a row. -/
def slackTerms (next : Nat) (r : Relation) : SparseRow (Exact F) :=
  (slackSigns r : List (Exact F)).zipIdx.map fun s => (next + s.2, s.1)

/-- The number of slacks of a row. -/
def slackCount (r : Relation) : Nat :=
  match r with
  | .atMost | .atLeast => 1
  | _ => 2

theorem length_slackSigns (r : Relation) :
    (slackSigns r : List (Exact F)).length = slackCount r := by
  cases r <;> rfl

theorem valueAt_slackTerms (next : Nat) (r : Relation) (v : Nat → F) :
    SparseRow.valueAt (slackTerms next r) v =
      match r with
      | .atMost => -v next
      | .atLeast => v next
      | _ => v next - v (next + 1) := by
  cases r <;> simp [slackTerms, slackSigns, Exact.one_eq, sub_eq_add_neg]

theorem sum_slackCount (next : Nat) (r : Relation) (v : Nat → F) :
    ∑ j ∈ Finset.Ico next (next + slackCount r), v j =
      match r with
      | .atMost | .atLeast => v next
      | _ => v next + v (next + 1) := by
  cases r <;> simp [slackCount, Finset.sum_Ico_eq_sum_range, Finset.sum_range_succ]

/-- Slacks with which a row holds pay for its violation. -/
theorem violation_le_slacks {r : Relation} {next : Nat} {a b : F} {v : Nat → F}
    (hv : ∀ j, next ≤ j → j < next + slackCount r → 0 ≤ v j)
    (h : r.Holds (a + SparseRow.valueAt (slackTerms next r) v) (.finite b)) :
    r.violation a b ≤ ∑ j ∈ Finset.Ico next (next + slackCount r), v j := by
  have hfirst : 0 ≤ v next := hv next le_rfl (by cases r <;> simp [slackCount])
  rw [valueAt_slackTerms] at h
  rw [sum_slackCount]
  unfold Relation.Holds at h
  unfold Relation.violation
  cases r with
  | atMost =>
    simp [Relation.text] at h ⊢
    constructor <;> linarith
  | atLeast =>
    simp [Relation.text] at h ⊢
    constructor <;> linarith
  | equal =>
    have hsecond : 0 ≤ v (next + 1) := hv _ (Nat.le_succ _) (by simp [slackCount])
    simp [Relation.text] at h ⊢
    rw [abs_le]
    constructor <;> linarith
  | other s =>
    have hsecond : 0 ≤ v (next + 1) := hv _ (Nat.le_succ _) (by simp [slackCount])
    simp only [Relation.text] at h ⊢
    -- Any other relation has two slacks, also where its text is that of an inequality.
    split at h <;> simp at h ⊢
    · rw [abs_le]
      constructor <;> linarith
    · rw [abs_le]
      constructor <;> linarith
    all_goals constructor <;> linarith

/-- Slacks with which a known relation holds, and which add up to its violation. -/
def fill (r : Relation) (a b : F) (k : Nat) : F :=
  match r with
  | .atMost | .atLeast => r.violation a b
  | _ => if k = 0 ↔ a ≤ b then r.violation a b else 0

theorem fill_nonneg (r : Relation) (a b : F) (k : Nat) : 0 ≤ fill r a b k := by
  unfold fill
  split
  · exact Relation.violation_nonneg _ a b
  · exact Relation.violation_nonneg _ a b
  · split
    · exact Relation.violation_nonneg _ a b
    · exact le_rfl

theorem sum_fill {r : Relation} {next : Nat} {a b : F} {v : Nat → F}
    (hv : ∀ k < slackCount r, v (next + k) = fill r a b k) :
    ∑ j ∈ Finset.Ico next (next + slackCount r), v j = r.violation a b := by
  rw [sum_slackCount]
  have hfirst : v next = fill r a b 0 := hv 0 (by cases r <;> simp [slackCount])
  cases r with
  | atMost => exact hfirst
  | atLeast => exact hfirst
  | _ =>
    have hsecond := hv 1 (by simp [slackCount])
    simp only [hfirst, hsecond, fill]
    by_cases hab : a ≤ b <;> simp [hab]

theorem holds_fill {r : Relation} (hr : r.IsKnown) {next : Nat} {a b : F} {v : Nat → F}
    (hv : ∀ k < slackCount r, v (next + k) = fill r a b k) :
    r.Holds (a + SparseRow.valueAt (slackTerms next r) v) (.finite b) := by
  rw [valueAt_slackTerms]
  have hfirst : v next = fill r a b 0 := hv 0 (by cases r <;> simp [slackCount])
  cases r with
  | atMost =>
    have hle : a ≤ b + Relation.violation .atMost a b :=
      sub_le_iff_le_add'.1 (le_max_left (a - b) 0)
    rw [fill] at hfirst
    simpa [hfirst, Relation.Holds, Relation.text] using hle
  | atLeast =>
    have hle : b ≤ a + Relation.violation .atLeast a b :=
      sub_le_iff_le_add'.1 (le_max_left (b - a) 0)
    rw [fill] at hfirst
    simpa [hfirst, Relation.Holds, Relation.text] using hle
  | _ =>
    have hsecond := hv 1 (by simp [slackCount])
    simp only [hfirst, hsecond, fill]
    by_cases hab : a ≤ b
    · simpa [hab] using Relation.holds_add_violation hr hab
    · simpa [hab, sub_eq_add_neg] using Relation.holds_sub_violation hr (not_le.1 hab).le

/-! ## The slacks of all rows -/

/-- The rows of a problem with slacks, the first of them apart. -/
theorem addSlacks_cons (next : Nat) (r : SparseRow (Exact F) × Relation)
    (rows : List (SparseRow (Exact F) × Relation)) :
    (addSlacks next (r :: rows)).1 =
        (r.1 ++ slackTerms next r.2) :: (addSlacks (next + slackCount r.2) rows).1 ∧
      (addSlacks next (r :: rows)).2 = (addSlacks (next + slackCount r.2) rows).2 := by
  rw [← length_slackSigns (F := F)]
  exact ⟨rfl, rfl⟩

/-- The total violation of rows with these sides. -/
def totalViolation (rows : List (SparseRow (Exact F) × Relation)) (sides : Nat → F)
    (v : Nat → F) : F :=
  ∑ i ∈ Finset.range rows.length, (rows.getD i ([], .equal)).2.violation
    (SparseRow.valueAt (rows.getD i ([], .equal)).1 v) (sides i)

theorem totalViolation_cons (r : SparseRow (Exact F) × Relation)
    (rows : List (SparseRow (Exact F) × Relation)) (sides v : Nat → F) :
    totalViolation (r :: rows) sides v = r.2.violation (SparseRow.valueAt r.1 v) (sides 0) +
      totalViolation rows (fun i => sides (i + 1)) v := by
  rw [totalViolation, List.length_cons, Finset.sum_range_succ', add_comm]
  rfl

theorem totalViolation_congr {rows : List (SparseRow (Exact F) × Relation)} {n : Nat}
    (hwithin : ∀ r ∈ rows, r.1.Within n) {sides v w : Nat → F} (h : ∀ j < n, v j = w j) :
    totalViolation rows sides v = totalViolation rows sides w := by
  refine Finset.sum_congr rfl fun i hi => ?_
  have hi := Finset.mem_range.1 hi
  rw [List.getD_eq_getElem _ _ hi, SparseRow.valueAt_congr fun t ht =>
    h t.1 (hwithin _ (List.getElem_mem hi) t ht)]

/-- A point satisfies rows that have their slacks. -/
def RowsHold (next : Nat) (rows : List (SparseRow (Exact F) × Relation)) (sides v : Nat → F) :
    Prop :=
  ∀ i < rows.length, (rows.getD i ([], .equal)).2.Holds
    (SparseRow.valueAt ((addSlacks next rows).1.getD i []) v) (.finite (sides i))

theorem rowsHold_cons (next : Nat) (r : SparseRow (Exact F) × Relation)
    (rows : List (SparseRow (Exact F) × Relation)) (sides v : Nat → F) :
    RowsHold next (r :: rows) sides v ↔
      r.2.Holds (SparseRow.valueAt r.1 v + SparseRow.valueAt (slackTerms next r.2) v)
          (.finite (sides 0)) ∧
        RowsHold (next + slackCount r.2) rows (fun i => sides (i + 1)) v := by
  rw [RowsHold, (addSlacks_cons next r rows).1]
  constructor
  · intro h
    refine ⟨?_, fun i hi => h (i + 1) (Nat.succ_lt_succ hi)⟩
    rw [← SparseRow.valueAt_append]
    exact h 0 (Nat.succ_pos _)
  · rintro ⟨hfirst, hrest⟩ i hi
    cases i with
    | zero =>
      rw [← SparseRow.valueAt_append] at hfirst
      exact hfirst
    | succ i => exact hrest i (Nat.lt_of_succ_lt_succ hi)

/-- Slacks with which all rows hold pay for their total violation. -/
theorem totalViolation_le_slacks (rows : List (SparseRow (Exact F) × Relation)) {next : Nat}
    {sides v : Nat → F} (hv : ∀ j, next ≤ j → j < (addSlacks next rows).2 → 0 ≤ v j)
    (h : RowsHold next rows sides v) :
    totalViolation rows sides v ≤ ∑ j ∈ Finset.Ico next (addSlacks next rows).2, v j := by
  induction rows generalizing next sides with
  | nil => simp [totalViolation, addSlacks]
  | cons r rows ih =>
    rw [(addSlacks_cons next r rows).2] at hv ⊢
    have hlast : next + slackCount r.2 ≤ (addSlacks (next + slackCount r.2) rows).2 :=
      (addSlacks_spec _ _).1
    obtain ⟨hfirst, hrest⟩ := (rowsHold_cons next r rows sides v).1 h
    rw [totalViolation_cons, ← Finset.sum_Ico_consecutive v (Nat.le_add_right _ _) hlast]
    refine add_le_add (violation_le_slacks (fun j hj hlt => hv j hj (hlt.trans_le hlast)) hfirst)
      (ih (fun j hj hlt => hv j (by omega) hlt) hrest)

/-- Any point can be completed by slacks with which all rows hold, and which add up to the total
violation. -/
theorem exists_slacks (rows : List (SparseRow (Exact F) × Relation)) {n next : Nat}
    (hwithin : ∀ r ∈ rows, r.1.Within n) (hknown : ∀ r ∈ rows, r.2.IsKnown) (hn : n ≤ next)
    (sides w : Nat → F) :
    ∃ v : Nat → F, (∀ j < next, v j = w j) ∧ (∀ j, next ≤ j → 0 ≤ v j) ∧
      RowsHold next rows sides v ∧
      ∑ j ∈ Finset.Ico next (addSlacks next rows).2, v j = totalViolation rows sides w := by
  induction rows generalizing next sides w with
  | nil =>
    exact ⟨fun j => if j < next then w j else 0, fun j hj => if_pos hj,
      fun j hj => (if_neg (not_lt.2 hj)).ge, fun i hi => absurd hi (Nat.not_lt_zero i),
      by simp [totalViolation, addSlacks]⟩
  | cons r rows ih =>
    obtain ⟨hr, hrows⟩ := List.forall_mem_cons.1 hwithin
    obtain ⟨hrelation, hrelations⟩ := List.forall_mem_cons.1 hknown
    have hnext : n ≤ next + slackCount r.2 := Nat.le_add_right_of_le hn
    -- The slacks of the first row come first; the others are chosen behind them.
    obtain ⟨v, hv, hnonneg, hrest, hsum⟩ := ih hrows hrelations hnext
      (fun i => sides (i + 1)) fun j => if j < next then w j else
        fill r.2 (SparseRow.valueAt r.1 w) (sides 0) (j - next)
    have hbelow : ∀ j < next, v j = w j := fun j hj =>
      (hv j (Nat.lt_add_right _ hj)).trans (if_pos hj)
    have hfill : ∀ k < slackCount r.2, v (next + k) =
        fill r.2 (SparseRow.valueAt r.1 w) (sides 0) k := by
      intro k hk
      rw [hv _ (Nat.add_lt_add_left hk _), if_neg (by omega), Nat.add_sub_cancel_left]
    have hvalue : SparseRow.valueAt r.1 v = SparseRow.valueAt r.1 w :=
      SparseRow.valueAt_congr fun t ht => hbelow t.1 ((hr t ht).trans_le hn)
    refine ⟨v, hbelow, fun j hj => ?_, ?_, ?_⟩
    · rcases lt_or_ge j (next + slackCount r.2) with hlt | hge
      · obtain ⟨k, rfl⟩ := Nat.exists_eq_add_of_le hj
        rw [hfill k (by omega)]
        exact fill_nonneg _ _ _ _
      · exact hnonneg j hge
    · rw [rowsHold_cons, hvalue]
      exact ⟨holds_fill hrelation hfill, hrest⟩
    · rw [(addSlacks_cons next r rows).2, ← Finset.sum_Ico_consecutive v (Nat.le_add_right _ _)
        (addSlacks_spec _ _).1, sum_fill hfill, hsum, totalViolation_cons]
      exact congrArg _ (totalViolation_congr hrows fun j hj => if_pos (hj.trans_le hn))

end PhaseOne

/-! ## The violation of a model -/

namespace StandardForm

/-- A point keeps every column between its bounds. -/
def WithinBounds (f : StandardForm (Exact F)) (v : Nat → F) : Prop :=
  ∀ j < f.columns, (f.lower.getD j .undefined).RespectsLower (v j) ∧
    (f.upper.getD j .undefined).RespectsUpper (v j)

/-- How far a point is from satisfying the rows, all of them together. -/
def violationAt (f : StandardForm (Exact F)) (v : Nat → F) : F :=
  ∑ i ∈ Finset.range f.rows.length, (f.relations.getD i .equal).violation
    (SparseRow.valueAt (f.rows.getD i []) v) (coord f.rightHandSide i)

/-- A number is the least violation of the rows within the bounds. -/
def LeastViolation (f : StandardForm (Exact F)) (q : F) : Prop :=
  IsLeast {a | ∃ v, f.WithinBounds v ∧ f.violationAt v = a} q

theorem violationAt_nonneg (f : StandardForm (Exact F)) (v : Nat → F) : 0 ≤ f.violationAt v :=
  Finset.sum_nonneg fun _ _ => Relation.violation_nonneg _ _ _

end StandardForm

namespace PhaseOne

section Measure

variable {m : Model (Exact F)} {x : List (Exact F)}

/-- The rows of a model with their relations. -/
def rowsOf (m : Model (Exact F)) : List (SparseRow (Exact F) × Relation) :=
  m.rows.map fun r => (r.expr.terms, r.relation)

/-- The right-hand sides of a model are numbers. -/
def FiniteSides (m : Model (Exact F)) : Prop := ∀ r ∈ m.rows, Scalar.isFinite r.side = true

theorem FiniteSides.allFinite (h : FiniteSides m) (x : List (Exact F)) :
    AllFinite (m.formAt x).rightHandSide := by
  intro a ha
  obtain ⟨r, hr, rfl⟩ := List.mem_map.1 ha
  exact h r hr

theorem FiniteSides.side_eq (h : FiniteSides m) (x : List (Exact F)) {i : Nat}
    (hi : i < m.rows.length) :
    (m.rows.map fun r => r.bound - r.expr.constant).getD i .undefined =
      .finite (coord (m.formAt x).rightHandSide i) :=
  (h.allFinite x).getD (by simpa [Model.formAt] using hi)

theorem width_eq : width m x = (addSlacks m.columns.length (rowsOf m)).2 := by
  rw [width, zip_formAt, rowsOf]

theorem violationAt_formAt (v : Nat → F) : (m.formAt x).violationAt v =
    totalViolation (rowsOf m) (coord (m.formAt x).rightHandSide) v := by
  have hlength : (m.formAt x).rows.length = (rowsOf m).length := by simp [Model.formAt, rowsOf]
  rw [StandardForm.violationAt, totalViolation, hlength]
  refine Finset.sum_congr rfl fun i hi => ?_
  have hi : i < m.rows.length := by simpa [rowsOf] using hi
  simp [Model.formAt, rowsOf, List.getD_eq_getElem?_getD, hi]

/-- What a point of the phase-one problem costs are its slacks. -/
theorem costAt_problem (v : Nat → F) : costAt (problem (m.formAt x)).cost v =
    ∑ j ∈ Finset.Ico m.columns.length (width m x), v j := by
  have hzeros : (Scalar.zeros m.columns.length : List (Exact F)).length = m.columns.length := by
    simp [Scalar.zeros]
  rw [cost_problem, costAt_append, costAt_zeros, zero_add, Finset.sum_Ico_eq_sum_range, costAt,
    List.length_replicate, hzeros]
  refine Finset.sum_congr rfl fun j hj => ?_
  have hone : coord (List.replicate (width m x - m.columns.length) (1 : Exact F)) j = 1 := by
    simp [coord, List.getD_eq_getElem?_getD, Finset.mem_range.1 hj, Exact.one_eq]
  rw [hone, one_mul]

theorem rowsHold_iff (hm : m.Proper) (hsides : FiniteSides m) (v : Nat → F) :
    (∀ i < (problem (m.formAt x)).rows.length, (problem (m.formAt x)).RowHolds i v) ↔
      RowsHold m.columns.length (rowsOf m) (coord (m.formAt x).rightHandSide) v := by
  have hrows : (rowsOf m).length = m.rows.length := List.length_map _
  rw [RowsHold, hrows, length_rows_problem]
  refine forall₂_congr fun i hi => ?_
  rw [(problem_hasRelations x).rowHolds_iff hm.isKnown ((length_rows_problem (m := m) x).symm ▸ hi),
    LinearProgram.rowAt, rows_problem, hsides.side_eq x hi]
  simp [rowsOf, List.getD_eq_getElem?_getD, hi]

/-- A feasible point of the phase-one problem keeps to the bounds of the model, and its slacks
pay for the violation. -/
theorem violationAt_le_cost (hm : m.Proper) (hsides : FiniteSides m) {v : Nat → F}
    (hv : (problem (m.formAt x)).Feasible v) :
    (m.formAt x).WithinBounds v ∧
      (m.formAt x).violationAt v ≤ costAt (problem (m.formAt x)).cost v := by
  constructor
  · intro j hj
    have hj : j < m.columns.length := columns_formAt (m := m) x ▸ hj
    have hcolumn := hv.columns j ((length_cost_problem (m := m) x).symm ▸
      hj.trans_le (le_width x))
    rwa [LinearProgram.ColumnHolds, (bounds_problem x hj).1, (bounds_problem x hj).2] at hcolumn
  · rw [violationAt_formAt, costAt_problem, width_eq]
    refine totalViolation_le_slacks (rowsOf m) (fun j hj hlast => ?_)
      ((rowsHold_iff hm hsides v).1 hv.rows)
    rw [← width_eq (x := x)] at hlast
    have hslack := hv.columns j ((length_cost_problem (m := m) x).symm ▸ hlast)
    rw [LinearProgram.ColumnHolds, (bounds_slack x hj hlast).1] at hslack
    exact (Exact.respectsLower_finite _ _).1 hslack.1

/-- Every point within the bounds can be completed to a feasible point of the phase-one problem
that costs its violation. -/
theorem exists_feasible (hm : m.Proper) (hsides : FiniteSides m) {w : Nat → F}
    (hw : (m.formAt x).WithinBounds w) :
    ∃ v, (problem (m.formAt x)).Feasible v ∧
      costAt (problem (m.formAt x)).cost v = (m.formAt x).violationAt w := by
  have hwithin : ∀ r ∈ rowsOf m, r.1.Within m.columns.length := by
    intro r hr
    obtain ⟨row, hrow, rfl⟩ := List.mem_map.1 hr
    exact (hm.rows row hrow).within
  have hknown : ∀ r ∈ rowsOf m, r.2.IsKnown := by
    intro r hr
    obtain ⟨row, hrow, rfl⟩ := List.mem_map.1 hr
    exact hm.relations row hrow
  obtain ⟨v, hv, hnonneg, hrows, hsum⟩ := exists_slacks (rowsOf m) hwithin hknown le_rfl
    (coord (m.formAt x).rightHandSide) w
  refine ⟨v, ⟨(rowsHold_iff hm hsides v).2 hrows, fun j hj => ?_⟩, ?_⟩
  · rw [length_cost_problem] at hj
    by_cases hcolumn : j < m.columns.length
    · rw [LinearProgram.ColumnHolds, (bounds_problem x hcolumn).1, (bounds_problem x hcolumn).2,
        hv j hcolumn]
      exact hw j ((columns_formAt (m := m) x).symm ▸ hcolumn)
    · have hslack := bounds_slack (m := m) x (not_lt.1 hcolumn) hj
      rw [LinearProgram.ColumnHolds, hslack.1, hslack.2]
      exact ⟨(Exact.respectsLower_finite _ _).2 (hnonneg j (not_lt.1 hcolumn)),
        by simp [Exact.RespectsUpper]⟩
  · rw [costAt_problem, width_eq, hsum, violationAt_formAt]

/-- A number between two bounds that do not cross. -/
def between (lower upper : Exact F) : F :=
  match lower, upper with
  | .finite a, _ => a
  | _, .finite b => b
  | _, _ => 0

theorem between_respects {lower upper : Exact F} (h : Scalar.less upper lower = false) :
    lower.RespectsLower (between lower upper) ∧ upper.RespectsUpper (between lower upper) := by
  cases lower <;> cases upper <;>
    simp_all [between, Exact.RespectsLower, Exact.RespectsUpper]

/-- There is a point within the bounds of a proper model. -/
theorem exists_withinBounds (hm : m.Proper) (hx : m.Suits x) :
    ∃ v, (m.formAt x).WithinBounds v :=
  ⟨fun j => between ((m.formAt x).lower.getD j .undefined) ((m.formAt x).upper.getD j .undefined),
    fun _ hj => between_respects (Model.uncrossed_formAt hm hx (columns_formAt (m := m) x ▸ hj))⟩

/-- A point is feasible where it keeps to the bounds and violates nothing. -/
theorem feasible_iff_violationAt (hm : m.Proper) (hsides : FiniteSides m) (v : Nat → F) :
    (m.formAt x).toProgram.Feasible v ↔
      (m.formAt x).WithinBounds v ∧ (m.formAt x).violationAt v = 0 := by
  have hbounds : (∀ j < (m.formAt x).toProgram.cost.length,
      (m.formAt x).toProgram.ColumnHolds j v) ↔ (m.formAt x).WithinBounds v := by
    rw [Model.length_cost_formAt, ← columns_formAt x]
    rfl
  have hrows : (∀ i < (m.formAt x).toProgram.rows.length, (m.formAt x).toProgram.RowHolds i v) ↔
      (m.formAt x).violationAt v = 0 := by
    rw [StandardForm.violationAt,
      Finset.sum_eq_zero_iff_of_nonneg fun _ _ => Relation.violation_nonneg _ _ _]
    simp only [Finset.mem_range]
    refine forall₂_congr fun i hi => ?_
    have hi' : i < m.rows.length := Model.length_rows_formAt m x ▸ hi
    have hknown : ((m.formAt x).relations.getD i .equal).IsKnown := by
      rw [List.getD_eq_getElem _ _ (by simpa [Model.formAt] using hi')]
      exact hm.isKnown _ (List.getElem_mem _)
    rw [(Model.formAt_hasRelations m x).rowHolds_iff hm.isKnown hi,
      Relation.violation_eq_zero_iff hknown,
      ← hsides.side_eq x hi']
    rfl
  rw [← hbounds, ← hrows]
  exact ⟨fun h => ⟨h.columns, h.rows⟩, fun h => ⟨h.2, h.1⟩⟩

/-- The value of a certificate for the phase-one problem is the least violation. -/
theorem leastViolation (hm : m.Proper) (hsides : FiniteSides m) {r : SolveResult (Exact F)}
    (h : r.Certifies (problem (m.formAt x))) :
    (m.formAt x).LeastViolation (costAt (problem (m.formAt x)).cost (coord r.point)) := by
  obtain ⟨hbounds, hle⟩ := violationAt_le_cost hm hsides h.feasible
  have hleast : ∀ w, (m.formAt x).WithinBounds w →
      costAt (problem (m.formAt x)).cost (coord r.point) ≤ (m.formAt x).violationAt w := by
    intro w hw
    obtain ⟨v, hv, hcost⟩ := exists_feasible hm hsides hw
    exact hcost ▸ h.optimal hv
  refine ⟨⟨coord r.point, hbounds, le_antisymm hle (hleast _ hbounds)⟩, ?_⟩
  rintro _ ⟨w, hw, rfl⟩
  exact hleast w hw

/-! ## Solving the problem -/

theorem isFinite_slackTerms (next : Nat) (r : Relation) :
    ∀ t ∈ (slackTerms next r : SparseRow (Exact F)), Scalar.isFinite t.2 = true := by
  cases r <;> simp [slackTerms, slackSigns, Exact.one_eq]

theorem isFinite_addSlacks (next : Nat) (rows : List (SparseRow (Exact F) × Relation))
    (h : ∀ r ∈ rows, ∀ t ∈ r.1, Scalar.isFinite t.2 = true) :
    ∀ r ∈ (addSlacks next rows).1, ∀ t ∈ r, Scalar.isFinite t.2 = true := by
  induction rows generalizing next with
  | nil => exact fun r hr => absurd hr List.not_mem_nil
  | cons r rows ih =>
    obtain ⟨hfirst, hrest⟩ := List.forall_mem_cons.1 h
    rw [(addSlacks_cons next r rows).1]
    refine List.forall_mem_cons.2 ⟨fun t ht => ?_, ih _ hrest⟩
    rcases List.mem_append.1 ht with ht | ht
    · exact hfirst t ht
    · exact isFinite_slackTerms next r.2 t ht

theorem isFinite_rows_problem (hm : m.Proper) :
    ∀ r ∈ (problem (m.formAt x)).rows, ∀ t ∈ r, Scalar.isFinite t.2 = true := by
  rw [rows_problem]
  refine isFinite_addSlacks _ _ fun r hr => ?_
  obtain ⟨row, hrow, rfl⟩ := List.mem_map.1 hr
  exact (hm.rows row hrow).finite

/-- Rows bring columns of their own. -/
theorem cost_problem_ne_nil (h : m.columns ≠ [] ∨ m.rows ≠ []) :
    (problem (m.formAt x)).cost ≠ [] := by
  rw [Ne, ← List.length_eq_zero_iff, length_cost_problem]
  rcases h with h | h
  · have hpos := List.length_pos_iff.2 h
    have hle := le_width (m := m) x
    omega
  · obtain ⟨r, rows, hrows⟩ := List.exists_cons_of_ne_nil h
    have hlast := (addSlacks_spec (m.columns.length + slackCount r.relation) (rowsOf
      { m with rows })).1
    have hwidth : width m x = (addSlacks (m.columns.length + slackCount r.relation) (rowsOf
        { m with rows })).2 := by
      rw [width_eq, rowsOf, hrows, List.map_cons, (addSlacks_cons _ _ _).2]
      rfl
    have hcount : 0 < slackCount r.relation := by cases r.relation <;> simp [slackCount]
    omega

/-- The phase-one problem passes the checks where no bound is undefined. -/
theorem checked_problem (hm : m.Proper) (hx : m.Suits x) (hsides : FiniteSides m)
    (hbounds : ∀ c ∈ m.columns, c.decision = none → c.lower ≠ .undefined ∧ c.upper ≠ .undefined) :
    (problem (m.formAt x)).Checked := by
  have hdefined : m.Defined :=
    ⟨fun r hr hside => absurd (hside ▸ hsides r hr) (by simp [Exact.isFinite_iff]), hbounds⟩
  have hform := (Model.checked_formAt_iff hm hx).2 hdefined
  have hwidth := le_width (m := m) x
  refine
    { columns := ?_
      rightHandSide_length := ?_
      bounds_length := ?_
      cost := ?_
      rightHandSide := ?_
      rows := fun r hr t ht hundefined => ?_
      bounds := ?_
      uncrossed := crossed_problem hm hx }
  · rw [length_cost_problem]
    simp only [problem, columns_formAt, width]
  · rintro _ ⟨⟩
    rw [length_rows_problem]
    simp [Model.formAt]
  · rw [length_cost_problem, lower_problem, upper_problem]
    simp [Model.formAt, Scalar.zeros]
    omega
  · rw [cost_problem]
    rintro a ha
    rcases List.mem_append.1 ha with ha | ha
    · exact allFinite_zeros _ a ha
    · rw [List.eq_of_mem_replicate ha, Exact.one_eq]
      exact Exact.isFinite_finite _
  · rintro _ ⟨⟩ hmem
    exact absurd (hsides.allFinite x _ hmem) (by simp [Exact.isFinite_iff])
  · have hfinite := isFinite_rows_problem hm r hr t ht
    rw [hundefined] at hfinite
    exact absurd hfinite (by simp [Exact.isFinite_iff])
  · rw [lower_problem, upper_problem]
    constructor
    · intro hmem
      rcases List.mem_append.1 hmem with hmem | hmem
      · exact hform.bounds.1 hmem
      · exact absurd (allFinite_zeros _ _ hmem) (by simp [Exact.isFinite_iff])
    · intro hmem
      rcases List.mem_append.1 hmem with hmem | hmem
      · exact hform.bounds.2 hmem
      · cases List.eq_of_mem_replicate hmem

/-- Its rows have limits that are defined. -/
theorem rowLimits_problem (hm : m.Proper) (hsides : FiniteSides m) :
    Settles (problem (m.formAt x)).rowLimits
      (fun l => l.1.length = (problem (m.formAt x)).rows.length ∧
        l.2.length = (problem (m.formAt x)).rows.length ∧
        ∀ i < (problem (m.formAt x)).rows.length,
          l.1.getD i .undefined ≠ .undefined ∧ l.2.getD i .undefined ≠ .undefined)
      fun _ => False := by
  refine (problem_hasRelations x).rowLimits_settles.mono ?_ ?_
  · rintro l ⟨hlower, hupper, hlimits⟩
    refine ⟨hlower, hupper, fun i hi => LinearProgram.ne_undefined_of_limitsOf (hlimits i hi) ?_⟩
    rw [hsides.side_eq x (length_rows_problem (m := m) x ▸ hi)]
    exact fun hside => nomatch hside
  · rintro f ⟨⟨r, hr, hunknown⟩, -⟩
    exact hunknown (hm.isKnown r hr)

end Measure

end PhaseOne

/-! ## Models whose rows do not all stand at their positions -/

namespace StandardForm

variable {f : StandardForm (Exact F)}

/-- A form with other costs. -/
def recosted (f : StandardForm (Exact F)) (cost : List (Exact F)) (constant : Exact F) :
    StandardForm (Exact F) := { f with cost, constant }

variable {cost : List (Exact F)} (hcost : cost.length = f.columns) (constant : Exact F)
include hcost

theorem problem_recosted :
    PhaseOne.problem (f.recosted cost constant) = PhaseOne.problem f := by
  have hcolumns : (f.recosted cost constant).columns = f.columns := hcost
  simp only [PhaseOne.problem, hcolumns]
  rfl

theorem leastViolation_recosted (q : F) :
    (f.recosted cost constant).LeastViolation q ↔ f.LeastViolation q := by
  have hcolumns : (f.recosted cost constant).columns = f.columns := hcost
  simp only [LeastViolation, WithinBounds, hcolumns]
  rfl

theorem feasible_recosted (v : Nat → F) :
    (f.recosted cost constant).toProgram.Feasible v ↔ f.toProgram.Feasible v := by
  have hlength : (f.recosted cost constant).toProgram.cost.length = f.toProgram.cost.length := by
    simp only [toProgram, recosted, Scalar.scale, List.length_map, hcost]
    rfl
  exact ⟨fun h => ⟨h.rows, fun j hj => h.columns j (hlength ▸ hj)⟩,
    fun h => ⟨h.rows, fun j hj => h.columns j (hlength ▸ hj)⟩⟩

end StandardForm

namespace Model

variable {m : Model (Exact F)} {x : List (Exact F)}

/-- A model without its objective. -/
def withoutObjective (m : Model (Exact F)) : Model (Exact F) := { m with objective? := none }

/-- A model whose violation can be measured: a model built column by column and row by row, whose
right-hand sides are numbers.  Of its objective nothing is asked but that it mentions columns of
the model. -/
structure Relaxable (m : Model (Exact F)) : Prop where
  /-- Columns and rows were added, out of numbers. -/
  placed : m.withoutObjective.Placed
  /-- The objective mentions no other columns. -/
  objective : SparseRow.Within m.objective.terms m.columns.length
  /-- The right-hand sides are numbers. -/
  sides : PhaseOne.FiniteSides m
  /-- No bound is undefined. -/
  bounds : ∀ c ∈ m.columns, c.decision = none → c.lower ≠ .undefined ∧ c.upper ≠ .undefined

/-- The objective of a model plays no part in the rows and the bounds of its form. -/
theorem standardForm_withoutObjective (h : SparseRow.Within m.objective.terms m.columns.length)
    (decision : Option (List (Exact F))) :
    m.standardForm decision = (m.withoutObjective.standardForm decision).map fun form =>
      form.recosted ((List.range m.columns.length).map m.objective.coefficient)
        m.objective.constant := by
  have hobjective : (m.objective.terms.any fun t => decide (m.variableCount ≤ t.1)) = false :=
    any_outside h
  have hrows : m.withoutObjective.rows = m.rows := rfl
  have hcount : m.withoutObjective.variableCount = m.variableCount := rfl
  have hdecision : m.withoutObjective.decisionFor decision = m.decisionFor decision := rfl
  unfold standardForm
  simp only [hobjective, hrows, hcount, hdecision, bind, Except.bind, pure, Except.pure,
    Bool.false_eq_true, if_false]
  cases m.decisionFor decision with
  | error f => rfl
  | ok y =>
    dsimp only
    split <;> rfl

/-- A proper model that stands for another one: with its columns, with one row for every row of
its matrix, and with the same slope along every change of the decision. -/
structure StandsFor (p m : Model (Exact F)) : Prop where
  /-- It is proper. -/
  proper : p.Proper
  /-- It has the same columns, -/
  columns : p.columns = m.columns
  /-- as many rows, -/
  rows_length : p.rows.length = m.rows.length
  /-- and right-hand sides that are numbers. -/
  sides : PhaseOne.FiniteSides p
  /-- Up to its costs it has the same form at every decision with one entry per placeholder. -/
  form : ∀ x : List (Exact F), (m.decisionCount = 0 ∨ m.decisionCount = x.length) →
    m.standardForm (some x) = .ok ((p.formAt x).recosted
      ((List.range m.columns.length).map m.objective.coefficient) m.objective.constant)
  /-- The charges of the decisions are those of its rows. -/
  charges : ∀ (duals : List (Exact F)) (w : Nat → F), (m.masterTerms.map (chargeOf duals w)).sum =
    ∑ i ∈ Finset.range p.rows.length,
      coord duals i * SparseRow.valueAt (p.rows.getD i default).expr.terms (p.spread w)

theorem Relaxable.exists_standsFor (hm : m.Relaxable) : ∃ p : Model (Exact F), p.StandsFor m := by
  -- Rows that do not stand at their positions are merged in the matrix, so there the model that
  -- stands for this one has the rows of the matrix.
  cases haligned : m.withoutObjective.isAligned with
  | true =>
    have hproper := hm.placed.proper haligned
    refine ⟨m.withoutObjective, hproper, rfl, rfl, hm.sides, fun x hlength => ?_, fun duals w =>
      sum_masterTerms hproper duals w⟩
    rw [standardForm_withoutObjective hm.objective, standardForm_some hproper hlength]
    rfl
  | false =>
    have hproper := merged_proper hm.placed
    refine ⟨m.withoutObjective.merged, hproper, rfl, length_rows_merged _, ?_,
      fun x hlength => ?_, fun duals w => ?_⟩
    · intro r hr
      obtain ⟨i, hi, rfl⟩ := List.mem_map.1 hr
      have hi : i < m.withoutObjective.rows.length := List.mem_range.1 hi
      have hside := hm.sides _ (List.getElem_mem (l := m.rows) hi)
      rwa [Row.side, List.getD_eq_getElem _ _ hi]
    · rw [standardForm_withoutObjective hm.objective, standardForm_merged hm.placed haligned,
        standardForm_some hproper hlength]
      rfl
    · refine (sum_masterTerms_placed hm.placed duals w).trans ?_
      rw [length_rows_merged]
      refine Finset.sum_congr rfl fun i hi => ?_
      rw [terms_merged (Finset.mem_range.1 hi)]
      rfl

/-! ## Separation -/

/-- A model is feasible at a decision: its matrix form has a feasible point there. -/
def FeasibleAt (m : Model (Exact F)) (x : List (Exact F)) : Prop :=
  ∃ form v, m.standardForm (some x) = .ok form ∧ form.toProgram.Feasible v

/-- What a value and a slope say about the feasible decisions: the value is the least violation
at the decision `x`, where the model has this form, and zero if and only if the model is feasible
there; extended by the slope it is at most zero wherever the model is feasible. -/
structure Separates (m : Model (Exact F)) (x : List (Exact F)) (form : StandardForm (Exact F))
    (q : F) (g : List (Exact F)) : Prop where
  /-- The value is the least violation. -/
  least : form.LeastViolation q
  /-- It is zero exactly where the model is feasible. -/
  eq_zero_iff : q = 0 ↔ m.FeasibleAt x
  /-- The slope has an entry for every decision, -/
  length : g.length = x.length
  /-- and all of them are numbers. -/
  finite : AllFinite g
  /-- No decision at which the model is feasible is cut off. -/
  cut : ∀ x' : List (Exact F), AllFinite x' → m.FeasibleAt x' →
    q + costAt g (fun k => coord x' k - coord x k) ≤ 0

namespace StandsFor

variable {p : Model (Exact F)}

theorem decisionCount_eq (hp : p.StandsFor m) : p.decisionCount = m.decisionCount := by
  rw [decisionCount, decisionCount, hp.columns]

theorem length_costs (hp : p.StandsFor m) (x : List (Exact F)) :
    ((List.range m.columns.length).map m.objective.coefficient).length = (p.formAt x).columns := by
  rw [PhaseOne.columns_formAt, hp.columns, List.length_map, List.length_range]

/-- A model is feasible where something fits the model that stands for it. -/
theorem feasibleAt_iff (hp : p.StandsFor m) (hx : AllFinite x)
    (hlength : m.decisionCount = 0 ∨ m.decisionCount = x.length) :
    m.FeasibleAt x ↔ ∃ v, p.Fits (coord x) v := by
  have hsuits : p.Suits x := suits_of_length hx (hp.decisionCount_eq ▸ hlength)
  unfold FeasibleAt
  rw [hp.form x hlength]
  constructor
  · rintro ⟨_, v, ⟨⟩, hv⟩
    rw [StandardForm.feasible_recosted (hp.length_costs x)] at hv
    exact ⟨v, (feasible_formAt_iff hp.proper hsuits v).1 hv⟩
  · rintro ⟨v, hv⟩
    refine ⟨_, v, rfl, ?_⟩
    rw [StandardForm.feasible_recosted (hp.length_costs x)]
    exact (feasible_formAt_iff hp.proper hsuits v).2 hv

/-- What phase one takes from the duals is the slope of the rows along a change of the
decision. -/
theorem subtractDuals_settles (hp : p.StandsFor m) (hm : m.Relaxable) {duals : List (Exact F)}
    (hduals : AllFinite duals) (hrows : duals.length = p.rows.length) {n : Nat}
    (hn : m.decisionCount = 0 ∨ m.decisionCount = n) :
    Settles (m.subtractDuals duals (Scalar.zeros n))
      (fun g => g.length = n ∧ AllFinite g ∧ ∀ w : Nat → F, costAt g w =
        -∑ i ∈ Finset.range p.rows.length,
          coord duals i * SparseRow.valueAt (p.rows.getD i default).expr.terms (p.spread w))
      fun _ => False := by
  have hzeros : (Scalar.zeros n : List (Exact F)).length = n := by simp [Scalar.zeros]
  refine (foldlM_settles duals hduals m.masterTerms (allFinite_zeros n) ?_).mono ?_ fun _ => id
  · rw [hrows, hp.rows_length, hzeros]
    exact masterTerms_placed hm.placed hn
  · rintro g ⟨hlength, hfinite, hcost⟩
    exact ⟨hlength.trans hzeros, hfinite, fun w => by
      rw [hcost w, costAt_zeros, zero_sub, hp.charges]⟩

/-- A certificate for the phase-one problem separates. -/
theorem separates (hp : p.StandsFor m) (hx : AllFinite x)
    (hlength : m.decisionCount = 0 ∨ m.decisionCount = x.length) {r : SolveResult (Exact F)}
    (h : r.Certifies (PhaseOne.problem (p.formAt x))) {g : List (Exact F)}
    (hglength : g.length = x.length) (hgfinite : AllFinite g)
    (hg : ∀ w : Nat → F, costAt g w = -∑ i ∈ Finset.range p.rows.length,
      coord r.duals i * SparseRow.valueAt (p.rows.getD i default).expr.terms (p.spread w)) :
    m.Separates x ((p.formAt x).recosted
      ((List.range m.columns.length).map m.objective.coefficient) m.objective.constant)
      (costAt (PhaseOne.problem (p.formAt x)).cost (coord r.point)) g := by
  have hsuits : p.Suits x := suits_of_length hx (hp.decisionCount_eq ▸ hlength)
  have hleast := PhaseOne.leastViolation hp.proper hp.sides h
  refine
    { least := (StandardForm.leastViolation_recosted (hp.length_costs x) _ _).2 hleast
      eq_zero_iff := ?_
      length := hglength
      finite := hgfinite
      cut := fun x' hx' hfeasible => ?_ }
  · -- The least violation is that of some point, and none is below zero.
    rw [hp.feasibleAt_iff hx hlength]
    obtain ⟨⟨v, hbounds, hv⟩, hlower⟩ := hleast
    constructor
    · intro hzero
      exact ⟨v, (feasible_formAt_iff hp.proper hsuits v).1
        ((PhaseOne.feasible_iff_violationAt hp.proper hp.sides v).2 ⟨hbounds, hv.trans hzero⟩)⟩
    · rintro ⟨w, hw⟩
      obtain ⟨hwbounds, hwzero⟩ := (PhaseOne.feasible_iff_violationAt hp.proper hp.sides w).1
        ((feasible_formAt_iff hp.proper hsuits w).2 hw)
      refine le_antisymm (hlower ⟨w, hwbounds, hwzero⟩) ?_
      rw [← hv]
      exact StandardForm.violationAt_nonneg _ v
  · obtain ⟨form, -, hform, -⟩ := id hfeasible
    obtain ⟨v, hv⟩ := (hp.feasibleAt_iff hx' (length_of_standardForm hform)).1 hfeasible
    exact PhaseOne.value_le hp.proper hsuits h hg hv

end StandsFor

end Model

namespace SolveResult

/-- The answer to a program with feasible points and costs that are bounded below. -/
theorem Answers.certifies {r : SolveResult (Exact F)} {p : LinearProgram (Exact F)}
    (h : r.Answers p) {v : Nat → F} (hv : p.Feasible v) {level : F}
    (hlevel : ∀ w, p.Feasible w → level ≤ costAt p.cost w) :
    r.status = .optimal ∧ r.Certifies p := by
  unfold Answers at h
  cases hstatus : r.status with
  | optimal =>
    rw [hstatus] at h
    exact ⟨rfl, h⟩
  | infeasible =>
    rw [hstatus] at h
    exact absurd hv (h v)
  | unbounded =>
    rw [hstatus] at h
    obtain ⟨w, hw, hless⟩ := h level
    exact absurd (hlevel w hw) (not_le.2 hless)
  | _ =>
    rw [hstatus] at h
    exact h.elim

end SolveResult

/-- Phase one separates.  At every decision with one entry per placeholder the model has its form;
the phase-one problem is feasible, and no point costs less than nothing.  So on a sound engine
phase one never reports that it ended without an optimum: it gives the least violation with a
slope that cuts off no decision at which the model is feasible, or the engine breaks down.  That
aside, it refuses only a model that has neither columns nor rows. -/
theorem Model.phaseOne_separates {σ : Type} [Host σ (Exact F)] (host : Host.Sound σ F)
    {b : Backend σ (Exact F)} {refusal : Fault (Exact F) → Prop} (hb : b.Answering refusal)
    {m : Model (Exact F)} (hm : m.Relaxable) {x : List (Exact F)} (hx : AllFinite x)
    (hlength : m.decisionCount = 0 ∨ m.decisionCount = x.length) :
    ∃ form, m.standardForm (some x) = .ok form ∧
      (∃ v, (PhaseOne.problem form).Feasible v) ∧
      (∀ v, (PhaseOne.problem form).Feasible v → 0 ≤ costAt (PhaseOne.problem form).cost v) ∧
      (m.phaseOne x x.length b.params : Act σ (Exact F) _).Ensures
        (fun found => ∃ q, found.1 = .finite q ∧ m.Separates x form q found.2)
        fun f => f.IsBreakdown ∧ (m.columns ≠ [] ∨ m.rows ≠ [] → refusal f) := by
  obtain ⟨p, hp⟩ := hm.exists_standsFor
  have hform := hp.form x hlength
  have hsuits : p.Suits x := suits_of_length hx (hp.decisionCount_eq ▸ hlength)
  have hproblem := StandardForm.problem_recosted (hp.length_costs x) m.objective.constant
  -- Any point within the bounds becomes feasible with slacks that make up for its violation.
  obtain ⟨w, hw⟩ := PhaseOne.exists_withinBounds hp.proper hsuits
  obtain ⟨v, hv, -⟩ := PhaseOne.exists_feasible hp.proper hp.sides hw
  have hnonneg : ∀ u, (PhaseOne.problem (p.formAt x)).Feasible u →
      0 ≤ costAt (PhaseOne.problem (p.formAt x)).cost u := fun u hu =>
    (StandardForm.violationAt_nonneg _ u).trans
      (PhaseOne.violationAt_le_cost hp.proper hp.sides hu).2
  refine ⟨_, hform, hproblem ▸ ⟨v, hv⟩, hproblem ▸ hnonneg, ?_⟩
  have hanswers := LinearProgram.solve_ensures host (PhaseOne.problem_regular x hp.proper) b.params
  have hrefuses := LinearProgram.solve_refuses (hb.breakdown host)
    (PhaseOne.checked_problem hp.proper hsuits hp.sides (hp.columns ▸ hm.bounds))
    (PhaseOne.isFinite_rows_problem hp.proper) (PhaseOne.rowLimits_problem hp.proper hp.sides)
  unfold Model.phaseOne
  rw [hform]
  refine Act.ensures_bind (Act.ensures_pure ?_)
  rw [hproblem]
  refine Act.ensures_bind ((hanswers.and hrefuses).mono ?_ ?_)
  · rintro r ⟨hr, -⟩
    obtain ⟨hstatus, hcertifies⟩ := hr.certifies hv hnonneg
    simp only [hstatus, ne_eq, not_true, if_false]
    refine Act.ensures_bind (Act.ensures_lift ((hp.subtractDuals_settles hm
      hcertifies.duals_finite (hcertifies.duals_length.trans (PhaseOne.length_rows_problem x))
      hlength).mono ?_ fun _ => False.elim))
    rintro g ⟨hglength, hgfinite, hg⟩
    exact Act.ensures_pure ⟨_, hcertifies.objective,
      hp.separates hx hlength hcertifies hglength hgfinite hg⟩
  · rintro f ⟨-, ⟨hbreakdown, hrefusal⟩ | ⟨hcost, rfl⟩⟩
    · exact ⟨hbreakdown, fun _ => hrefusal⟩
    · refine ⟨⟨_, rfl⟩, fun hne => absurd hcost (PhaseOne.cost_problem_ne_nil ?_)⟩
      rwa [hp.columns, Ne, Ne, ← List.length_eq_zero_iff (l := p.rows), hp.rows_length,
        List.length_eq_zero_iff]

/-- A model to maximize with a row of every kind: the first column covers what is decided, the
other one makes up the difference to one unit, and it is four at most. -/
def supplyModel : Model (Exact ℚ) where
  name := "supply"
  columns := [⟨0, .finite 0, .finite 2, none, none⟩,
    ⟨1, .minusInfinity, .plusInfinity, none, some 0⟩, ⟨2, .minusInfinity, .finite 3, none, none⟩]
  rows := [⟨⟨[(0, .finite 1), (1, .finite (-1))], .finite 0, []⟩, .atLeast, .finite 0, none, 0, 0⟩,
    ⟨⟨[(0, .finite 1), (2, .finite 1)], .finite 0, []⟩, .equal, .finite 1, none, 1, 1⟩,
    ⟨⟨[(2, .finite 1)], .finite 0, []⟩, .atMost, .finite 4, none, 2, 2⟩]
  objective? := some ⟨[(0, .finite 1)], .finite 0, []⟩
  goal := .maximize
  fixed := none
  result := none

/-- What an engine finds for the phase-one problem at the decision five: two units can be
supplied. -/
def supplyTranscript : Transcript ℚ where
  findings :=
    [.optimal
      { point := [.finite 2, .finite 5, .finite (-1), .finite 3, .finite 0, .finite 0, .finite 0]
        value := .finite 3
        upperMarginals := [.finite 0, .finite (-1)]
        equalMarginals := [.finite 0]
        lowerMarginals := [.finite 0, .finite 1, .finite 0, .finite 0, .finite 1, .finite 1,
          .finite 1]
        boundMarginals := [.finite (-1), .finite 0, .finite 0, .finite 0, .finite 0, .finite 0,
          .finite 0]
        iterations := 2 }]

theorem supplyModel_relaxable : supplyModel.Relaxable where
  placed := by decide +kernel
  objective := by unfold SparseRow.Within; decide +kernel
  sides := by unfold PhaseOne.FiniteSides; decide +kernel
  bounds := by decide +kernel

/-- At the decision five the model misses three units, and one more with every further unit. -/
theorem supplyModel_separates : supplyModel.Relaxable ∧
    ∃ form g, supplyModel.standardForm (some [.finite 5]) = .ok form ∧
      ((supplyModel.phaseOne [.finite 5] 1 (.record []) : Act (Transcript ℚ) (Exact ℚ) _).run.run
        ⟨supplyTranscript, [], 0⟩).1 = .ok (.finite 3, g) ∧
      coord g 0 = 1 ∧ supplyModel.Separates [.finite 5] form 3 g := by
  refine ⟨supplyModel_relaxable, ?_⟩
  have hrun : ((supplyModel.phaseOne [.finite 5] 1 (.record []) :
      Act (Transcript ℚ) (Exact ℚ) _).run.run ⟨supplyTranscript, [], 0⟩).1.toOption.any
        (fun found => decide (found.1 = .finite 3 ∧ coord found.2 0 = 1)) = true := by
    decide +kernel
  have hfinite : AllFinite ([.finite 5] : List (Exact ℚ)) := by decide +kernel
  obtain ⟨form, hform, -, -, hensures⟩ := Model.phaseOne_separates Transcript.sound
    (Backend.plain_answering Transcript.sound) supplyModel_relaxable hfinite (.inr rfl)
  cases hfound : ((supplyModel.phaseOne [.finite 5] 1 (.record []) :
      Act (Transcript ℚ) (Exact ℚ) _).run.run ⟨supplyTranscript, [], 0⟩).1 with
  | error f => rw [hfound] at hrun; cases hrun
  | ok found =>
    rw [hfound] at hrun
    obtain ⟨hvalue, hslope⟩ := of_decide_eq_true hrun
    obtain ⟨q, hq, hseparates⟩ := (hensures ⟨supplyTranscript, [], 0⟩).of_ok hfound
    obtain rfl : q = 3 := Exact.finite.inj (hq.symm.trans hvalue)
    exact ⟨form, found.2, hform, by rw [← hvalue], hslope, hseparates⟩

end Recourse
