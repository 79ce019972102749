/-
  Proofs/Linear/Answer.lean --- the answer to a linear program.

  `SolveResult.Certifies` lists the optimality conditions of a program in terms of
  the result the library returns: the duals and the reduced costs balance the cost,
  and each has the sign of a side that is active.  `solve_ensures` says that every
  result of a sound engine answers the program that was asked, and that only
  crossed bounds are refused as crossed.  Everything the library concludes from
  duals rests on `Certifies.cost_ge`.
-/
import Recourse.Proofs.Linear.Descent
import Recourse.Proofs.Linear.Split

set_option autoImplicit false
set_option linter.unusedSectionVars false

namespace Recourse

variable {F : Type} [Field F] [LinearOrder F] [IsStrictOrderedRing F] [FloorRing F]

/-! ## Certificates -/

/-- The reduced costs of a result, none where they are not known. -/
def SolveResult.costs {K : Type} (r : SolveResult K) : List K := r.reducedCosts.getD []

/-- The optimality conditions of a program. -/
structure SolveResult.Certifies (r : SolveResult (Exact F)) (p : LinearProgram (Exact F)) :
    Prop where
  /-- One value per column. -/
  point_length : r.point.length = p.cost.length
  /-- One dual per row. -/
  duals_length : r.duals.length = p.rows.length
  /-- One reduced cost per column. -/
  costs_length : r.costs.length = p.cost.length
  /-- The point is made of numbers. -/
  point_finite : AllFinite r.point
  /-- So are the duals, -/
  duals_finite : AllFinite r.duals
  /-- and the reduced costs. -/
  costs_finite : AllFinite r.costs
  /-- The objective is the cost of the point. -/
  objective : r.objective = .finite (costAt p.cost (coord r.point))
  /-- The point is feasible. -/
  feasible : p.Feasible (coord r.point)
  /-- The duals and the reduced costs balance the cost. -/
  stationary : ∀ v : Nat → F, costAt p.cost v =
    (∑ i ∈ Finset.range p.rows.length, coord r.duals i * p.rowAt i v) +
      ∑ j ∈ Finset.range p.cost.length, coord r.costs j * v j
  /-- A positive dual belongs to a row at its lower limit, a negative one to a row at
  its upper limit. -/
  row_active : ∀ i < p.rows.length,
    (0 < coord r.duals i → p.lowerLimit i = .finite (p.rowAt i (coord r.point))) ∧
      (coord r.duals i < 0 → p.upperLimit i = .finite (p.rowAt i (coord r.point)))
  /-- A positive reduced cost belongs to a column at its lower bound, a negative one to
  a column at its upper bound. -/
  column_active : ∀ j < p.cost.length,
    (0 < coord r.costs j → p.lower.getD j .undefined = .finite (coord r.point j)) ∧
      (coord r.costs j < 0 → p.upper.getD j .undefined = .finite (coord r.point j))

namespace SolveResult.Certifies

variable {r : SolveResult (Exact F)} {p : LinearProgram (Exact F)}

/-- A dual is a price for its row. -/
theorem row_charges (h : r.Certifies p) {i : Nat} (hi : i < p.rows.length) :
    (p.rowBand i).Charges (coord r.point) (coord r.duals i) := h.row_active i hi

/-- A reduced cost is a price for its column. -/
theorem column_charges (h : r.Certifies p) {j : Nat} (hj : j < p.cost.length) :
    (p.columnBand j).Charges (coord r.point) (coord r.costs j) := h.column_active j hj

/-- The cost changes by what the duals and the reduced costs charge for the move. -/
theorem cost_moved (h : r.Certifies p) (v : Nat → F) :
    costAt p.cost v = costAt p.cost (coord r.point) +
      ∑ i ∈ Finset.range p.rows.length,
        coord r.duals i * (p.rowAt i v - p.rowAt i (coord r.point)) +
      ∑ j ∈ Finset.range p.cost.length, coord r.costs j * (v j - coord r.point j) := by
  rw [h.stationary v, h.stationary (coord r.point)]
  simp only [mul_sub, Finset.sum_sub_distrib]
  ring

/-- At a point that satisfies the rows the cost is at least the optimum plus what the
reduced costs charge for the move.  The bounds need not hold there. -/
theorem cost_ge (h : r.Certifies p) {v : Nat → F} (hv : ∀ i < p.rows.length, p.RowHolds i v) :
    costAt p.cost (coord r.point) +
        ∑ j ∈ Finset.range p.cost.length, coord r.costs j * (v j - coord r.point j) ≤
      costAt p.cost v := by
  have hrows : 0 ≤ ∑ i ∈ Finset.range p.rows.length,
      coord r.duals i * (p.rowAt i v - p.rowAt i (coord r.point)) :=
    Finset.sum_nonneg fun i hi =>
      (h.row_charges (Finset.mem_range.1 hi)).nonneg (hv i (Finset.mem_range.1 hi))
  calc costAt p.cost (coord r.point) +
        ∑ j ∈ Finset.range p.cost.length, coord r.costs j * (v j - coord r.point j)
      ≤ costAt p.cost (coord r.point) +
          ∑ i ∈ Finset.range p.rows.length,
            coord r.duals i * (p.rowAt i v - p.rowAt i (coord r.point)) +
        ∑ j ∈ Finset.range p.cost.length, coord r.costs j * (v j - coord r.point j) :=
        add_le_add_left (le_add_of_nonneg_right hrows) _
    _ = costAt p.cost v := (h.cost_moved v).symm

/-- What the reduced cost of a column charges for a move within its bounds is not
negative. -/
theorem charge_nonneg (h : r.Certifies p) {v : Nat → F} {j : Nat} (hj : j < p.cost.length)
    (hv : p.ColumnHolds j v) : 0 ≤ coord r.costs j * (v j - coord r.point j) :=
  (h.column_charges hj).nonneg hv

/-- The point of a certificate is optimal. -/
theorem optimal (h : r.Certifies p) {v : Nat → F} (hv : p.Feasible v) :
    costAt p.cost (coord r.point) ≤ costAt p.cost v := by
  have hcharge : 0 ≤ ∑ j ∈ Finset.range p.cost.length,
      coord r.costs j * (v j - coord r.point j) :=
    Finset.sum_nonneg fun j hj => h.charge_nonneg (Finset.mem_range.1 hj)
      (hv.columns j (Finset.mem_range.1 hj))
  exact (le_add_of_nonneg_right hcharge).trans (h.cost_ge hv.rows)

end SolveResult.Certifies

/-- A refusal of crossed bounds. -/
def Fault.IsCrossed {K : Type} (f : Fault K) : Prop :=
  ∃ columns, f = .invalid (.boundsCrossed columns)

/-- A result answers a program: with a certificate, or with the true reason why there
is no optimum. -/
def SolveResult.Answers (r : SolveResult (Exact F)) (p : LinearProgram (Exact F)) : Prop :=
  match r.status with
  | .optimal => r.Certifies p
  | .infeasible => ∀ v, ¬ p.Feasible v
  | .unbounded => p.Unbounded
  | _ => False

namespace SolveResult.Answers

variable {r : SolveResult (Exact F)} {p : LinearProgram (Exact F)}

/-- The answer to a program without feasible points. -/
theorem status_infeasible (h : r.Answers p) (hp : ∀ v, ¬ p.Feasible v) :
    r.status = .infeasible := by
  unfold SolveResult.Answers at h
  cases hstatus : r.status with
  | infeasible => rfl
  | optimal =>
    rw [hstatus] at h
    exact absurd h.feasible (hp _)
  | unbounded =>
    rw [hstatus] at h
    obtain ⟨v, hv, -⟩ := h 0
    exact absurd hv (hp v)
  | _ =>
    rw [hstatus] at h
    exact h.elim

/-- The answer to an unbounded program. -/
theorem status_unbounded (h : r.Answers p) (hp : p.Unbounded) : r.status = .unbounded := by
  unfold SolveResult.Answers at h
  cases hstatus : r.status with
  | unbounded => rfl
  | optimal =>
    rw [hstatus] at h
    obtain ⟨v, hv, hlower⟩ := hp (costAt p.cost (coord r.point))
    exact absurd (h.optimal hv) (not_le.2 hlower)
  | infeasible =>
    rw [hstatus] at h
    obtain ⟨v, hv, -⟩ := hp 0
    exact absurd hv (h v)
  | _ =>
    rw [hstatus] at h
    exact h.elim

end SolveResult.Answers

/-! ## Marginals in place -/

namespace RowSplit

theorem marginal_cons (r : Nat × Exact F) (rows : List (Nat × Exact F)) (a : Exact F)
    (marginals : List (Exact F)) (i : Nat) :
    marginal (r :: rows) (a :: marginals) i =
      if i = r.1 then a else marginal rows marginals i := by
  by_cases h : i = r.1 <;> simp [marginal, Table.find?, h]

theorem marginal_nil_right (rows : List (Nat × Exact F)) (i : Nat) :
    marginal rows [] i = 0 := by
  simp [marginal, Table.find?]

theorem marginal_of_notMem {rows : List (Nat × Exact F)} {i : Nat}
    (hi : i ∉ rows.map (·.1)) (marginals : List (Exact F)) : marginal rows marginals i = 0 := by
  induction rows generalizing marginals with
  | nil => simp [marginal, Table.find?]
  | cons r rows ih =>
    rw [List.map_cons, List.mem_cons, not_or] at hi
    cases marginals with
    | nil => exact marginal_nil_right _ _
    | cons a marginals => rw [marginal_cons, if_neg hi.1, ih hi.2]

theorem isFinite_marginal (rows : List (Nat × Exact F)) {marginals : List (Exact F)}
    (h : AllFinite marginals) (i : Nat) : Scalar.isFinite (marginal rows marginals i) = true := by
  induction rows generalizing marginals with
  | nil => simp [marginal, Table.find?, Exact.zero_eq]
  | cons r rows ih =>
    cases marginals with
    | nil => simp [marginal_nil_right, Exact.zero_eq]
    | cons a marginals =>
      rw [marginal_cons]
      split
      · exact h a List.mem_cons_self
      · exact ih fun b hb => h b (List.mem_cons_of_mem _ hb)

/-- Summing over the rows of a program, or over those that were handed over. -/
theorem sum_marginal {m : Nat} (g : Nat → F) {rows : List (Nat × Exact F)}
    {marginals : List (Exact F)} (hlen : marginals.length = rows.length)
    (hnodup : (rows.map (·.1)).Nodup) (hlt : ∀ r ∈ rows, r.1 < m) :
    ∑ i ∈ Finset.range m, (marginal rows marginals i).value * g i =
      ∑ k ∈ Finset.range rows.length,
        coord marginals k * g (rows.getD k (0, .undefined)).1 := by
  induction rows generalizing marginals with
  | nil => simp [marginal, Table.find?, Exact.zero_eq]
  | cons r rows ih =>
    obtain ⟨a, marginals, rfl⟩ := List.exists_cons_of_length_eq_add_one hlen
    rw [List.map_cons, List.nodup_cons] at hnodup
    have hsplit : ∀ i ∈ Finset.range m, (marginal (r :: rows) (a :: marginals) i).value * g i =
        (if i = r.1 then a.value * g i else 0) + (marginal rows marginals i).value * g i := by
      intro i _
      rw [marginal_cons]
      split
      · rename_i h
        rw [h, marginal_of_notMem hnodup.1, Exact.zero_eq, Exact.value_finite, zero_mul, add_zero]
      · rw [zero_add]
    have hr : r.1 ∈ Finset.range m := Finset.mem_range.2 (hlt r List.mem_cons_self)
    rw [Finset.sum_congr rfl hsplit, Finset.sum_add_distrib, Finset.sum_ite_eq', if_pos hr,
      ih (Nat.succ.inj hlen) hnodup.2 fun r' h => hlt r' (List.mem_cons_of_mem _ h),
      List.length_cons, Finset.sum_range_succ', add_comm]
    rfl

/-- The marginal of a row that was handed over. -/
theorem marginal_ne_zero {rows : List (Nat × Exact F)} {marginals : List (Exact F)} {i : Nat}
    (h : (marginal rows marginals i).value ≠ 0) :
    ∃ k < rows.length, (rows.getD k (0, .undefined)).1 = i ∧
      coord marginals k = (marginal rows marginals i).value := by
  induction rows generalizing marginals with
  | nil => simp [marginal, Table.find?, Exact.zero_eq] at h
  | cons r rows ih =>
    cases marginals with
    | nil => simp [marginal_nil_right, Exact.zero_eq] at h
    | cons a marginals =>
      rw [marginal_cons] at h ⊢
      split at h
      · rename_i hi
        exact ⟨0, Nat.succ_pos _, by simp [hi], by simp [hi, coord]⟩
      · rename_i hi
        obtain ⟨k, hk, hki, hka⟩ := ih h
        exact ⟨k + 1, Nat.succ_lt_succ hk, by simpa using hki, by simpa [hi, coord] using hka⟩

/-! ## Duals from marginals -/

variable {p : LinearProgram (Exact F)} {lower upper : Nat → Exact F} {o : OptimalPoint (Exact F)}

/-- The positions of the sorted rows are rows of the program, each once. -/
theorem nodup_positions (q : Nat → Bool) (side : Nat → Exact F) (m : Nat) :
    ((((List.range m).filter q).map fun i => (i, side i)).map (·.1)).Nodup := by
  rw [List.map_map]
  exact (List.map_id'' (fun _ => rfl) _).symm ▸ List.nodup_range.filter q

/-- A dual is made of the marginals of its row. -/
theorem coord_duals (s : RowSplit (Exact F)) {m i : Nat} (hi : i < m)
    (heq : AllFinite o.equalMarginals) (hup : AllFinite o.upperMarginals) :
    coord (s.duals m o) i = (marginal s.equal o.equalMarginals i).value +
      (marginal s.upper (o.upperMarginals.take s.upper.length) i).value -
      (marginal s.lower (o.upperMarginals.drop s.upper.length) i).value := by
  have h1 := Exact.finite_value (isFinite_marginal s.equal heq i)
  have h2 := Exact.finite_value (isFinite_marginal s.upper (hup.take s.upper.length) i)
  have h3 := Exact.finite_value (isFinite_marginal s.lower (hup.drop s.upper.length) i)
  have hget : (s.duals m o).getD i .undefined = marginal s.equal o.equalMarginals i +
      marginal s.upper (o.upperMarginals.take s.upper.length) i +
      -(marginal s.lower (o.upperMarginals.drop s.upper.length) i) := by
    simp [duals, List.getD_eq_getElem?_getD, hi]
  rw [coord, hget, ← h1, ← h2, ← h3]
  simp [sub_eq_add_neg]

theorem allFinite_duals (s : RowSplit (Exact F)) (m : Nat) (heq : AllFinite o.equalMarginals)
    (hup : AllFinite o.upperMarginals) : AllFinite (s.duals m o) := by
  intro a ha
  obtain ⟨i, -, rfl⟩ := List.mem_map.1 ha
  rw [← Exact.finite_value (isFinite_marginal s.equal heq i),
    ← Exact.finite_value (isFinite_marginal s.upper (hup.take s.upper.length) i),
    ← Exact.finite_value (isFinite_marginal s.lower (hup.drop s.upper.length) i)]
  simp

theorem length_upperRows (s : RowSplit (Exact F)) :
    (s.handed p).upperRows.length = s.upper.length + s.lower.length := by
  simp [handed]

/-- A row that is handed over for its upper side. -/
theorem upperRows_of_upper (s : RowSplit (Exact F)) {k : Nat} (hk : k < s.upper.length) :
    (s.handed p).upperRows.getD k ([], .undefined) =
      (p.rows.getD (s.upper.getD k (0, .undefined)).1 [], (s.upper.getD k (0, .undefined)).2) := by
  rw [handed, List.getD_append _ _ _ _ (by simpa using hk)]
  simp [List.getD_eq_getElem?_getD, hk]

/-- A row that is handed over, with its signs changed, for its lower side. -/
theorem upperRows_of_lower (s : RowSplit (Exact F)) {k : Nat} (hk : k < s.lower.length) :
    (s.handed p).upperRows.getD (s.upper.length + k) ([], .undefined) =
      ((p.rows.getD (s.lower.getD k (0, .undefined)).1 []).negated,
        -(s.lower.getD k (0, .undefined)).2) := by
  rw [handed, List.getD_append_right _ _ _ _ (by simp)]
  simp [List.getD_eq_getElem?_getD, hk]

/-- A row that is handed over as an equation. -/
theorem equalRows_of_equal (s : RowSplit (Exact F)) {k : Nat} (hk : k < s.equal.length) :
    (s.handed p).equalRows.getD k ([], .undefined) =
      (p.rows.getD (s.equal.getD k (0, .undefined)).1 [], (s.equal.getD k (0, .undefined)).2) := by
  simp [handed, List.getD_eq_getElem?_getD, hk]

/-- The upper rows that are handed over, weighed by their marginals. -/
theorem sum_upperRows (s : RowSplit (Exact F)) (marginals : List (Exact F)) (v : Nat → F) :
    ∑ k ∈ Finset.range (s.handed p).upperRows.length,
        coord marginals k * ((s.handed p).upperRows.getD k ([], .undefined)).1.valueAt v =
      (∑ k ∈ Finset.range s.upper.length, coord (marginals.take s.upper.length) k *
        p.rowAt (s.upper.getD k (0, .undefined)).1 v) -
      ∑ k ∈ Finset.range s.lower.length, coord (marginals.drop s.upper.length) k *
        p.rowAt (s.lower.getD k (0, .undefined)).1 v := by
  rw [length_upperRows, Finset.sum_range_add, sub_eq_add_neg, ← Finset.sum_neg_distrib]
  refine congrArg₂ _ (Finset.sum_congr rfl ?_) (Finset.sum_congr rfl ?_)
  · intro k hk
    have hk := Finset.mem_range.1 hk
    rw [coord_take hk, upperRows_of_upper s hk]
    rfl
  · intro k hk
    have hk := Finset.mem_range.1 hk
    rw [coord_drop, upperRows_of_lower s hk, SparseRow.valueAt_negated, mul_neg]
    rfl

/-- The equations that are handed over, weighed by their marginals. -/
theorem sum_equalRows (s : RowSplit (Exact F)) (marginals : List (Exact F)) (v : Nat → F) :
    ∑ k ∈ Finset.range (s.handed p).equalRows.length,
        coord marginals k * ((s.handed p).equalRows.getD k ([], .undefined)).1.valueAt v =
      ∑ k ∈ Finset.range s.equal.length,
        coord marginals k * p.rowAt (s.equal.getD k (0, .undefined)).1 v := by
  have hlength : (s.handed p).equalRows.length = s.equal.length := by simp [handed]
  rw [hlength]
  apply Finset.sum_congr rfl
  intro k hk
  rw [equalRows_of_equal s (Finset.mem_range.1 hk)]
  rfl

/-- The rows of a program weighed by their duals are the rows handed over weighed by
their marginals. -/
theorem sum_duals (h : o.Certifies ((ofSides lower upper p.rows.length).handed p))
    (v : Nat → F) :
    ∑ i ∈ Finset.range p.rows.length,
        coord ((ofSides lower upper p.rows.length).duals p.rows.length o) i * p.rowAt i v =
      (∑ k ∈ Finset.range ((ofSides lower upper p.rows.length).handed p).upperRows.length,
        coord o.upperMarginals k * (((ofSides lower upper p.rows.length).handed p).upperRows.getD k
          ([], .undefined)).1.valueAt v) +
      ∑ k ∈ Finset.range ((ofSides lower upper p.rows.length).handed p).equalRows.length,
        coord o.equalMarginals k * (((ofSides lower upper p.rows.length).handed p).equalRows.getD k
          ([], .undefined)).1.valueAt v := by
  obtain ⟨s, hs⟩ : ∃ s, s = ofSides lower upper p.rows.length := ⟨_, rfl⟩
  have hpositions : (s.equal.map (·.1)).Nodup ∧ (s.upper.map (·.1)).Nodup ∧
      (s.lower.map (·.1)).Nodup := by
    rw [hs]
    exact ⟨nodup_positions _ _ _, nodup_positions _ _ _, nodup_positions _ _ _⟩
  have hrows : (∀ r ∈ s.equal, r.1 < p.rows.length) ∧ (∀ r ∈ s.upper, r.1 < p.rows.length) ∧
      ∀ r ∈ s.lower, r.1 < p.rows.length := by
    rw [hs]
    exact ⟨fun r hr => (mem_equal.1 hr).1, fun r hr => (mem_upper.1 hr).1,
      fun r hr => (mem_lower.1 hr).1⟩
  rw [← hs] at h ⊢
  have hupper := h.upper_length
  have hequal := h.equal_length
  simp only [handed, List.length_append, List.length_map] at hupper hequal
  have hsplit : ∀ i ∈ Finset.range p.rows.length,
      coord (s.duals p.rows.length o) i * p.rowAt i v =
        (marginal s.equal o.equalMarginals i).value * p.rowAt i v +
        (marginal s.upper (o.upperMarginals.take s.upper.length) i).value * p.rowAt i v -
        (marginal s.lower (o.upperMarginals.drop s.upper.length) i).value * p.rowAt i v := by
    intro i hi
    rw [coord_duals s (Finset.mem_range.1 hi) h.equal_finite h.upper_finite]
    ring
  rw [Finset.sum_congr rfl hsplit, Finset.sum_sub_distrib, Finset.sum_add_distrib,
    sum_marginal (p.rowAt · v) hequal hpositions.1 hrows.1,
    sum_marginal (p.rowAt · v) (by simp [hupper]) hpositions.2.1 hrows.2.1,
    sum_marginal (p.rowAt · v) (by simp [hupper]) hpositions.2.2 hrows.2.2,
    sum_upperRows, sum_equalRows]
  ring

/-! ## Active sides -/

theorem agree_finite {a b : Exact F} (h : agree a b = true) :
    ∃ x y, a = .finite x ∧ b = .finite y := by
  cases a <;> cases b <;>
    simp_all [agree, Scalar.less, Scalar.abs, HSub.hSub, Sub.sub, Exact.add, Exact.neg, Exact.lt,
      Neg.neg, equalityTolerance, Scalar.decimal]

/-- The marginal of the upper side of a row. -/
theorem upper_side_active (h : o.Certifies ((ofSides lower upper p.rows.length).handed p))
    (i : Nat) :
    let s := ofSides lower upper p.rows.length
    let a := (marginal s.upper (o.upperMarginals.take s.upper.length) i).value
    a ≤ 0 ∧ (a ≠ 0 → upper i = .finite (p.rowAt i (coord o.point))) := by
  intro s a
  by_cases hne : a = 0
  · exact ⟨hne.le, fun h => absurd hne h⟩
  obtain ⟨k, hk, hki, hka⟩ := marginal_ne_zero hne
  have hlimit : (s.upper.getD k (0, .undefined)).2 = upper i := by
    rw [← hki, List.getD_eq_getElem _ _ hk]
    exact (mem_upper.1 (List.getElem_mem hk)).2.2
  have hlength := s.length_upperRows (p := p)
  have hactive := h.upper_active k (lt_of_lt_of_eq (Nat.lt_add_right _ hk) hlength.symm)
  rw [upperRows_of_upper _ hk, hki, hlimit, ← coord_take hk, hka] at hactive
  exact ⟨hactive.1, fun hne => hactive.2 hne⟩

/-- The marginal of the lower side of a row. -/
theorem lower_side_active (h : o.Certifies ((ofSides lower upper p.rows.length).handed p))
    (i : Nat) :
    let s := ofSides lower upper p.rows.length
    let a := (marginal s.lower (o.upperMarginals.drop s.upper.length) i).value
    a ≤ 0 ∧ (a ≠ 0 → lower i = .finite (p.rowAt i (coord o.point))) := by
  intro s a
  by_cases hne : a = 0
  · exact ⟨hne.le, fun h => absurd hne h⟩
  obtain ⟨k, hk, hki, hka⟩ := marginal_ne_zero hne
  have hlimit : (s.lower.getD k (0, .undefined)).2 = lower i := by
    rw [← hki, List.getD_eq_getElem _ _ hk]
    exact (mem_lower.1 (List.getElem_mem hk)).2.2
  have hlength := s.length_upperRows (p := p)
  have hactive := h.upper_active (s.upper.length + k)
    (lt_of_lt_of_eq (Nat.add_lt_add_left hk _) hlength.symm)
  rw [upperRows_of_lower _ hk, hki, hlimit, ← coord_drop, hka, SparseRow.valueAt_negated] at hactive
  refine ⟨hactive.1, ?_⟩
  intro hne
  have hneg := hactive.2 hne
  cases hl : lower i with
  | finite b =>
    rw [hl, Exact.neg_finite, Exact.finite.injEq, neg_inj] at hneg
    rw [hneg]
    rfl
  | _ => rw [hl] at hneg; cases hneg

/-- A dual has the sign of a side of its row that is active. -/
theorem row_active (hs : Sides p lower upper)
    (h : o.Certifies ((ofSides lower upper p.rows.length).handed p)) {i : Nat}
    (hi : i < p.rows.length) :
    let y := coord ((ofSides lower upper p.rows.length).duals p.rows.length o) i
    (0 < y → p.lowerLimit i = .finite (p.rowAt i (coord o.point))) ∧
      (y < 0 → p.upperLimit i = .finite (p.rowAt i (coord o.point))) := by
  intro y
  rw [hs.lowerLimit i hi, hs.upperLimit i hi]
  have hy : y = _ := coord_duals (ofSides lower upper p.rows.length) hi h.equal_finite h.upper_finite
  cases ha : agree (lower i) (upper i) with
  | true =>
    obtain ⟨b, -, hb, -⟩ := agree_finite ha
    have hrow : p.rowAt i (coord o.point) = b := h.feasible.equal _
      (List.mem_map.2 ⟨(i, lower i), mem_equal.2 ⟨hi, ha, rfl⟩, rfl⟩) b hb
    rw [← hs.crisp i hi ha, hb, hrow]
    exact ⟨fun _ => rfl, fun _ => rfl⟩
  | false =>
    have hequal : marginal (ofSides lower upper p.rows.length).equal o.equalMarginals i = 0 := by
      refine marginal_of_notMem ?_ _
      intro hmem
      obtain ⟨r, hr, rfl⟩ := List.mem_map.1 hmem
      rw [(mem_equal.1 hr).2.1] at ha
      cases ha
    obtain ⟨hup, hupper⟩ := upper_side_active h i
    obtain ⟨hlow, hlower⟩ := lower_side_active h i
    rw [hequal, Exact.zero_eq, Exact.value_finite, zero_add] at hy
    constructor
    · intro hpos
      exact hlower (by intro h0; linarith)
    · intro hneg
      exact hupper (by intro h0; linarith)

end RowSplit

/-! ## Answers -/

namespace LinearProgram

variable {p : LinearProgram (Exact F)} {lower upper : Nat → Exact F} {o : OptimalPoint (Exact F)}

/-- The reduced costs of a result from an optimum. -/
theorem coord_costs (hl : o.lowerMarginals.length = o.boundMarginals.length)
    (hlow : AllFinite o.lowerMarginals) (hbound : AllFinite o.boundMarginals) (j : Nat) :
    coord (List.zipWith (· + ·) o.lowerMarginals o.boundMarginals) j =
      coord o.lowerMarginals j + coord o.boundMarginals j := by
  by_cases hj : j < o.boundMarginals.length
  · have hzip : (List.zipWith (· + ·) o.lowerMarginals o.boundMarginals).getD j .undefined =
        o.lowerMarginals.getD j .undefined + o.boundMarginals.getD j .undefined := by
      simp [List.getD_eq_getElem?_getD, hj, hl]
    rw [coord, hzip, hlow.getD (hl ▸ hj), hbound.getD hj, Exact.finite_add, Exact.value_finite]
  · rw [coord_of_length_le (by simp; omega), coord_of_length_le (by omega),
      coord_of_length_le (by omega), add_zero]

/-- A side that is there is the bound itself. -/
theorem eq_of_bound? {x y : Exact F} (h : HandedProgram.bound? x = some y) : x = y := by
  unfold HandedProgram.bound? at h
  split at h
  · cases h
  · exact Option.some.inj h

theorem getD_mem {α : Type} {xs : List α} {k : Nat} {d : α} (h : k < xs.length) :
    xs.getD k d ∈ xs := by
  rw [List.getD_eq_getElem _ _ h]
  exact List.getElem_mem h

theorem within_upperRows (split : RowSplit (Exact F))
    (hwithin : ∀ r ∈ p.rows, r.Within p.cost.length) :
    ∀ r ∈ (split.handed p).upperRows,
      r.1.Within p.cost.length := by
  intro r hr
  rcases List.mem_append.1 hr with hr | hr
  · obtain ⟨s, -, rfl⟩ := List.mem_map.1 hr
    exact SparseRow.within_getD hwithin s.1
  · obtain ⟨s, -, rfl⟩ := List.mem_map.1 hr
    exact (SparseRow.within_getD hwithin s.1).negated

theorem within_equalRows (split : RowSplit (Exact F))
    (hwithin : ∀ r ∈ p.rows, r.Within p.cost.length) :
    ∀ r ∈ (split.handed p).equalRows,
      r.1.Within p.cost.length := by
  intro r hr
  obtain ⟨s, -, rfl⟩ := List.mem_map.1 hr
  exact SparseRow.within_getD hwithin s.1

theorem allFinite_costs (hlow : AllFinite o.lowerMarginals) (hbound : AllFinite o.boundMarginals) :
    AllFinite (List.zipWith (· + ·) o.lowerMarginals o.boundMarginals) := by
  intro a ha
  obtain ⟨j, hj, rfl⟩ := List.getElem_of_mem ha
  rw [List.length_zipWith] at hj
  have h1 := Exact.finite_value (hlow _ (List.getElem_mem (by omega : j < _)))
  have h2 := Exact.finite_value (hbound _ (List.getElem_mem (by omega : j < _)))
  rw [List.getElem_zipWith, ← h1, ← h2, Exact.finite_add]
  exact Exact.isFinite_finite _

/-- The duals and the reduced costs balance the cost. -/
theorem costAt_eq_duals (hwithin : ∀ r ∈ p.rows, r.Within p.cost.length)
    (h : o.Certifies ((RowSplit.ofSides lower upper p.rows.length).handed p)) (v : Nat → F) :
    costAt p.cost v =
      (∑ i ∈ Finset.range p.rows.length,
        coord ((RowSplit.ofSides lower upper p.rows.length).duals p.rows.length o) i *
          p.rowAt i v) +
      ∑ j ∈ Finset.range p.cost.length,
        coord (List.zipWith (· + ·) o.lowerMarginals o.boundMarginals) j * v j := by
  have hupper := within_upperRows (.ofSides lower upper p.rows.length) hwithin
  have hequal := within_equalRows (.ofSides lower upper p.rows.length) hwithin
  have hsum := RowSplit.sum_duals h v
  rw [← SparseRow.sum_coefficientAt (fun k hk => hupper _ (getD_mem hk)),
    ← SparseRow.sum_coefficientAt (fun k hk => hequal _ (getD_mem hk))] at hsum
  rw [hsum, ← Finset.sum_add_distrib, ← Finset.sum_add_distrib, costAt]
  apply Finset.sum_congr rfl
  intro j hj
  have hstationary := h.stationary j (Finset.mem_range.1 hj)
  rw [coord_costs (h.lower_length.trans h.bound_length.symm) h.lower_finite h.bound_finite]
  simp only [RowSplit.handed] at hstationary ⊢
  rw [hstationary]
  ring

/-- A reduced cost has the sign of a bound of its column that is active. -/
theorem column_active (hl : p.lower.length = p.cost.length) (hu : p.upper.length = p.cost.length)
    (h : o.Certifies ((RowSplit.ofSides lower upper p.rows.length).handed p)) {j : Nat}
    (hj : j < p.cost.length) :
    let d := coord (List.zipWith (· + ·) o.lowerMarginals o.boundMarginals) j
    (0 < d → p.lower.getD j .undefined = .finite (coord o.point j)) ∧
      (d < 0 → p.upper.getD j .undefined = .finite (coord o.point j)) := by
  intro d
  have hd : d = coord o.lowerMarginals j + coord o.boundMarginals j :=
    coord_costs (h.lower_length.trans h.bound_length.symm) h.lower_finite h.bound_finite j
  have hlow := h.lower_active j hj
  have hbound := h.bound_active j hj
  have hbounds : ((RowSplit.ofSides lower upper p.rows.length).handed p).bounds.getD j
      (none, none) = (HandedProgram.bound? (p.lower.getD j .undefined),
        HandedProgram.bound? (p.upper.getD j .undefined)) := by
    simp [RowSplit.handed, List.getD_eq_getElem?_getD, hl, hu, hj]
  rw [hbounds] at hlow hbound
  constructor
  · intro hpos
    exact eq_of_bound? (hlow.2 (by intro h0; linarith [hbound.1]))
  · intro hneg
    exact eq_of_bound? (hbound.2 (by intro h0; linarith [hlow.1]))

/-- An optimal point of what was handed over certifies the result of the program. -/
theorem certifies_withOptimum (hs : RowSplit.Sides p lower upper)
    (hwithin : ∀ r ∈ p.rows, r.Within p.cost.length) (hl : p.lower.length = p.cost.length)
    (hu : p.upper.length = p.cost.length)
    (h : o.Certifies ((RowSplit.ofSides lower upper p.rows.length).handed p)) :
    (p.withOptimum (RowSplit.ofSides lower upper p.rows.length) o).Certifies p where
  point_length := h.point_length
  duals_length := by simp [withOptimum, RowSplit.duals]
  costs_length := by
    have h1 := h.lower_length
    have h2 := h.bound_length
    simp only [RowSplit.handed] at h1 h2
    simp [withOptimum, SolveResult.costs, h1, h2]
  point_finite := h.point_finite
  duals_finite := RowSplit.allFinite_duals _ _ h.equal_finite h.upper_finite
  costs_finite := allFinite_costs h.lower_finite h.bound_finite
  objective := h.value
  feasible := (RowSplit.feasible_handed_iff hs hl hu _).1 h.feasible
  stationary := costAt_eq_duals hwithin h
  row_active := fun _ hi => RowSplit.row_active hs h hi
  column_active := fun _ hj => column_active hl hu h hj

/-! ## Solving -/

/-- Bounds are crossed only where one exceeds the other. -/
theorem crossed_eq_nil {lower upper : List (Exact F)}
    (h : ∀ j < lower.length,
      Scalar.less (upper.getD j .undefined) (lower.getD j .undefined) = false) :
    crossed lower upper = [] := by
  unfold crossed
  rw [List.map_eq_nil_iff, List.filter_eq_nil_iff]
  rintro ⟨b, j⟩ hb
  obtain ⟨hj, rfl⟩ := List.getElem?_eq_some_iff.1 (List.mk_mem_zipIdx_iff_getElem?.1 hb)
  rw [List.length_zipWith] at hj
  have hj := h j (by omega)
  rw [List.getD_eq_getElem _ _ (by omega), List.getD_eq_getElem _ _ (by omega)] at hj
  simp [hj]

/-- The lower bound of every column is at most its upper bound. -/
def Ordered (p : LinearProgram (Exact F)) : Prop :=
  ∀ j < p.cost.length,
    Scalar.atMost (p.lower.getD j .undefined) (p.upper.getD j .undefined) = true

theorem less_of_atMost {a b : Exact F} (h : Scalar.atMost a b = true) :
    Scalar.less b a = false := by
  cases a <;> cases b <;> simp_all [Scalar.atMost, Scalar.less, Exact.lt, Exact.eq]
  exact h.elim le_of_lt le_of_eq

theorem atMost_of_less {a b : Exact F} (ha : a ≠ .undefined) (hb : b ≠ .undefined)
    (h : Scalar.less b a = false) : Scalar.atMost a b = true := by
  cases a <;> cases b <;> simp_all [Scalar.atMost, Scalar.less, Exact.lt, Exact.eq]
  exact lt_or_eq_of_le h

theorem Ordered.crossed_eq_nil {p : LinearProgram (Exact F)} (h : p.Ordered)
    (hlower : p.lower.length = p.cost.length) : crossed p.lower p.upper = [] :=
  LinearProgram.crossed_eq_nil fun j hj => less_of_atMost (h j (hlower ▸ hj))

/-- Bounds that pass the checks are in order. -/
theorem ordered_of_check {p : LinearProgram (Exact F)} (hlower : p.lower.length = p.cost.length)
    (hupper : p.upper.length = p.cost.length)
    (hdefined : .undefined ∉ p.lower ∧ .undefined ∉ p.upper)
    (hcrossed : crossed p.lower p.upper = []) : p.Ordered := by
  intro j hj
  rw [List.getD_eq_getElem _ _ (hlower ▸ hj), List.getD_eq_getElem _ _ (hupper ▸ hj)]
  refine atMost_of_less (fun hj => hdefined.1 (hj ▸ List.getElem_mem _))
    (fun hj => hdefined.2 (hj ▸ List.getElem_mem _)) ?_
  unfold crossed at hcrossed
  rw [List.map_eq_nil_iff, List.filter_eq_nil_iff] at hcrossed
  have hj' : j < (List.zipWith (fun lo hi => Scalar.less hi lo) p.lower p.upper).length := by
    rw [List.length_zipWith]
    omega
  have hpair := hcrossed (_, j) (List.mk_mem_zipIdx_iff_getElem?.2 (List.getElem?_eq_getElem hj'))
  simpa using hpair

/-- What is asked of a program before it is solved: sizes that fit, and values that can be
used. -/
structure Checked (p : LinearProgram (Exact F)) : Prop where
  /-- The matrix has a column for every cost. -/
  columns : p.columns = p.cost.length
  /-- There is a right-hand side for every row, -/
  rightHandSide_length : ∀ b, p.rightHandSide = some b → b.length = p.rows.length
  /-- and a lower and an upper bound for every column. -/
  bounds_length : p.lower.length = p.cost.length ∧ p.upper.length = p.cost.length
  /-- Costs are numbers. -/
  cost : AllFinite p.cost
  /-- Right-hand sides are not undefined, -/
  rightHandSide : ∀ b, p.rightHandSide = some b → .undefined ∉ b
  /-- nor are coefficients, -/
  rows : ∀ r ∈ p.rows, ∀ t ∈ r, t.2 ≠ .undefined
  /-- nor are bounds. -/
  bounds : .undefined ∉ p.lower ∧ .undefined ∉ p.upper
  /-- No bounds are crossed. -/
  uncrossed : crossed p.lower p.upper = []

theorem Checked.ordered {p : LinearProgram (Exact F)} (h : p.Checked) : p.Ordered :=
  ordered_of_check h.bounds_length.1 h.bounds_length.2 h.bounds h.uncrossed

/-- A program is refused before it is solved if and only if the checks fail, and only crossed
bounds are refused as crossed. -/
theorem check_settles (p : LinearProgram (Exact F)) :
    Settles p.check (fun _ => p.Checked)
      (fun f => (f.IsCrossed → crossed p.lower p.upper ≠ []) ∧ ¬ p.Checked) := by
  have hother : ∀ f : Fault (Exact F), (∀ columns, f ≠ .invalid (.boundsCrossed columns)) →
      f.IsCrossed → crossed p.lower p.upper ≠ [] := fun f hf ⟨columns, h⟩ => absurd h (hf columns)
  have hlength : ¬ (p.lower.length ≠ p.cost.length ∨ p.upper.length ≠ p.cost.length) ↔
      p.lower.length = p.cost.length ∧ p.upper.length = p.cost.length := by
    rw [not_or, not_not, not_not]
  have hcost : ¬ (!p.cost.all Scalar.isFinite) = true ↔ AllFinite p.cost := by
    simp [AllFinite]
  have hrows : ¬ (p.rows.any fun r => r.any fun t => Scalar.isUndefined t.2) = true ↔
      ∀ r ∈ p.rows, ∀ t ∈ r, t.2 ≠ .undefined := by
    simp only [List.any_eq_true, Exact.isUndefined_iff, not_exists, not_and, ne_eq]
  have hbounds : ¬ (p.lower.any Scalar.isUndefined || p.upper.any Scalar.isUndefined) = true ↔
      .undefined ∉ p.lower ∧ .undefined ∉ p.upper := by
    simp
  have huncrossed : ¬ (!(crossed p.lower p.upper).isEmpty) = true ↔
      crossed p.lower p.upper = [] := by
    simp
  unfold check
  simp only [bind, Except.bind, pure, Except.pure, throw, throwThe, MonadExceptOf.throw]
  refine Settles.guard (fun h => ⟨hother _ (by simp), fun hp => h hp.columns⟩) fun h₁ => ?_
  cases hright : p.rightHandSide with
  | none =>
    refine Settles.guard (fun h => ⟨hother _ (by simp), fun hp => hlength.2 hp.bounds_length h⟩)
      fun h₂ => ?_
    refine Settles.guard (fun h => ⟨hother _ (by simp), fun hp => hcost.2 hp.cost h⟩) fun h₃ => ?_
    refine Settles.guard (fun h => ⟨hother _ (by simp), fun hp => hrows.2 hp.rows h⟩) fun h₄ => ?_
    refine Settles.guard (fun h => ⟨hother _ (by simp), fun hp =>
      hbounds.2 hp.bounds h⟩) fun h₅ => ?_
    refine Settles.guard (fun h => ⟨fun _ hnil => huncrossed.2 hnil h,
      fun hp => huncrossed.2 hp.uncrossed h⟩) fun h₆ => ?_
    exact ⟨not_not.1 h₁, by simp [hright], hlength.1 h₂, hcost.1 h₃, by simp [hright],
      hrows.1 h₄, hbounds.1 h₅, huncrossed.1 h₆⟩
  | some b =>
    have hdefined : ¬ b.any Scalar.isUndefined = true ↔ .undefined ∉ b := by simp
    refine Settles.guard (fun h => ⟨hother _ (by simp), fun hp =>
      h (hp.rightHandSide_length b hright)⟩) fun h₂ => ?_
    refine Settles.guard (fun h => ⟨hother _ (by simp), fun hp => hlength.2 hp.bounds_length h⟩)
      fun h₃ => ?_
    refine Settles.guard (fun h => ⟨hother _ (by simp), fun hp => hcost.2 hp.cost h⟩) fun h₄ => ?_
    refine Settles.guard (fun h => ⟨hother _ (by simp), fun hp =>
      hdefined.2 (hp.rightHandSide b hright) h⟩) fun h₅ => ?_
    refine Settles.guard (fun h => ⟨hother _ (by simp), fun hp => hrows.2 hp.rows h⟩) fun h₆ => ?_
    refine Settles.guard (fun h => ⟨hother _ (by simp), fun hp =>
      hbounds.2 hp.bounds h⟩) fun h₇ => ?_
    refine Settles.guard (fun h => ⟨fun _ hnil => huncrossed.2 hnil h,
      fun hp => huncrossed.2 hp.uncrossed h⟩) fun h₈ => ?_
    refine ⟨not_not.1 h₁, ?_, hlength.1 h₃, hcost.1 h₄, ?_, hrows.1 h₆, hbounds.1 h₇,
      huncrossed.1 h₈⟩
    · rintro _ hb
      cases hright.symm.trans hb
      exact not_not.1 h₂
    · rintro _ hb
      cases hright.symm.trans hb
      exact hdefined.1 h₅

/-- A program that passes the checks is not refused before it is solved. -/
theorem Checked.check_eq {p : LinearProgram (Exact F)} (h : p.Checked) : p.check = .ok () := by
  cases hp : p.check with
  | ok _ => rfl
  | error f => exact absurd h ((check_settles p).of_error hp).2

/-- The limits of the rows of a program fit its rows, and those that count as equal
are equal. -/
structure Regular (p : LinearProgram (Exact F)) : Prop where
  /-- Rows mention columns of the program. -/
  within : ∀ r ∈ p.rows, r.Within p.cost.length
  /-- Limits that are refused are not refused as crossed bounds. -/
  limits : Settles p.rowLimits
    (fun l => l.1.length = p.rows.length ∧ l.2.length = p.rows.length ∧
      ∀ i < p.rows.length, RowSplit.agree (l.1.getD i .undefined) (l.2.getD i .undefined) = true →
        l.1.getD i .undefined = l.2.getD i .undefined)
    (fun f => ¬ f.IsCrossed)

theorem not_isCrossed_misuse {K : Type} (w : Misuse) : ¬ (Fault.misuse w : Fault K).IsCrossed := by
  rintro ⟨_, h⟩
  cases h

theorem not_isCrossed_of_isBreakdown {K : Type} {f : Fault K} (h : f.IsBreakdown) :
    ¬ f.IsCrossed := by
  obtain ⟨w, rfl⟩ := h
  exact not_isCrossed_misuse w

theorem convert_settles {α β : Type} (r : Except Setting.Unfit α)
    {rest : Option α → Except (Fault (Exact F)) β}
    (h : ∀ a, Settles (rest a) (fun _ => True) fun f => ¬ f.IsCrossed) :
    Settles (some <$> Setting.convert r >>= rest) (fun _ => True) (fun f => ¬ f.IsCrossed) := by
  cases r with
  | ok a => exact h a
  | error u => cases u <;> exact not_isCrossed_misuse _

/-- Options that cannot be read are not refused as crossed bounds. -/
theorem ofParams_settles (params : Setting (Exact F)) :
    Settles (Effort.ofParams params) (fun _ => True) (fun f => ¬ f.IsCrossed) := by
  unfold Effort.ofParams
  cases Effort.option? params "max_iterations" "max_iters" <;>
    cases Effort.option? params "tolerance" "tol" <;>
    cases Effort.option? params "time_limit" "time_limit" <;>
    simp only [pure_bind] <;>
    repeat first
      | exact trivial
      | refine convert_settles _ fun _ => ?_

variable {σ : Type} [Host σ (Exact F)]

/-- Every result answers the program, and only crossed bounds are refused as such. -/
theorem solve_ensures (host : Host.Sound σ F) (hp : p.Regular) (params : Setting (Exact F)) :
    (p.solve params : Act σ (Exact F) _).Ensures (·.Answers p)
      (fun f => f.IsCrossed → crossed p.lower p.upper ≠ []) := by
  unfold solve
  refine Act.ensures_bind (Act.ensures_lift ((check_settles p).mono ?_
    fun _ hf => hf.1))
  intro _ hchecked
  refine Act.ensures_bind (Act.ensures_lift (hp.limits.with_eq.mono ?_
    fun f hf h => absurd h hf))
  intro l hl
  obtain ⟨lower, upper⟩ := l
  obtain ⟨hlimits, hlower, hupper, hcrisp⟩ := hl
  -- The engine gets the rows sorted by their limits.  The feasible points are the same, so that
  -- its verdict is one about the program.
  have hsides : RowSplit.Sides p (lower.getD · .undefined) (upper.getD · .undefined) :=
    ⟨fun i _ => by simp only [lowerLimit, hlimits], fun i _ => by simp only [upperLimit, hlimits],
      hcrisp⟩
  have hsplit := RowSplit.ofLimits_eq hlower hupper
  simp only at hsplit ⊢
  rw [hsplit]
  refine Act.ensures_bind (Act.ensures_pure ?_)
  refine Act.ensures_bind (Act.ensures_lift ((ofParams_settles params).mono ?_
    fun f hf h => absurd h hf))
  intro effort _
  generalize hsorted : RowSplit.ofSides (lower.getD · .undefined) (upper.getD · .undefined)
    p.rows.length = split
  have hfeasible := RowSplit.feasible_handed_iff hsides hchecked.bounds_length.1
    hchecked.bounds_length.2
  rw [hsorted] at hfeasible
  show Act.Ensures (if _ then _ else _) _ _
  split
  · exact Act.ensures_bind (Act.ensures_fail fun h => absurd h (not_isCrossed_misuse _))
  · refine Act.ensures_bind ((host.verdict (split.handed p) effort).mono ?_
      fun f hf h => absurd h (not_isCrossed_of_isBreakdown hf))
    intro v hv
    cases v with
    | optimal o =>
      subst hsorted
      exact Act.ensures_pure (certifies_withOptimum hsides hp.within hchecked.bounds_length.1
        hchecked.bounds_length.2 hv)
    | ended status =>
      refine Act.ensures_pure ?_
      cases status with
      | infeasible => exact fun x hx => hv x ((hfeasible x).2 hx)
      | unbounded =>
        intro level
        obtain ⟨x, hx, hlevel⟩ := hv level
        exact ⟨x, (hfeasible x).1 hx, hlevel⟩
      | _ => exact hv.elim

/-- Only programs whose bounds are in order are solved. -/
theorem solve_ordered (p : LinearProgram (Exact F)) (params : Setting (Exact F)) :
    (p.solve params : Act σ (Exact F) _).Ensures
      (fun _ => p.lower.length = p.cost.length ∧ p.Ordered) (fun _ => True) := by
  unfold solve
  refine Act.ensures_bind (Act.ensures_lift ((check_settles p).mono ?_
    fun _ _ => trivial))
  intro _ hchecked ledger
  exact (Settles.self _).mono (fun _ _ => ⟨hchecked.bounds_length.1, hchecked.ordered⟩)
    fun _ => id

/-- Only programs whose costs are numbers are solved. -/
theorem solve_cost (p : LinearProgram (Exact F)) (params : Setting (Exact F)) :
    (p.solve params : Act σ (Exact F) _).Ensures (fun _ => AllFinite p.cost) fun _ => True := by
  unfold solve
  refine Act.ensures_bind (Act.ensures_lift ((check_settles p).mono ?_ fun _ _ => trivial))
  intro _ hchecked ledger
  exact (Settles.self _).mono (fun _ _ => hchecked.cost) fun _ => id

/-- An optimal result has a point made of numbers, whatever the program. -/
theorem solve_point (host : Host.Sound σ F) (p : LinearProgram (Exact F))
    (params : Setting (Exact F)) :
    (p.solve params : Act σ (Exact F) _).Ensures
      (fun r => r.status = .optimal → AllFinite r.point) fun _ => True := by
  unfold solve
  refine Act.ensures_lift_bind (fun _ _ => ?_) fun _ => trivial
  refine Act.ensures_lift_bind (fun l _ => ?_) fun _ => trivial
  refine Act.ensures_lift_bind (fun split _ => ?_) fun _ => trivial
  refine Act.ensures_lift_bind (fun effort _ => ?_) fun _ => trivial
  dsimp only
  split
  · exact Act.ensures_bind (Act.ensures_fail trivial)
  refine Act.ensures_bind ((host.verdict _ _).mono (fun v hv => ?_) fun _ _ => trivial)
  cases v with
  | optimal o => exact Act.ensures_pure fun _ => hv.point_finite
  | ended status =>
    refine Act.ensures_pure fun hstatus => ?_
    obtain rfl : status = .optimal := hstatus
    exact hv.elim

end LinearProgram

end Recourse
