/-
  Proofs/Linear/Duality.lean --- the prices of an optimum.

  Prices for the rows and the columns of a linear program prove that a point is optimal
  (`SolveResult.Certifies`).  Some of them are enough to tell whether they are part of
  such a proof: prices for the leading rows and columns are when what they leave of the
  cost is least at the point, among all points within the other rows and columns
  (`exists_certificate`), and those of a certificate always are so
  (`SolveResult.Certifies.residual_le`).
-/
import Recourse.Proofs.Linear.Answer

set_option autoImplicit false
set_option linter.unusedSectionVars false

open scoped BigOperators

namespace Recourse

variable {F : Type} [Field F] [LinearOrder F] [IsStrictOrderedRing F] [FloorRing F]

/-! ## Prices of bands -/

/-- A small step keeps below a limit that is not reached. -/
theorem exists_step_le {a limit : F} (rise : F) (h : a ≤ limit) (hstay : a = limit → rise ≤ 0) :
    ∃ t : F, 0 < t ∧ a + t * rise ≤ limit := by
  by_cases hrise : rise ≤ 0
  · exact ⟨1, one_pos, by linarith⟩
  · have hpos : 0 < rise := not_le.1 hrise
    have hbelow : a < limit := lt_of_le_of_ne h fun heq => hrise (hstay heq)
    refine ⟨(limit - a) / rise, div_pos (sub_pos.2 hbelow) hpos, ?_⟩
    rw [div_mul_cancel₀ _ hpos.ne']
    linarith

namespace Band

variable {b : Band F} {v d : Nat → F}

/-- A step that keeps to a band may be shortened. -/
theorem Holds.shorten (hv : b.Holds v) {t t' : F} (h : b.Holds (v + t • d)) (hpos : 0 < t)
    (h0 : 0 ≤ t') (hle : t' ≤ t) : b.Holds (v + t' • d) := by
  have hsegment := hv.segment h (div_nonneg h0 hpos.le) ((div_le_one hpos).2 hle)
  rwa [add_sub_cancel_left, smul_smul, div_mul_cancel₀ _ hpos.ne'] at hsegment

/-- A small step keeps to a band when it leads away from the limits that are reached. -/
theorem Holds.exists_step (h : b.Holds v)
    (hlower : b.lower = .finite (b.slope v) → 0 ≤ b.slope d)
    (hupper : b.upper = .finite (b.slope v) → b.slope d ≤ 0) :
    ∃ t : F, 0 < t ∧ b.Holds (v + t • d) := by
  have hmove : ∀ t : F, b.slope (v + t • d) = b.slope v + t * b.slope d := fun t => by
    rw [map_add, map_smul, smul_eq_mul]
  obtain ⟨t, ht, hup⟩ : ∃ t : F, 0 < t ∧ b.upper.RespectsUpper (b.slope (v + t • d)) := by
    cases hlimit : b.upper with
    | finite u =>
      obtain ⟨t, ht, hle⟩ := exists_step_le (b.slope d) (h.2 u hlimit)
        fun heq => hupper (heq ▸ hlimit)
      exact ⟨t, ht, by rwa [Exact.respectsUpper_finite, hmove]⟩
    | _ => exact ⟨1, one_pos, by simp [Exact.RespectsUpper]⟩
  obtain ⟨t', ht', hdown⟩ : ∃ t : F, 0 < t ∧ b.lower.RespectsLower (b.slope (v + t • d)) := by
    cases hlimit : b.lower with
    | finite l =>
      obtain ⟨t, ht, hle⟩ := exists_step_le (-b.slope d) (neg_le_neg (h.1 l hlimit))
        fun heq => neg_nonpos.2 (hlower (neg_inj.1 heq ▸ hlimit))
      refine ⟨t, ht, ?_⟩
      rw [Exact.respectsLower_finite, hmove]
      linarith
    | _ => exact ⟨1, one_pos, by simp [Exact.RespectsLower]⟩
  -- Each limit is kept on its own; the shorter of the two steps keeps both.
  have hlow : Band.Holds ⟨b.slope, b.lower, .plusInfinity⟩ (v + min t t' • d) :=
    Holds.shorten (b := ⟨b.slope, b.lower, .plusInfinity⟩) ⟨h.1, by simp [Exact.RespectsUpper]⟩
      ⟨hdown, by simp [Exact.RespectsUpper]⟩ ht' (le_min ht.le ht'.le) (min_le_right _ _)
  have hhigh : Band.Holds ⟨b.slope, .minusInfinity, b.upper⟩ (v + min t t' • d) :=
    Holds.shorten (b := ⟨b.slope, .minusInfinity, b.upper⟩) ⟨by simp [Exact.RespectsLower], h.2⟩
      ⟨by simp [Exact.RespectsLower], hup⟩ ht (le_min ht.le ht'.le) (min_le_left _ _)
  exact ⟨min t t', lt_min ht ht', hlow.1, hhigh.2⟩

/-- So it does for several bands at once. -/
theorem exists_common_step {ι : Type} (s : Finset ι) {b : ι → Band F}
    (h : ∀ i ∈ s, (b i).Holds v)
    (hlower : ∀ i ∈ s, (b i).lower = .finite ((b i).slope v) → 0 ≤ (b i).slope d)
    (hupper : ∀ i ∈ s, (b i).upper = .finite ((b i).slope v) → (b i).slope d ≤ 0) :
    ∃ t : F, 0 < t ∧ ∀ i ∈ s, (b i).Holds (v + t • d) := by
  classical
  induction s using Finset.induction_on with
  | empty => exact ⟨1, one_pos, fun i hi => absurd hi (Finset.notMem_empty i)⟩
  | insert i s hi ih =>
    rw [Finset.forall_mem_insert] at h hlower hupper
    obtain ⟨t, ht, hall⟩ := ih h.2 hlower.2 hupper.2
    obtain ⟨t', ht', hone⟩ := h.1.exists_step hlower.1 hupper.1
    have hmin : 0 ≤ min t t' := le_min ht.le ht'.le
    refine ⟨min t t', lt_min ht ht', (Finset.forall_mem_insert _ _ _).2 ⟨?_, fun k hk => ?_⟩⟩
    · exact h.1.shorten hone ht' hmin (min_le_right _ _)
    · exact (h.2 k hk).shorten (hall k hk) ht hmin (min_le_left _ _)

open Classical in
/-- The function of a band where it must not rise or must not fall, because the point is at
a limit. -/
noncomputable def edge (b : Band F) (v : Nat → F) (atUpper : Bool) : (Nat → F) →ₗ[F] F :=
  if atUpper then if b.upper = .finite (b.slope v) then b.slope else 0
  else if b.lower = .finite (b.slope v) then -b.slope else 0

/-- Weights for both limits make one price. -/
theorem exists_price (b : Band F) (v : Nat → F) {l u : F} (hl : 0 ≤ l) (hu : 0 ≤ u) :
    ∃ price, b.Charges v price ∧ u • b.edge v true + l • b.edge v false = -(price • b.slope) := by
  by_cases hlower : b.lower = .finite (b.slope v) <;>
    by_cases hupper : b.upper = .finite (b.slope v)
  · refine ⟨l - u, ⟨fun _ => hlower, fun _ => hupper⟩, ?_⟩
    refine LinearMap.ext fun w => ?_
    simp only [edge, if_true, if_pos hlower, if_pos hupper, Bool.false_eq_true, if_false,
      LinearMap.add_apply, LinearMap.smul_apply, LinearMap.neg_apply, smul_eq_mul]
    ring
  · refine ⟨l, ⟨fun _ => hlower, fun h => absurd h (not_lt.2 hl)⟩, ?_⟩
    simp [edge, hlower, hupper]
  · refine ⟨-u, ⟨fun h => absurd h (not_lt.2 (neg_nonpos.2 hu)), fun _ => hupper⟩, ?_⟩
    refine LinearMap.ext fun w => ?_
    simp [edge, hlower, hupper]
  · exact ⟨0, ⟨fun h => absurd h (lt_irrefl _), fun h => absurd h (lt_irrefl _)⟩, by
      simp [edge, hlower, hupper]⟩

/-- A linear function that is least at a point of several bands is a sum of prices times
their functions. -/
theorem exists_prices {ι : Type} (s : Finset ι) {b : ι → Band F} (c : (Nat → F) →ₗ[F] F)
    (h : ∀ i ∈ s, (b i).Holds v) (hleast : ∀ w, (∀ i ∈ s, (b i).Holds w) → c v ≤ c w) :
    ∃ price : ι → F, (∀ i ∈ s, (b i).Charges v (price i)) ∧
      c = ∑ i ∈ s, price i • (b i).slope := by
  rcases falls_or_cancels (s ×ˢ Finset.univ) (fun k : ι × Bool => (b k.1).edge v k.2) c with
    ⟨d, hd, hfalls⟩ | ⟨w, hw, hcancels⟩
  · -- A small step in the direction would be better than the point.
    have hstay : ∀ i ∈ s, ∀ atUpper, (b i).edge v atUpper d ≤ 0 := fun i hi atUpper =>
      hd (i, atUpper) (Finset.mem_product.2 ⟨hi, Finset.mem_univ _⟩)
    obtain ⟨t, ht, hholds⟩ := exists_common_step (d := d) s h
      (fun i hi hlower => by simpa [edge, hlower] using hstay i hi false)
      (fun i hi hupper => by simpa [edge, hupper] using hstay i hi true)
    have hle := hleast _ hholds
    rw [map_add, map_smul, smul_eq_mul] at hle
    exact absurd hle (add_lt_of_neg_right _ (mul_neg_of_pos_of_neg ht hfalls)).not_ge
  · have hprices : ∀ i ∈ s, ∃ price, (b i).Charges v price ∧
        w (i, true) • (b i).edge v true + w (i, false) • (b i).edge v false =
          -(price • (b i).slope) := fun i hi =>
      (b i).exists_price v (hw _ (Finset.mem_product.2 ⟨hi, Finset.mem_univ _⟩))
        (hw _ (Finset.mem_product.2 ⟨hi, Finset.mem_univ _⟩))
    choose! price hcharges hsum using hprices
    refine ⟨price, hcharges, ?_⟩
    rw [Finset.sum_product] at hcancels
    simp only [Fintype.univ_bool, Finset.sum_pair (Bool.false_ne_true.symm)] at hcancels
    rw [Finset.sum_congr rfl hsum, Finset.sum_neg_distrib] at hcancels
    exact sub_eq_zero.1 ((sub_eq_add_neg _ _).trans hcancels)

end Band

/-! ## Prices of the leading rows and columns -/

namespace LinearProgram

variable {p : LinearProgram (Exact F)} {y d : List (Exact F)} {v : Nat → F}

/-- What prices for the leading rows and columns charge for a point. -/
def charge (p : LinearProgram (Exact F)) (y d : List (Exact F)) (v : Nat → F) : F :=
  (∑ i ∈ Finset.range y.length, coord y i * p.rowAt i v) +
    ∑ j ∈ Finset.range d.length, coord d j * v j

/-- What they leave of its cost. -/
def residual (p : LinearProgram (Exact F)) (y d : List (Exact F)) (v : Nat → F) : F :=
  costAt p.cost v - p.charge y d v

/-- A point keeps to the rows and the columns behind some leading ones. -/
structure HoldsBehind (p : LinearProgram (Exact F)) (rows columns : Nat) (v : Nat → F) :
    Prop where
  /-- The rows. -/
  rows : ∀ i < p.rows.length, rows ≤ i → p.RowHolds i v
  /-- The columns. -/
  columns : ∀ j < p.cost.length, columns ≤ j → p.ColumnHolds j v

/-- Prices for the leading rows and columns belong to a point. -/
structure ChargesAhead (p : LinearProgram (Exact F)) (y d : List (Exact F)) (v : Nat → F) :
    Prop where
  /-- There are no more prices than rows, -/
  rows_le : y.length ≤ p.rows.length
  /-- and no more than columns. -/
  columns_le : d.length ≤ p.cost.length
  /-- The prices of rows are numbers. -/
  rows_finite : AllFinite y
  /-- So are those of columns. -/
  columns_finite : AllFinite d
  /-- They belong to the point, -/
  rows : ∀ i < y.length, (p.rowBand i).Charges v (coord y i)
  /-- and so do those of columns. -/
  columns : ∀ j < d.length, (p.columnBand j).Charges v (coord d j)

/-- A program begins with the rows and the columns of another one. -/
structure Extends (p q : LinearProgram (Exact F)) : Prop where
  /-- There are no fewer rows, -/
  rows_le : q.rows.length ≤ p.rows.length
  /-- and no fewer columns. -/
  columns_le : q.cost.length ≤ p.cost.length
  /-- The rows are the same and have the same limits. -/
  row : ∀ i < q.rows.length, p.rowBand i = q.rowBand i
  /-- The columns have the same bounds. -/
  column : ∀ j < q.cost.length, p.columnBand j = q.columnBand j

namespace Extends

variable {q : LinearProgram (Exact F)}

/-- What prices for the rows and columns of the other program charge. -/
theorem charge_eq (h : p.Extends q) (hy : y.length = q.rows.length) (v : Nat → F) :
    p.charge y d v = q.charge y d v := by
  rw [charge, charge]
  refine congrArg₂ _ (Finset.sum_congr rfl fun i hi => ?_) rfl
  have hrow := h.row i (hy ▸ Finset.mem_range.1 hi)
  have hslope : p.rowAt i v = q.rowAt i v := congrArg (fun b : Band F => b.slope v) hrow
  rw [hslope]

/-- Which points they belong to. -/
theorem chargesAhead_iff (h : p.Extends q) (hy : y.length = q.rows.length)
    (hd : d.length = q.cost.length) (v : Nat → F) :
    p.ChargesAhead y d v ↔ q.ChargesAhead y d v := by
  constructor
  · intro hv
    refine ⟨hy.le, hd.le, hv.rows_finite, hv.columns_finite, fun i hi => ?_, fun j hj => ?_⟩
    · exact h.row i (hy ▸ hi) ▸ hv.rows i hi
    · exact h.column j (hd ▸ hj) ▸ hv.columns j hj
  · intro hv
    refine ⟨hy.le.trans h.rows_le, hd.le.trans h.columns_le, hv.rows_finite, hv.columns_finite,
      fun i hi => ?_, fun j hj => ?_⟩
    · exact (h.row i (hy ▸ hi)).symm ▸ hv.rows i hi
    · exact (h.column j (hd ▸ hj)).symm ▸ hv.columns j hj

end Extends

/-- Prices charge the same for points with the same entries. -/
theorem charge_congr (hwithin : ∀ r ∈ p.rows, r.Within p.cost.length)
    (hd : d.length = p.cost.length) {w : Nat → F} (h : ∀ j < p.cost.length, v j = w j) :
    p.charge y d v = p.charge y d w := by
  rw [charge, charge]
  refine congrArg₂ _ (Finset.sum_congr rfl fun i _ => ?_) (Finset.sum_congr rfl fun j hj => ?_)
  · rw [rowAt, rowAt, SparseRow.valueAt_congr fun t ht =>
      h t.1 (SparseRow.within_getD hwithin i t ht)]
  · rw [h j (hd ▸ Finset.mem_range.1 hj)]

/-- They belong to all of these points or to none. -/
theorem ChargesAhead.congr (h : p.ChargesAhead y d v)
    (hwithin : ∀ r ∈ p.rows, r.Within p.cost.length) {w : Nat → F}
    (hvw : ∀ j < p.cost.length, v j = w j) : p.ChargesAhead y d w := by
  refine ⟨h.rows_le, h.columns_le, h.rows_finite, h.columns_finite, fun i hi => ?_,
    fun j hj => ?_⟩
  · have hsame : (p.rowBand i).slope w = (p.rowBand i).slope v :=
      (SparseRow.valueAt_congr fun t ht => hvw t.1 (SparseRow.within_getD hwithin i t ht)).symm
    exact (h.rows i hi).of_free (by rw [hsame, sub_self, mul_zero])
  · have hsame : (p.columnBand j).slope w = (p.columnBand j).slope v :=
      (hvw j (hj.trans_le h.columns_le)).symm
    exact (h.columns j hj).of_free (by rw [hsame, sub_self, mul_zero])

/-! ## Prices put behind others -/

/-- Some prices and behind them `n` more. -/
def extend (y : List (Exact F)) (n : Nat) (price : Nat → F) : List (Exact F) :=
  y ++ ((List.range n).map price).map .finite

section Extend

variable {n : Nat} {price : Nat → F}

theorem length_extend : (extend y n price).length = y.length + n := by
  simp [extend]

theorem take_extend : (extend y n price).take y.length = y := List.take_left

theorem allFinite_extend (hy : AllFinite y) : AllFinite (extend y n price) := by
  intro a ha
  rcases List.mem_append.1 ha with ha | ha
  · exact hy a ha
  · exact allFinite_map_finite _ a ha

theorem coord_extend_left {i : Nat} (hi : i < y.length) :
    coord (extend y n price) i = coord y i := coord_append_left hi

theorem coord_extend_right {k : Nat} (hk : k < n) :
    coord (extend y n price) (y.length + k) = price k := by
  rw [extend, coord_append_right (Nat.le_add_right _ _), Nat.add_sub_cancel_left,
    coord_map_range hk]

/-- What holds for the prices of both kinds holds for all. -/
theorem forall_coord_extend {P : Nat → F → Prop} (hy : ∀ i < y.length, P i (coord y i))
    (hprice : ∀ k < n, P (y.length + k) (price k)) {i : Nat} (hi : i < y.length + n) :
    P i (coord (extend y n price) i) := by
  by_cases hold : i < y.length
  · rw [coord_extend_left hold]
    exact hy i hold
  · obtain ⟨k, rfl⟩ := Nat.exists_eq_add_of_le (not_lt.1 hold)
    have hk : k < n := Nat.lt_of_add_lt_add_left hi
    rw [coord_extend_right hk]
    exact hprice k hk

/-- What they charge together. -/
theorem sum_coord_extend (g : Nat → F) :
    ∑ i ∈ Finset.range (y.length + n), coord (extend y n price) i * g i =
      (∑ i ∈ Finset.range y.length, coord y i * g i) +
        ∑ k ∈ Finset.range n, price k * g (y.length + k) := by
  rw [Finset.sum_range_add]
  refine congrArg₂ _ (Finset.sum_congr rfl fun i hi => ?_) (Finset.sum_congr rfl fun k hk => ?_)
  · rw [coord_extend_left (Finset.mem_range.1 hi)]
  · rw [coord_extend_right (Finset.mem_range.1 hk)]

end Extend

/-! ## From prices to a certificate -/

/-- What prices leave of the cost is a linear function. -/
def residualFunctional (p : LinearProgram (Exact F)) (y d : List (Exact F)) :
    (Nat → F) →ₗ[F] F :=
  costFunctional p.cost -
    ((∑ i ∈ Finset.range y.length, coord y i • (p.rowBand i).slope) +
      ∑ j ∈ Finset.range d.length, coord d j • (p.columnBand j).slope)

theorem residualFunctional_apply (p : LinearProgram (Exact F)) (y d : List (Exact F))
    (v : Nat → F) : p.residualFunctional y d v = p.residual y d v := by
  simp only [residualFunctional, LinearMap.sub_apply, LinearMap.add_apply, LinearMap.sum_apply,
    LinearMap.smul_apply, smul_eq_mul]
  rfl

/-- When what prices leave of the cost is least at a point, within the rows and columns
behind them, it is what prices for those charge. -/
theorem exists_prices_behind {x : Nat → F} (hfeasible : p.Feasible x) {m n : Nat}
    (hm : p.rows.length = y.length + m) (hn : p.cost.length = d.length + n)
    (hleast : ∀ v, p.HoldsBehind y.length d.length v → p.residual y d x ≤ p.residual y d v) :
    ∃ rowPrice columnPrice : Nat → F,
      (∀ k < m, (p.rowBand (y.length + k)).Charges x (rowPrice k)) ∧
      (∀ k < n, (p.columnBand (d.length + k)).Charges x (columnPrice k)) ∧
      ∀ v, p.residual y d v =
        (∑ k ∈ Finset.range m, rowPrice k * p.rowAt (y.length + k) v) +
          ∑ k ∈ Finset.range n, columnPrice k * v (d.length + k) := by
  -- The rows and the columns behind, as one family of bands.
  let behind : Nat ⊕ Nat → Band F :=
    Sum.elim (fun k => p.rowBand (y.length + k)) fun k => p.columnBand (d.length + k)
  have hholds : ∀ k ∈ (Finset.range m).disjSum (Finset.range n), (behind k).Holds x := by
    intro k hk
    rcases Finset.mem_disjSum.1 hk with ⟨i, hi, rfl⟩ | ⟨j, hj, rfl⟩
    · exact hfeasible.rows _ (hm ▸ Nat.add_lt_add_left (Finset.mem_range.1 hi) _)
    · exact hfeasible.columns _ (hn ▸ Nat.add_lt_add_left (Finset.mem_range.1 hj) _)
  obtain ⟨price, hcharges, hsum⟩ := Band.exists_prices _ (p.residualFunctional y d) hholds
    fun v hv => by
      rw [residualFunctional_apply, residualFunctional_apply]
      refine hleast v ⟨fun i hi hle => ?_, fun j hj hle => ?_⟩
      · obtain ⟨k, rfl⟩ := Nat.exists_eq_add_of_le hle
        exact hv (.inl k) (Finset.inl_mem_disjSum.2 (Finset.mem_range.2 (by omega)))
      · obtain ⟨k, rfl⟩ := Nat.exists_eq_add_of_le hle
        exact hv (.inr k) (Finset.inr_mem_disjSum.2 (Finset.mem_range.2 (by omega)))
  refine ⟨price ∘ .inl, price ∘ .inr, fun k hk => ?_, fun k hk => ?_, fun v => ?_⟩
  · exact hcharges (.inl k) (Finset.inl_mem_disjSum.2 (Finset.mem_range.2 hk))
  · exact hcharges (.inr k) (Finset.inr_mem_disjSum.2 (Finset.mem_range.2 hk))
  · rw [← residualFunctional_apply, hsum, Finset.sum_disjSum]
    simp only [LinearMap.add_apply, LinearMap.sum_apply, LinearMap.smul_apply, smul_eq_mul]
    rfl

/-- When what prices for the leading rows and columns leave of the cost is least at a point
they belong to, there are prices for the rows and columns behind with which they prove the
point optimal. -/
theorem exists_certificate {x : List (Exact F)} (hfinite : AllFinite x)
    (hlength : x.length = p.cost.length) (hfeasible : p.Feasible (coord x))
    (h : p.ChargesAhead y d (coord x))
    (hleast : ∀ v, p.HoldsBehind y.length d.length v →
      p.residual y d (coord x) ≤ p.residual y d v) :
    ∃ r : SolveResult (Exact F), r.status = .optimal ∧ r.Certifies p ∧ r.point = x ∧
      r.duals.take y.length = y ∧ r.costs.take d.length = d := by
  obtain ⟨m, hm⟩ := Nat.exists_eq_add_of_le h.rows_le
  obtain ⟨n, hn⟩ := Nat.exists_eq_add_of_le h.columns_le
  obtain ⟨rowPrice, columnPrice, hrows, hcolumns, hresidual⟩ :=
    exists_prices_behind hfeasible hm hn hleast
  refine ⟨{ status := .optimal, objective := .finite (costAt p.cost (coord x)), point := x
            duals := extend y m rowPrice, reducedCosts := some (extend d n columnPrice)
            iterations := 0, seconds := 0, gap := 0 }, rfl, ?_, rfl, take_extend, take_extend⟩
  refine
    { point_length := hlength
      duals_length := length_extend.trans hm.symm
      costs_length := length_extend.trans hn.symm
      point_finite := hfinite
      duals_finite := allFinite_extend h.rows_finite
      costs_finite := allFinite_extend h.columns_finite
      objective := rfl
      feasible := hfeasible
      stationary := fun v => ?_
      row_active := fun i hi => ?_
      column_active := fun j hj => ?_ }
  · have hv := hresidual v
    rw [residual, charge] at hv
    rw [hm, hn]
    show _ = (∑ i ∈ _, coord (extend y m _) i * _) + ∑ j ∈ _, coord (extend d n _) j * _
    rw [sum_coord_extend, sum_coord_extend]
    linear_combination hv
  · exact forall_coord_extend (P := fun i => (p.rowBand i).Charges (coord x)) h.rows hrows
      (hm ▸ hi)
  · exact forall_coord_extend (P := fun j => (p.columnBand j).Charges (coord x)) h.columns
      hcolumns (hn ▸ hj)

end LinearProgram

/-! ## From a certificate to prices -/

namespace SolveResult.Certifies

variable {r : SolveResult (Exact F)} {p : LinearProgram (Exact F)} {x : Nat → F}

/-- The prices of a certificate belong to every feasible point that costs no more. -/
theorem charges_of_cost_le (h : r.Certifies p) (hx : p.Feasible x)
    (hcost : costAt p.cost x ≤ costAt p.cost (coord r.point)) :
    (∀ i < p.rows.length, (p.rowBand i).Charges x (coord r.duals i)) ∧
      ∀ j < p.cost.length, (p.columnBand j).Charges x (coord r.costs j) := by
  have hrows : ∀ i ∈ Finset.range p.rows.length,
      0 ≤ coord r.duals i * (p.rowAt i x - p.rowAt i (coord r.point)) := fun i hi =>
    (h.row_charges (Finset.mem_range.1 hi)).nonneg (hx.rows i (Finset.mem_range.1 hi))
  have hcolumns : ∀ j ∈ Finset.range p.cost.length,
      0 ≤ coord r.costs j * (x j - coord r.point j) := fun j hj =>
    h.charge_nonneg (Finset.mem_range.1 hj) (hx.columns j (Finset.mem_range.1 hj))
  -- What the prices charge adds up to the difference of the costs.
  have hsum : (∑ i ∈ Finset.range p.rows.length,
        coord r.duals i * (p.rowAt i x - p.rowAt i (coord r.point))) +
      ∑ j ∈ Finset.range p.cost.length, coord r.costs j * (x j - coord r.point j) ≤ 0 := by
    rw [h.cost_moved x, add_assoc] at hcost
    exact (add_le_iff_nonpos_right _).1 hcost
  have hrowsZero := (Finset.sum_eq_zero_iff_of_nonneg hrows).1 (le_antisymm
    (by linarith [Finset.sum_nonneg hcolumns]) (Finset.sum_nonneg hrows))
  have hcolumnsZero := (Finset.sum_eq_zero_iff_of_nonneg hcolumns).1 (le_antisymm
    (by linarith [Finset.sum_nonneg hrows]) (Finset.sum_nonneg hcolumns))
  exact ⟨fun i hi => (h.row_charges hi).of_free (hrowsZero i (Finset.mem_range.2 hi)),
    fun j hj => (h.column_charges hj).of_free (hcolumnsZero j (Finset.mem_range.2 hj))⟩

/-- The prices of the leading rows and columns belong to such a point. -/
theorem chargesAhead (h : r.Certifies p) (hx : p.Feasible x)
    (hcost : costAt p.cost x ≤ costAt p.cost (coord r.point)) {m n : Nat}
    (hm : m ≤ p.rows.length) (hn : n ≤ p.cost.length) :
    p.ChargesAhead (r.duals.take m) (r.costs.take n) x := by
  obtain ⟨hrows, hcolumns⟩ := h.charges_of_cost_le hx hcost
  have hm' : (r.duals.take m).length = m := by rw [List.length_take, h.duals_length, min_eq_left hm]
  have hn' : (r.costs.take n).length = n := by rw [List.length_take, h.costs_length, min_eq_left hn]
  refine ⟨hm'.trans_le hm, hn'.trans_le hn, h.duals_finite.take m, h.costs_finite.take n, ?_, ?_⟩
  · intro i hi
    rw [hm'] at hi
    rw [coord_take hi]
    exact hrows i (hi.trans_le hm)
  · intro j hj
    rw [hn'] at hj
    rw [coord_take hj]
    exact hcolumns j (hj.trans_le hn)

/-- What they leave of the cost is least at such a point among all points within the rows
and columns behind. -/
theorem residual_le (h : r.Certifies p) (hx : p.Feasible x)
    (hcost : costAt p.cost x ≤ costAt p.cost (coord r.point)) {m n : Nat}
    (hm : m ≤ p.rows.length) (hn : n ≤ p.cost.length) {v : Nat → F} (hv : p.HoldsBehind m n v) :
    p.residual (r.duals.take m) (r.costs.take n) x ≤
      p.residual (r.duals.take m) (r.costs.take n) v := by
  obtain ⟨hrows, hcolumns⟩ := h.charges_of_cost_le hx hcost
  obtain ⟨m', hm'⟩ := Nat.exists_eq_add_of_le hm
  obtain ⟨n', hn'⟩ := Nat.exists_eq_add_of_le hn
  have hresidual : ∀ w, p.residual (r.duals.take m) (r.costs.take n) w =
      (∑ k ∈ Finset.range m', coord r.duals (m + k) * p.rowAt (m + k) w) +
        ∑ k ∈ Finset.range n', coord r.costs (n + k) * w (n + k) := by
    intro w
    have hw := h.stationary w
    rw [hm', hn', Finset.sum_range_add, Finset.sum_range_add] at hw
    rw [LinearProgram.residual, LinearProgram.charge, List.length_take, List.length_take,
      h.duals_length, h.costs_length, min_eq_left hm, min_eq_left hn,
      Finset.sum_congr rfl fun i hi => by rw [coord_take (Finset.mem_range.1 hi)],
      Finset.sum_congr (rfl : Finset.range n = Finset.range n) fun j hj => by
        rw [coord_take (Finset.mem_range.1 hj)]]
    linarith
  rw [hresidual, hresidual]
  refine add_le_add (Finset.sum_le_sum fun k hk => ?_) (Finset.sum_le_sum fun k hk => ?_)
  · have hk : m + k < p.rows.length := hm' ▸ Nat.add_lt_add_left (Finset.mem_range.1 hk) m
    have hcharge := (hrows _ hk).nonneg (hv.rows _ hk (Nat.le_add_right _ _))
    rw [mul_sub] at hcharge
    exact sub_nonneg.1 hcharge
  · have hk : n + k < p.cost.length := hn' ▸ Nat.add_lt_add_left (Finset.mem_range.1 hk) n
    have hcharge := (hcolumns _ hk).nonneg (hv.columns _ hk (Nat.le_add_right _ _))
    rw [mul_sub] at hcharge
    exact sub_nonneg.1 hcharge

end SolveResult.Certifies

end Recourse
