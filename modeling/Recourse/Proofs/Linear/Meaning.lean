/-
  Proofs/Linear/Meaning.lean --- what linear programs mean.

  Points are functions from columns to the field.  A program has a cost at every
  point and a set of feasible points; an infinite limit or bound, of either sign,
  limits nothing.  `LinearProgram.Feasible` reads a program as it is given and
  `HandedProgram.Feasible` as it is handed to an engine.
-/
import Recourse.Linear.Program
import Recourse.Proofs.Number.Exact
import Mathlib.Algebra.BigOperators.Ring.Finset
import Mathlib.Algebra.Order.BigOperators.Group.Finset
import Mathlib.Data.List.GetD

set_option autoImplicit false
set_option linter.unusedSectionVars false

open scoped BigOperators

namespace Recourse

variable {F : Type} [Field F] [LinearOrder F] [IsStrictOrderedRing F] [FloorRing F]

/-! ## Vectors -/

/-- The number at a position of a vector, zero where there is none. -/
def coord (xs : List (Exact F)) (j : Nat) : F := (xs.getD j .undefined).value

@[simp] theorem coord_map_finite (xs : List F) (j : Nat) :
    coord (xs.map .finite) j = xs.getD j 0 := by
  rw [coord, List.getD_eq_getElem?_getD, List.getD_eq_getElem?_getD, List.getElem?_map]
  cases xs[j]? <;> rfl

theorem getD_map_finite (xs : List F) (j : Nat) :
    (xs.map Exact.finite).getD j 0 = .finite (xs.getD j 0) := by
  rw [List.getD_eq_getElem?_getD, List.getD_eq_getElem?_getD, List.getElem?_map]
  cases xs[j]? <;> rfl

theorem coord_map_range {n j : Nat} (hj : j < n) (v : Nat → F) :
    coord (((List.range n).map v).map .finite) j = v j := by
  rw [coord_map_finite, List.getD_eq_getElem _ _ (by simpa using hj), List.getElem_map,
    List.getElem_range]

theorem coord_of_length_le {xs : List (Exact F)} {j : Nat} (h : xs.length ≤ j) :
    coord xs j = 0 := by
  rw [coord, List.getD_eq_default _ _ h]
  rfl

theorem coord_append_left {xs ys : List (Exact F)} {j : Nat} (h : j < xs.length) :
    coord (xs ++ ys) j = coord xs j := by
  rw [coord, coord, List.getD_append _ _ _ _ h]

theorem coord_append_right {xs ys : List (Exact F)} {j : Nat} (h : xs.length ≤ j) :
    coord (xs ++ ys) j = coord ys (j - xs.length) := by
  rw [coord, coord, List.getD_append_right _ _ _ _ h]

theorem coord_take {xs : List (Exact F)} {n j : Nat} (h : j < n) :
    coord (xs.take n) j = coord xs j := by
  simp [coord, List.getD_eq_getElem?_getD, h]

theorem coord_drop (xs : List (Exact F)) (n j : Nat) :
    coord (xs.drop n) j = coord xs (n + j) := by
  simp [coord, List.getD_eq_getElem?_getD]

/-- Every coord of a vector is a number. -/
def AllFinite (xs : List (Exact F)) : Prop := ∀ a ∈ xs, Scalar.isFinite a = true

theorem allFinite_nil : AllFinite ([] : List (Exact F)) := fun _ ha => absurd ha List.not_mem_nil

theorem allFinite_map_finite (xs : List F) : AllFinite (xs.map .finite) := by
  intro a ha
  obtain ⟨x, -, rfl⟩ := List.mem_map.1 ha
  exact Exact.isFinite_finite x

/-- A vector of numbers, coord by entry. -/
theorem AllFinite.eq_map {xs : List (Exact F)} (h : AllFinite xs) :
    xs = (xs.map Exact.value).map .finite := by
  rw [List.map_map]
  exact (List.map_id'' (fun _ => rfl) xs).symm.trans
    (List.map_congr_left fun a ha => (Exact.finite_value (h a ha)).symm)

theorem AllFinite.getD {xs : List (Exact F)} (h : AllFinite xs) {j : Nat} (hj : j < xs.length) :
    xs.getD j .undefined = .finite (coord xs j) := by
  rw [coord, Exact.finite_value]
  rw [List.getD_eq_getElem _ _ hj]
  exact h _ (List.getElem_mem hj)

/-- Beyond its end a vector of numbers is read as zero, and so are its numbers. -/
theorem AllFinite.getD_zero {xs : List (Exact F)} (h : AllFinite xs) (j : Nat) :
    xs.getD j 0 = .finite (coord xs j) := by
  rw [h.eq_map, getD_map_finite, coord_map_finite]

theorem AllFinite.take {xs : List (Exact F)} (h : AllFinite xs) (n : Nat) :
    AllFinite (xs.take n) := fun a ha => h a (List.mem_of_mem_take ha)

theorem AllFinite.drop {xs : List (Exact F)} (h : AllFinite xs) (n : Nat) :
    AllFinite (xs.drop n) := fun a ha => h a (List.mem_of_mem_drop ha)

theorem coord_scale (a : F) {xs : List (Exact F)} (h : AllFinite xs) (j : Nat) :
    coord (Scalar.scale (.finite a) xs) j = a * coord xs j := by
  rw [h.eq_map, Exact.scale_finite, coord_map_finite, coord_map_finite]
  simp only [List.getD_eq_getElem?_getD, List.getElem?_map]
  cases xs[j]? <;> simp

theorem AllFinite.scale {xs : List (Exact F)} (h : AllFinite xs) (a : F) :
    AllFinite (Scalar.scale (.finite a) xs) := by
  rw [h.eq_map, Exact.scale_finite]
  exact allFinite_map_finite _

/-- The product of a cost vector with a point. -/
def costAt (cost : List (Exact F)) (v : Nat → F) : F :=
  ∑ j ∈ Finset.range cost.length, coord cost j * v j

theorem costAt_congr {cost : List (Exact F)} {u v : Nat → F}
    (h : ∀ j < cost.length, u j = v j) : costAt cost u = costAt cost v :=
  Finset.sum_congr rfl fun j hj => by rw [h j (Finset.mem_range.1 hj)]

theorem costAt_append (xs ys : List (Exact F)) (v : Nat → F) :
    costAt (xs ++ ys) v = costAt xs v + costAt ys fun j => v (xs.length + j) := by
  rw [costAt, List.length_append, Finset.sum_range_add]
  refine congrArg₂ _ (Finset.sum_congr rfl ?_) (Finset.sum_congr rfl ?_)
  · intro j hj
    rw [coord_append_left (Finset.mem_range.1 hj)]
  · intro j _
    rw [coord_append_right (Nat.le_add_right _ _), Nat.add_sub_cancel_left]

theorem costAt_scale (a : F) {xs : List (Exact F)} (h : AllFinite xs) (v : Nat → F) :
    costAt (Scalar.scale (.finite a) xs) v = a * costAt xs v := by
  rw [costAt, costAt, Finset.mul_sum, Scalar.scale, List.length_map]
  exact Finset.sum_congr rfl fun j _ => by
    rw [← mul_assoc, ← coord_scale a h j, Scalar.scale]

theorem allFinite_zeros (n : Nat) : AllFinite (Scalar.zeros n : List (Exact F)) := by
  rw [Exact.zeros_eq]
  exact allFinite_map_finite _

@[simp] theorem coord_zeros (n j : Nat) : coord (Scalar.zeros n : List (Exact F)) j = 0 := by
  rw [Exact.zeros_eq, coord_map_finite, List.getD_eq_getElem?_getD, List.getElem?_replicate]
  split <;> rfl

@[simp] theorem costAt_zeros (n : Nat) (v : Nat → F) :
    costAt (Scalar.zeros n : List (Exact F)) v = 0 :=
  Finset.sum_eq_zero fun j _ => by rw [coord_zeros, zero_mul]

theorem costAt_eq_sum (xs : List (Exact F)) (v : Nat → F) :
    costAt xs v = ((List.range xs.length).map fun j => coord xs j * v j).sum := rfl

theorem dot_eq {xs ys : List (Exact F)} (hx : AllFinite xs) (hy : AllFinite ys)
    (h : xs.length = ys.length) : Scalar.dot xs ys = .finite (costAt xs (coord ys)) := by
  have hdot : Scalar.dot xs ys = .finite (List.zipWith (· * ·) (xs.map Exact.value)
      (ys.map Exact.value)).sum := by
    conv_lhs => rw [hx.eq_map, hy.eq_map]
    rw [Exact.dot_finite]
  rw [hdot, costAt_eq_sum]
  refine congrArg _ (congrArg List.sum (List.ext_getElem (by simp [h]) ?_))
  intro j h1 h2
  have hj : j < xs.length := by simpa using h2
  simp [coord, List.getD_eq_getElem?_getD, hj, h ▸ hj]

/-! ## Rows -/

namespace SparseRow

/-- The number a row takes at a point. -/
def valueAt (r : SparseRow (Exact F)) (v : Nat → F) : F :=
  (r.map fun t => t.2.value * v t.1).sum

/-- The coefficient of a column. -/
def coefficientAt (r : SparseRow (Exact F)) (j : Nat) : F :=
  (r.map fun t => if t.1 = j then t.2.value else 0).sum

/-- A row mentions the first `n` columns only. -/
def Within (r : SparseRow (Exact F)) (n : Nat) : Prop := ∀ t ∈ r, t.1 < n

@[simp] theorem valueAt_nil (v : Nat → F) : valueAt ([] : SparseRow (Exact F)) v = 0 := rfl

@[simp] theorem valueAt_cons (t : Nat × Exact F) (r : SparseRow (Exact F)) (v : Nat → F) :
    valueAt (t :: r) v = t.2.value * v t.1 + valueAt r v := rfl

theorem valueAt_append (r r' : SparseRow (Exact F)) (v : Nat → F) :
    valueAt (r ++ r') v = valueAt r v + valueAt r' v := by
  simp [valueAt]

theorem valueAt_congr {r : SparseRow (Exact F)} {u v : Nat → F} (h : ∀ t ∈ r, u t.1 = v t.1) :
    valueAt r u = valueAt r v :=
  congrArg List.sum (List.map_congr_left fun t ht => by rw [h t ht])

theorem valueAt_negated (r : SparseRow (Exact F)) (v : Nat → F) :
    valueAt r.negated v = -valueAt r v := by
  induction r with
  | nil => simp [negated]
  | cons t r ih =>
    have hneg : (-t.2 : Exact F).value = -t.2.value := by cases t.2 <;> simp [Exact.value, Neg.neg, Exact.neg]
    have ih : (List.map (fun t : Nat × Exact F => t.2.value * v t.1)
        (r.map fun t => (t.1, -t.2))).sum = -valueAt r v := ih
    show (-t.2 : Exact F).value * v t.1 + (List.map (fun t : Nat × Exact F => t.2.value * v t.1)
        (r.map fun t => (t.1, -t.2))).sum = _
    rw [ih, hneg, valueAt_cons]
    ring

/-- A row is the sum of its coefficients times the entries of the point. -/
theorem valueAt_eq_sum {r : SparseRow (Exact F)} {n : Nat} (h : r.Within n) (v : Nat → F) :
    valueAt r v = ∑ j ∈ Finset.range n, coefficientAt r j * v j := by
  induction r with
  | nil => simp [coefficientAt]
  | cons t r ih =>
    have ht : t.1 ∈ Finset.range n := Finset.mem_range.2 (h t List.mem_cons_self)
    have hcons : ∀ j, coefficientAt (t :: r) j * v j
        = (if t.1 = j then t.2.value * v j else 0) + coefficientAt r j * v j := by
      intro j
      show ((if t.1 = j then t.2.value else 0) + coefficientAt r j) * v j = _
      split <;> ring
    rw [valueAt_cons, ih fun t ht => h t (List.mem_cons_of_mem _ ht),
      Finset.sum_congr rfl fun j _ => hcons j, Finset.sum_add_distrib, Finset.sum_ite_eq,
      if_pos ht]

theorem Within.negated {r : SparseRow (Exact F)} {n : Nat} (h : r.Within n) :
    r.negated.Within n := by
  intro t ht
  obtain ⟨u, hu, rfl⟩ := List.mem_map.1 ht
  exact h u hu

theorem within_getD {rows : List (SparseRow (Exact F))} {n : Nat} (h : ∀ r ∈ rows, r.Within n)
    (i : Nat) : (rows.getD i []).Within n := by
  by_cases hi : i < rows.length
  · rw [List.getD_eq_getElem _ _ hi]
    exact h _ (List.getElem_mem hi)
  · rw [List.getD_eq_default _ _ (not_lt.1 hi)]
    exact fun t ht => absurd ht List.not_mem_nil

/-- A combination of rows, column by column or row by row. -/
theorem sum_coefficientAt {n m : Nat} {rows : Nat → SparseRow (Exact F)}
    (h : ∀ k < m, (rows k).Within n) (y : Nat → F) (v : Nat → F) :
    ∑ j ∈ Finset.range n, (∑ k ∈ Finset.range m, y k * (rows k).coefficientAt j) * v j =
      ∑ k ∈ Finset.range m, y k * (rows k).valueAt v := by
  simp only [Finset.sum_mul]
  rw [Finset.sum_comm]
  apply Finset.sum_congr rfl
  intro k hk
  rw [valueAt_eq_sum (h k (Finset.mem_range.1 hk)), Finset.mul_sum]
  exact Finset.sum_congr rfl fun j _ => mul_assoc _ _ _

/-- The library's own evaluation of a row agrees. -/
theorem eval_finite {r : SparseRow (Exact F)} (h : ∀ t ∈ r, Scalar.isFinite t.2 = true)
    (v : Nat → F) : r.eval (fun j => .finite (v j)) = .finite (r.valueAt v) := by
  rw [valueAt, ← Exact.sum_finite, eval, List.map_map]
  refine congrArg Scalar.sum (List.map_congr_left ?_)
  intro t ht
  rw [Function.comp_apply, ← Exact.finite_mul, Exact.finite_value (h t ht)]

end SparseRow

/-! ## Programs as given -/

namespace LinearProgram

/-- The number row `i` takes at a point. -/
def rowAt (p : LinearProgram (Exact F)) (i : Nat) (v : Nat → F) : F := (p.rows.getD i []).valueAt v

/-- The lower limit of row `i`. -/
def lowerLimit (p : LinearProgram (Exact F)) (i : Nat) : Exact F :=
  match p.rowLimits with
  | .ok limits => limits.1.getD i .undefined
  | .error _ => .undefined

/-- The upper limit of row `i`. -/
def upperLimit (p : LinearProgram (Exact F)) (i : Nat) : Exact F :=
  match p.rowLimits with
  | .ok limits => limits.2.getD i .undefined
  | .error _ => .undefined

/-- A point keeps row `i` between its limits. -/
def RowHolds (p : LinearProgram (Exact F)) (i : Nat) (v : Nat → F) : Prop :=
  (p.lowerLimit i).RespectsLower (p.rowAt i v) ∧ (p.upperLimit i).RespectsUpper (p.rowAt i v)

/-- A point keeps column `j` between its bounds. -/
def ColumnHolds (p : LinearProgram (Exact F)) (j : Nat) (v : Nat → F) : Prop :=
  (p.lower.getD j .undefined).RespectsLower (v j) ∧
    (p.upper.getD j .undefined).RespectsUpper (v j)

/-- A point satisfies every row and every bound. -/
structure Feasible (p : LinearProgram (Exact F)) (v : Nat → F) : Prop where
  /-- Every row. -/
  rows : ∀ i < p.rows.length, p.RowHolds i v
  /-- Every bound. -/
  columns : ∀ j < p.cost.length, p.ColumnHolds j v

/-- There are feasible points of any cost, however low. -/
def Unbounded (p : LinearProgram (Exact F)) : Prop :=
  ∀ level : F, ∃ v, p.Feasible v ∧ costAt p.cost v < level

end LinearProgram

/-! ## Programs as handed over -/

namespace HandedProgram

/-- A point satisfies every row and every bound. -/
structure Feasible (h : HandedProgram (Exact F)) (v : Nat → F) : Prop where
  /-- Every upper row. -/
  upper : ∀ r ∈ h.upperRows, r.2.RespectsUpper (r.1.valueAt v)
  /-- Every equal row. -/
  equal : ∀ r ∈ h.equalRows, ∀ b, r.2 = .finite b → r.1.valueAt v = b
  /-- Every bound that is there. -/
  columns : ∀ (j : Nat) (b : Option (Exact F) × Option (Exact F)), h.bounds[j]? = some b →
    (∀ limit, b.1 = some limit → limit.RespectsLower (v j)) ∧
      ∀ limit, b.2 = some limit → limit.RespectsUpper (v j)

/-- There are feasible points of any cost, however low. -/
def Unbounded (h : HandedProgram (Exact F)) : Prop :=
  ∀ level : F, ∃ v, h.Feasible v ∧ costAt h.cost v < level

end HandedProgram

end Recourse
