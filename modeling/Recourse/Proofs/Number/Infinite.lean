/-
  Proofs/Number/Infinite.lean --- arithmetic with infinities.

  Sums of exact numbers can be regrouped and reordered even where infinities and the
  undefined value take part.  A factor distributes over a sum as long as it is a
  number of the field itself.  A number can be moved from one side of a comparison to
  the other unless both sides are the same infinity.
-/
import Recourse.Proofs.Number.Exact

set_option autoImplicit false
set_option linter.unusedSectionVars false

namespace Recourse.Exact

variable {F : Type} [Field F] [LinearOrder F] [IsStrictOrderedRing F] [FloorRing F]

/-! ## Sums and products -/

theorem add_eq (x y : Exact F) : x + y = Exact.add x y := rfl

theorem sub_eq (x y : Exact F) : x - y = x + -y := rfl

theorem neg_eq (x : Exact F) : -x = Exact.neg x := rfl

theorem mul_eq (x y : Exact F) : x * y = Exact.mul x y := rfl

theorem div_eq (x y : Exact F) : x / y = Exact.div x y := rfl

theorem neg_one_eq : (-1 : Exact F) = finite (-1) := rfl

protected theorem add_comm (x y : Exact F) : x + y = y + x := by
  cases x <;> cases y <;> simp only [add_eq, Exact.add, add_comm]

protected theorem add_assoc (x y z : Exact F) : x + y + z = x + (y + z) := by
  cases x <;> cases y <;> cases z <;> simp only [add_eq, Exact.add, add_assoc]

protected theorem mul_comm (x y : Exact F) : x * y = y * x := by
  cases x <;> cases y <;> simp only [mul_eq, Exact.mul, Exact.neg, mul_comm]

instance : Std.Commutative (α := Exact F) (· + ·) := ⟨Exact.add_comm⟩

instance : Std.Associative (α := Exact F) (· + ·) := ⟨Exact.add_assoc⟩

protected theorem zero_add (x : Exact F) : finite 0 + x = x := by
  cases x <;> simp [add_eq, Exact.add]

protected theorem one_mul (x : Exact F) : finite 1 * x = x := by
  cases x <;> simp [mul_eq, Exact.mul, amplify]

theorem neg_one_mul_eq (x : Exact F) : finite (-1) * x = -x := by
  cases x <;> simp [mul_eq, neg_eq, Exact.mul, Exact.neg, amplify]

/-- A factor from the field distributes over a sum. -/
theorem finite_mul_add (a : F) (x y : Exact F) :
    finite a * (x + y) = finite a * x + finite a * y := by
  cases x <;> cases y <;> simp only [mul_eq, add_eq, Exact.mul, Exact.add, amplify, Exact.neg, mul_add] <;>
    split_ifs <;> rfl

/-- A factor from the field that is positive can be taken out of another factor. -/
theorem finite_mul_mul {a : F} (ha : 0 < a) (b : F) (x : Exact F) :
    finite a * (finite b * x) = finite (a * b) * x := by
  cases x with
  | finite x => rw [finite_mul, finite_mul, finite_mul, mul_assoc]
  | undefined => rfl
  | plusInfinity | minusInfinity =>
    rcases lt_trichotomy b 0 with hb | rfl | hb
    · simp [mul_eq, Exact.mul, amplify, Exact.neg, ha, ha.ne', hb.ne, hb.not_gt,
        (mul_neg_of_pos_of_neg ha hb).not_gt]
    · simp [mul_eq, Exact.mul, amplify]
    · simp [mul_eq, Exact.mul, amplify, ha, ha.ne', hb, hb.ne']

/-! ## Sums over lists -/

theorem sum_nil : Scalar.sum ([] : List (Exact F)) = finite 0 := rfl

theorem sum_cons (x : Exact F) (xs : List (Exact F)) :
    Scalar.sum (x :: xs) = x + Scalar.sum xs := by
  rw [Scalar.sum, List.foldl_cons, Exact.add_comm, List.foldl_assoc]
  rfl

theorem sum_append (xs ys : List (Exact F)) :
    Scalar.sum (xs ++ ys) = Scalar.sum xs + Scalar.sum ys := by
  induction xs with
  | nil => rw [List.nil_append, sum_nil, Exact.zero_add]
  | cons x xs ih => rw [List.cons_append, sum_cons, ih, sum_cons, Exact.add_assoc]

/-- Numbers can be summed group by group. -/
theorem sum_flatMap {α : Type} (f : α → List (Exact F)) (as : List α) :
    Scalar.sum (as.flatMap f) = Scalar.sum (as.map fun a => Scalar.sum (f a)) := by
  induction as with
  | nil => rfl
  | cons a as ih => rw [List.flatMap_cons, sum_append, ih, List.map_cons, sum_cons]

/-- The order of the summands plays no role. -/
theorem sum_perm {xs ys : List (Exact F)} (h : xs.Perm ys) : Scalar.sum xs = Scalar.sum ys :=
  h.foldl_eq _

/-- A factor from the field distributes over a sum. -/
theorem finite_mul_sum (a : F) (xs : List (Exact F)) :
    finite a * Scalar.sum xs = Scalar.sum (xs.map (finite a * ·)) := by
  induction xs with
  | nil => rw [List.map_nil, sum_nil, finite_mul, mul_zero]
  | cons x xs ih => rw [List.map_cons, sum_cons, sum_cons, finite_mul_add, ih]

/-! ## Quotients -/

/-- Division is multiplication with the reciprocal, where that is a number. -/
theorem div_eq_mul_reciprocal (x : Exact F) {y : Exact F} (h0 : Scalar.isZero y = false)
    (h : Scalar.isFinite (1 / y) = true) : x / y = x * (1 / y) := by
  cases y with
  | finite b =>
    have hb : b ≠ 0 := by simpa using h0
    rw [one_eq, finite_div hb]
    rcases lt_or_gt_of_ne hb with hneg | hpos
    · cases x <;> simp [div_eq, mul_eq, Exact.div, Exact.mul, Exact.neg, amplify, hneg,
        hneg.not_gt, hb, div_eq_mul_inv]
    · cases x <;> simp [div_eq, mul_eq, Exact.div, Exact.mul, amplify, hpos, hpos.not_gt, hb,
        div_eq_mul_inv]
  | undefined => cases h
  | plusInfinity | minusInfinity =>
    cases x <;> simp [one_eq, div_eq, mul_eq, Exact.div, Exact.mul, amplify]

/-! ## Comparisons -/

/-- Two exact numbers are the same infinity. -/
def SameInfinity (x y : Exact F) : Prop := Scalar.isInfinite x = true ∧ x = y

instance (x y : Exact F) : Decidable (x.SameInfinity y) := inferInstanceAs (Decidable (_ ∧ _))

theorem SameInfinity.symm {x y : Exact F} (h : x.SameInfinity y) : y.SameInfinity x :=
  ⟨h.2 ▸ h.1, h.2.symm⟩

theorem not_sameInfinity_of_isFinite {x : Exact F} (h : Scalar.isFinite x = true) (y : Exact F) :
    ¬ x.SameInfinity y := by
  rintro ⟨hx, -⟩
  obtain ⟨a, rfl⟩ := (isFinite_iff x).1 h
  simp [isInfinite_iff] at hx

protected theorem same_comm (x y : Exact F) : Scalar.same x y = Scalar.same y x := by
  cases x <;> cases y <;> simp [Scalar.same, eq, eq_comm]

/-- Only a number itself is both at least and at most that number. -/
theorem atMost_antisymm_iff (a : F) (b : Exact F) :
    (Scalar.atMost b (finite a) = true ∧ Scalar.atMost (finite a) b = true) ↔
      Scalar.same (finite a) b = true := by
  cases b with
  | finite b =>
    simp only [atMost_finite, same_finite, decide_eq_true_eq]
    exact ⟨fun h => le_antisymm h.2 h.1, fun h => ⟨h.ge, h.le⟩⟩
  | _ => simp [Scalar.atMost, Scalar.same, lt, eq]

/-- What two sides leave when everything but a number of the field is moved to the right. -/
theorem difference_sides (c d : Exact F) : 0 - (c + finite (-1) * d) = d + -c := by
  rw [neg_one_mul_eq]
  cases c <;> cases d <;> simp [add_eq, sub_eq, neg_eq, zero_eq, Exact.add, Exact.neg]

/-- The sides of a comparison, sorted into numbers of the field on the left and the rest on
the right, compare as before. -/
theorem compare_sides {a b : F} {c d : Exact F}
    (h : ¬ (finite a + c).SameInfinity (finite b + d)) :
    Scalar.atMost (finite (a - b)) (d + -c) = Scalar.atMost (finite a + c) (finite b + d) ∧
      Scalar.atMost (d + -c) (finite (a - b)) = Scalar.atMost (finite b + d) (finite a + c) ∧
      Scalar.same (finite (a - b)) (d + -c) = Scalar.same (finite a + c) (finite b + d) := by
  match c, d with
  | .finite c, .finite d =>
    rw [neg_finite, finite_add, finite_add, finite_add, atMost_finite, atMost_finite,
      atMost_finite, atMost_finite, same_finite, same_finite]
    refine ⟨decide_eq_decide.2 ?_, decide_eq_decide.2 ?_, decide_eq_decide.2 ?_⟩ <;>
      constructor <;> intro h <;> linarith
  | .plusInfinity, .plusInfinity | .minusInfinity, .minusInfinity => exact absurd ⟨rfl, rfl⟩ h
  | .undefined, d => cases d <;> exact ⟨rfl, rfl, rfl⟩
  | c, .undefined => cases c <;> exact ⟨rfl, rfl, rfl⟩
  | .finite _, .plusInfinity | .finite _, .minusInfinity | .plusInfinity, .finite _
  | .minusInfinity, .finite _ | .plusInfinity, .minusInfinity | .minusInfinity, .plusInfinity =>
    exact ⟨rfl, rfl, rfl⟩

end Recourse.Exact
