/-
  Proofs/Number/Exact.lean --- exact numbers.

  Statements about exact arithmetic are statements about this instance of
  `Scalar`: the numbers of an ordered field, two infinities, and an undefined
  value, with the rules of binary floating point for the last three and no
  rounding anywhere.  The lemmas say that every operation of the library maps
  numbers of the field to numbers of the field, the way the field does.
-/
import Recourse.Number.Scalar
import Mathlib.Algebra.BigOperators.Group.List.Basic
import Mathlib.Algebra.Order.Floor.Ring
import Mathlib.Tactic.LinearCombination
import Mathlib.Tactic.Linarith
import Mathlib.Tactic.Ring

set_option autoImplicit false

namespace Recourse

/-- A number of the field `F`, an infinity, or the undefined value. -/
inductive Exact (F : Type) where
  /-- A number. -/
  | finite (x : F)
  /-- Positive infinity. -/
  | plusInfinity
  /-- Negative infinity. -/
  | minusInfinity
  /-- The result of an operation that has none. -/
  | undefined
  deriving DecidableEq, Repr, Inhabited

namespace Exact

variable {F : Type}

/-- The number, zero where there is none. -/
def value [Zero F] : Exact F → F
  | .finite x => x
  | _ => 0

@[simp] theorem value_finite [Zero F] (x : F) : (finite x).value = x := rfl

section Arithmetic

variable [Field F] [LinearOrder F]

/-- The opposite. -/
protected def neg : Exact F → Exact F
  | .finite x => .finite (-x)
  | .plusInfinity => .minusInfinity
  | .minusInfinity => .plusInfinity
  | .undefined => .undefined

/-- The sum; opposite infinities have none. -/
protected def add : Exact F → Exact F → Exact F
  | .finite x, .finite y => .finite (x + y)
  | .undefined, _ => .undefined
  | _, .undefined => .undefined
  | .plusInfinity, .minusInfinity => .undefined
  | .minusInfinity, .plusInfinity => .undefined
  | .finite _, y => y
  | x, _ => x

/-- A number against an infinity: the infinity with the sign of the product. -/
def amplify (x : F) (infinity : Exact F) : Exact F :=
  if x = 0 then .undefined else if 0 < x then infinity else infinity.neg

/-- The product; zero times an infinity has none. -/
protected def mul : Exact F → Exact F → Exact F
  | .finite x, .finite y => .finite (x * y)
  | .undefined, _ => .undefined
  | _, .undefined => .undefined
  | .finite x, y => amplify x y
  | x, .finite y => amplify y x
  | .plusInfinity, y => y
  | .minusInfinity, y => y.neg

/-- The quotient; an infinity divided by another has none. -/
protected def div : Exact F → Exact F → Exact F
  | .finite x, .finite y => if y = 0 then amplify x .plusInfinity else .finite (x / y)
  | .undefined, _ => .undefined
  | _, .undefined => .undefined
  | .finite _, _ => .finite 0
  | x, .finite y => if y < 0 then x.neg else x
  | _, _ => .undefined

/-- Strictly less. -/
def lt : Exact F → Exact F → Bool
  | .finite x, .finite y => decide (x < y)
  | .minusInfinity, .finite _ | .minusInfinity, .plusInfinity | .finite _, .plusInfinity => true
  | _, _ => false

/-- Equal as numbers. -/
def eq : Exact F → Exact F → Bool
  | .undefined, _ => false
  | x, y => decide (x = y)

instance [FloorRing F] : Scalar (Exact F) where
  add := Exact.add
  sub x y := Exact.add x y.neg
  mul := Exact.mul
  div := Exact.div
  neg := Exact.neg
  zero := .finite 0
  one := .finite 1
  ofInt n := .finite n
  decimal m p := .finite (m / 10 ^ p)
  infinity := .plusInfinity
  undefined := .undefined
  less := lt
  atMost x y := lt x y || eq x y
  same := eq
  truncate
    | .finite x => some (if x < 0 then ⌈x⌉ else ⌊x⌋)
    | _ => none

end Arithmetic

/-! ## Operations on numbers -/

section Numbers

variable [Field F] [LinearOrder F] [FloorRing F]

theorem zero_eq : (0 : Exact F) = finite 0 := rfl

theorem one_eq : (1 : Exact F) = finite 1 := rfl

@[simp] theorem finite_add (x y : F) : finite x + finite y = finite (x + y) := rfl

@[simp] theorem finite_mul (x y : F) : finite x * finite y = finite (x * y) := rfl

@[simp] theorem neg_finite (x : F) : -finite x = finite (-x) := rfl

@[simp] theorem finite_sub (x y : F) : finite x - finite y = finite (x - y) :=
  congrArg finite (sub_eq_add_neg x y).symm

theorem finite_div {x y : F} (h : y ≠ 0) : finite x / finite y = finite (x / y) :=
  if_neg h

@[simp] theorem infinity_eq : (Scalar.infinity : Exact F) = plusInfinity := rfl

@[simp] theorem negInfinity_eq : (Scalar.negInfinity : Exact F) = minusInfinity := rfl

@[simp] theorem less_finite (x y : F) : Scalar.less (finite x) (finite y) = decide (x < y) := rfl

@[simp] theorem atMost_finite (x y : F) :
    Scalar.atMost (finite x) (finite y) = decide (x ≤ y) := by
  have h : Scalar.atMost (finite x) (finite y) = (decide (x < y) || decide (finite x = finite y)) :=
    rfl
  rw [h, ← Bool.decide_or]
  exact decide_eq_decide.2 (by simp [le_iff_lt_or_eq])

@[simp] theorem same_finite (x y : F) : Scalar.same (finite x) (finite y) = decide (x = y) :=
  decide_eq_decide.2 (by simp)

@[simp] theorem abs_finite [IsStrictOrderedRing F] (x : F) :
    Scalar.abs (finite x) = finite |x| := by
  rw [Scalar.abs, zero_eq, less_finite]
  by_cases h : x < 0
  · simp [h, abs_of_neg h]
  · simp [h, abs_of_nonneg (not_lt.1 h)]

@[simp] theorem larger_finite (x y : F) :
    Scalar.larger (finite x) (finite y) = finite (max x y) := by
  rw [Scalar.larger, less_finite]
  by_cases h : x < y
  · simp [h, max_eq_right h.le]
  · simp [h, max_eq_left (not_lt.1 h)]

@[simp] theorem smaller_finite (x y : F) :
    Scalar.smaller (finite x) (finite y) = finite (min x y) := by
  rw [Scalar.smaller, less_finite]
  by_cases h : y < x
  · simp [h, min_eq_right h.le]
  · simp [h, min_eq_left (not_lt.1 h)]

/-! ## Sums of numbers -/

theorem foldl_add_finite (a : F) (xs : List F) :
    (xs.map finite).foldl (· + ·) (finite a) = finite (a + xs.sum) := by
  induction xs generalizing a with
  | nil => simp
  | cons x xs ih => simp [ih, add_assoc]

@[simp] theorem sum_finite (xs : List F) : Scalar.sum (xs.map finite) = finite xs.sum := by
  rw [Scalar.sum, zero_eq, foldl_add_finite, zero_add]

@[simp] theorem dot_finite (xs ys : List F) :
    Scalar.dot (xs.map finite) (ys.map finite) = finite (List.zipWith (· * ·) xs ys).sum := by
  have h : List.zipWith (· * ·) (xs.map finite) (ys.map finite)
      = (List.zipWith (· * ·) xs ys).map finite := by
    rw [List.zipWith_map, List.map_zipWith]
    rfl
  rw [Scalar.dot, h, sum_finite]

@[simp] theorem scale_finite (a : F) (xs : List F) :
    Scalar.scale (finite a) (xs.map finite) = (xs.map (a * ·)).map finite := by
  simp [Scalar.scale]

theorem zeros_eq (n : Nat) : (Scalar.zeros n : List (Exact F)) = (List.replicate n 0).map finite := by
  simp [Scalar.zeros, zero_eq]

end Numbers

/-! ## Kinds of numbers -/

section Kinds

variable [Field F] [LinearOrder F] [FloorRing F]

@[simp] theorem isUndefined_iff (e : Exact F) : Scalar.isUndefined e = true ↔ e = .undefined := by
  cases e <;> simp [Scalar.isUndefined, Scalar.same, eq]

theorem isInfinite_iff [IsStrictOrderedRing F] (e : Exact F) :
    Scalar.isInfinite e = true ↔ e = .plusInfinity ∨ e = .minusInfinity := by
  cases e with
  | finite x => simp [Scalar.isInfinite, Scalar.same, eq]
  | _ =>
    simp [Scalar.isInfinite, Scalar.same, Scalar.abs, Scalar.less, eq, lt, Neg.neg, Exact.neg]

theorem isFinite_iff [IsStrictOrderedRing F] (e : Exact F) :
    Scalar.isFinite e = true ↔ ∃ x, e = finite x := by
  rw [Scalar.isFinite, Bool.and_eq_true, Bool.not_eq_true', Bool.not_eq_true',
    Bool.eq_false_iff, Bool.eq_false_iff, Ne, isUndefined_iff, Ne, isInfinite_iff]
  cases e <;> simp

theorem finite_value [IsStrictOrderedRing F] {e : Exact F} (h : Scalar.isFinite e = true) :
    finite e.value = e := by
  obtain ⟨x, rfl⟩ := (isFinite_iff e).1 h
  rfl

@[simp] theorem isFinite_finite [IsStrictOrderedRing F] (x : F) :
    Scalar.isFinite (finite x) = true :=
  (isFinite_iff _).2 ⟨x, rfl⟩

@[simp] theorem isZero_finite (x : F) : Scalar.isZero (finite x) = decide (x = 0) := by
  rw [Scalar.isZero, zero_eq, same_finite]

end Kinds

/-! ## Limits -/

/-- A number respects an upper limit.  A limit that is no number, an infinity of
either sign among them, limits nothing. -/
def RespectsUpper [LE F] (limit : Exact F) (a : F) : Prop := ∀ b, limit = .finite b → a ≤ b

/-- A number respects a lower limit, under the same reading. -/
def RespectsLower [LE F] (limit : Exact F) (a : F) : Prop := ∀ b, limit = .finite b → b ≤ a

@[simp] theorem respectsUpper_finite [LE F] (a b : F) : RespectsUpper (finite b) a ↔ a ≤ b := by
  simp [RespectsUpper]

@[simp] theorem respectsLower_finite [LE F] (a b : F) : RespectsLower (finite b) a ↔ b ≤ a := by
  simp [RespectsLower]

instance decidableRespectsUpper [LinearOrder F] (e : Exact F) (a : F) :
    Decidable (e.RespectsUpper a) :=
  match e with
  | .finite b => decidable_of_iff (a ≤ b) (respectsUpper_finite a b).symm
  | .plusInfinity | .minusInfinity | .undefined => isTrue fun _ h => nomatch h

instance decidableRespectsLower [LinearOrder F] (e : Exact F) (a : F) :
    Decidable (e.RespectsLower a) :=
  match e with
  | .finite b => decidable_of_iff (b ≤ a) (respectsLower_finite a b).symm
  | .plusInfinity | .minusInfinity | .undefined => isTrue fun _ h => nomatch h

end Exact

end Recourse
