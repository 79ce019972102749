/-
  Proofs/Mirror/Arithmetic.lean --- numbers and their opposites.

  Turning the sense of an objective exchanges every number of that sense with its
  opposite.  The laws that carry such an exchange through a computation are those
  that do not tell the two directions of the number line apart.  Exact numbers
  satisfy them, their infinities and the undefined value included.
-/
import Recourse.Proofs.Number.Exact

set_option autoImplicit false
set_option linter.unusedSectionVars false

namespace Recourse

/-- The laws of numbers that an exchange of every number with its opposite respects. -/
class Scalar.Symmetric (K : Type) [Scalar K] : Prop where
  neg_neg (x : K) : -(-x) = x
  neg_zero : -(0 : K) = 0
  neg_undefined : -(Scalar.undefined : K) = Scalar.undefined
  neg_add_neg (x y : K) : -x + -y = -(x + y)
  add_comm (x y : K) : x + y = y + x
  sub_eq_add_neg (x y : K) : x - y = x + -y
  neg_mul (x y : K) : -x * y = -(x * y)
  mul_neg (x y : K) : x * -y = -(x * y)
  neg_div (x y : K) : -x / y = -(x / y)
  less_neg_neg (x y : K) : Scalar.less (-x) (-y) = Scalar.less y x
  same_neg_neg (x y : K) : Scalar.same (-x) (-y) = Scalar.same x y
  zero_less_one : Scalar.less (0 : K) 1 = true
  less_asymm (x y : K) : Scalar.less x y = true → Scalar.less y x = false
  less_undefined (x y : K) : Scalar.same y y = false → Scalar.less x y = false
  /-- Numbers that are not undefined are comparable. -/
  less_connex (x y : K) : Scalar.same x x = true → Scalar.same y y = true →
    Scalar.less x y = false → Scalar.less y x = false → x = y

/-! ## Exact numbers -/

section Exact

variable {F : Type} [Field F] [LinearOrder F] [IsStrictOrderedRing F] [FloorRing F]

namespace Exact

theorem neg_neg_eq (e : Exact F) : e.neg.neg = e := by
  cases e <;> simp [Exact.neg]

theorem amplify_neg (x : F) (e : Exact F) : amplify (-x) e = (amplify x e).neg := by
  unfold amplify
  rcases lt_trichotomy x 0 with hx | rfl | hx
  · simp [hx.ne, hx, hx.not_gt, neg_neg_eq]
  · simp [Exact.neg]
  · simp [hx.ne', hx, hx.not_gt]

theorem amplify_minusInfinity (x : F) :
    amplify x minusInfinity = (amplify x plusInfinity).neg := by
  unfold amplify
  split_ifs <;> rfl

theorem mul_neg_eq (x y : Exact F) : x.mul y.neg = (x.mul y).neg := by
  have hplus : (plusInfinity : Exact F).neg = minusInfinity := rfl
  have hminus : (minusInfinity : Exact F).neg = plusInfinity := rfl
  have hfinite (a : F) : (finite a).neg = finite (-a) := rfl
  have hundefined : (undefined : Exact F).neg = undefined := rfl
  cases x <;> cases y <;> simp only [hplus, hminus, hfinite, hundefined, Exact.mul, mul_neg,
    amplify_neg, amplify_minusInfinity, neg_neg_eq]

theorem mul_comm_eq (x y : Exact F) : x.mul y = y.mul x := by
  cases x <;> cases y <;> simp [Exact.mul, Exact.neg, mul_comm]

end Exact

instance : Scalar.Symmetric (Exact F) where
  neg_neg := Exact.neg_neg_eq
  neg_zero := by simp [Exact.zero_eq]
  neg_undefined := rfl
  neg_add_neg x y := by
    show x.neg.add y.neg = (x.add y).neg
    cases x <;> cases y <;> simp [Exact.add, Exact.neg, add_comm]
  add_comm x y := by
    show x.add y = y.add x
    cases x <;> cases y <;> simp [Exact.add, add_comm]
  sub_eq_add_neg x y := rfl
  neg_mul x y := by
    show x.neg.mul y = (x.mul y).neg
    rw [Exact.mul_comm_eq, Exact.mul_neg_eq, Exact.mul_comm_eq]
  mul_neg := Exact.mul_neg_eq
  neg_div x y := by
    show x.neg.div y = (x.div y).neg
    cases x <;> cases y <;> simp only [Exact.div, Exact.neg, neg_div, neg_zero] <;> split_ifs <;>
      simp [Exact.neg, Exact.amplify_neg]
  less_neg_neg x y := by
    show Exact.lt x.neg y.neg = Exact.lt y x
    cases x <;> cases y <;> simp [Exact.lt, Exact.neg]
  same_neg_neg x y := by
    show Exact.eq x.neg y.neg = Exact.eq x y
    cases x <;> cases y <;> simp [Exact.eq, Exact.neg]
  zero_less_one := by simp [Exact.zero_eq, Exact.one_eq]
  less_asymm x y := by
    show Exact.lt x y = true → Exact.lt y x = false
    cases x <;> cases y <;> simp +contextual [Exact.lt, le_of_lt]
  less_undefined x y := by
    show Exact.eq y y = false → Exact.lt x y = false
    cases x <;> cases y <;> simp [Exact.eq, Exact.lt]
  less_connex x y := by
    show Exact.eq x x = true → Exact.eq y y = true → Exact.lt x y = false →
      Exact.lt y x = false → x = y
    cases x <;> cases y <;> simp [Exact.eq, Exact.lt]
    exact fun h h' => le_antisymm h' h

end Exact

/-! ## Sums, differences and lists -/

attribute [simp] Scalar.Symmetric.neg_neg Scalar.Symmetric.neg_zero Scalar.Symmetric.neg_undefined
  Scalar.Symmetric.neg_add_neg Scalar.Symmetric.neg_mul Scalar.Symmetric.mul_neg
  Scalar.Symmetric.neg_div Scalar.Symmetric.less_neg_neg Scalar.Symmetric.same_neg_neg

/-- A change of an entry that a function turns into another one. -/
theorem modify_map_eq {α β : Type} {g : α → β} {f : α → α} {f' : β → β}
    (h : ∀ a, f' (g a) = g (f a)) (xs : List α) (i : Nat) :
    (xs.map g).modify i f' = (xs.modify i f).map g := by
  refine List.ext_getElem? fun j => ?_
  rw [List.getElem?_modify, List.getElem?_map, List.getElem?_map, List.getElem?_modify]
  cases xs[j]? with
  | none => rfl
  | some a =>
    by_cases hij : i = j
    · simp [hij, h]
    · simp [hij]

namespace Scalar

variable {K : Type} [Scalar K]

/-- Every entry exchanged with its opposite. -/
def negated (xs : List K) : List K := xs.map (-·)

@[simp] theorem negated_nil : negated ([] : List K) = [] := rfl

@[simp] theorem negated_cons (x : K) (xs : List K) : negated (x :: xs) = -x :: negated xs := rfl

@[simp] theorem length_negated (xs : List K) : (negated xs).length = xs.length := List.length_map _

@[simp] theorem take_negated (xs : List K) (n : Nat) : (negated xs).take n = negated (xs.take n) :=
  List.map_take.symm

@[simp] theorem getElem?_negated (xs : List K) (i : Nat) : (negated xs)[i]? = xs[i]?.map (-·) :=
  List.getElem?_map

variable [Symmetric K]

@[simp] theorem sub_neg_neg (x y : K) : -x - -y = -(x - y) := by
  rw [Symmetric.sub_eq_add_neg, Symmetric.sub_eq_add_neg, Symmetric.neg_add_neg]

/-- The difference of the opposites is the difference the other way. -/
theorem neg_sub_neg (x y : K) : -x - -y = y - x := by
  rw [Symmetric.sub_eq_add_neg, Symmetric.sub_eq_add_neg, Symmetric.neg_neg, Symmetric.add_comm]

theorem neg_sub_eq (x y : K) : -x - y = -(x + y) := by
  rw [Symmetric.sub_eq_add_neg, Symmetric.neg_add_neg]

theorem neg_add_eq (x y : K) : -x + y = -(x - y) := by
  rw [Symmetric.sub_eq_add_neg, ← Symmetric.neg_add_neg, Symmetric.neg_neg]

@[simp] theorem square_neg (x : K) : square (-x) = square x := by
  rw [square, square, Symmetric.neg_mul, Symmetric.mul_neg, Symmetric.neg_neg]

@[simp] theorem isUndefined_neg (x : K) : isUndefined (-x) = isUndefined x := by
  rw [isUndefined, isUndefined, Symmetric.same_neg_neg]

/-- The smaller of the opposites is the opposite of the larger, where the numbers compare. -/
theorem smaller_neg_neg {x y : K} (hx : isUndefined x = false) (hy : isUndefined y = false) :
    smaller (-y) (-x) = -larger x y := by
  unfold smaller larger
  rw [Symmetric.less_neg_neg]
  by_cases hxy : less x y = true
  · rw [if_neg (by simp [Symmetric.less_asymm x y hxy]), if_pos hxy]
  · rw [if_neg hxy]
    by_cases hyx : less y x = true
    · rw [if_pos hyx]
    · rw [if_neg hyx, Symmetric.less_connex x y (by simpa [isUndefined] using hx)
        (by simpa [isUndefined] using hy) (by simpa using hxy) (by simpa using hyx)]

theorem larger_neg_neg {x y : K} (hx : isUndefined x = false) (hy : isUndefined y = false) :
    larger (-y) (-x) = -smaller x y := by
  have h := smaller_neg_neg (isUndefined_neg y ▸ hy) (isUndefined_neg x ▸ hx)
  rw [Symmetric.neg_neg, Symmetric.neg_neg] at h
  rw [h, Symmetric.neg_neg]

/-- Where the smaller of two numbers is not undefined, the first is not. -/
theorem isUndefined_of_smaller {x y : K} (h : isUndefined (smaller x y) = false) :
    isUndefined x = false := by
  by_contra hx
  have hsame : same x x = false := by simpa [isUndefined] using hx
  rw [smaller, Symmetric.less_undefined y x hsame, if_neg Bool.false_ne_true] at h
  exact hx h

@[simp] theorem negated_zeros (n : Nat) : negated (zeros n : List K) = zeros n := by
  rw [negated, zeros, List.map_replicate, Symmetric.neg_zero]

/-- An entry of opposites, with a default that is its own opposite. -/
theorem getD_negated (xs : List K) (i : Nat) {d : K} (hd : -d = d) :
    (negated xs).getD i d = -xs.getD i d := by
  rw [List.getD_eq_getElem?_getD, List.getD_eq_getElem?_getD, getElem?_negated]
  cases xs[i]? with
  | none => exact hd.symm
  | some x => rfl

theorem foldl_add_negated (a : K) (xs : List K) :
    (negated xs).foldl (· + ·) (-a) = -xs.foldl (· + ·) a := by
  induction xs generalizing a with
  | nil => rfl
  | cons x xs ih => rw [negated_cons, List.foldl_cons, List.foldl_cons, Symmetric.neg_add_neg, ih]

@[simp] theorem sum_negated (xs : List K) : sum (negated xs) = -sum xs := by
  have h := foldl_add_negated (0 : K) xs
  rwa [Symmetric.neg_zero] at h

/-- The sum of the opposites of what a list gives. -/
theorem sum_map_neg {α : Type} (f : α → K) (xs : List α) :
    sum (xs.map fun a => -f a) = -sum (xs.map f) := by
  rw [← sum_negated, negated, List.map_map]
  rfl

@[simp] theorem mean_negated (xs : List K) : mean (negated xs) = -mean xs := by
  rw [mean, mean, sum_negated, length_negated, Symmetric.neg_div]

@[simp] theorem zipWith_mul_negated_right (xs ys : List K) :
    List.zipWith (· * ·) xs (negated ys) = negated (List.zipWith (· * ·) xs ys) := by
  rw [negated, negated, List.zipWith_map_right, List.map_zipWith]
  exact congrArg (List.zipWith · xs ys) (funext₂ fun x y => Symmetric.mul_neg x y)

@[simp] theorem dot_negated_right (xs ys : List K) : dot xs (negated ys) = -dot xs ys := by
  rw [dot, dot, zipWith_mul_negated_right, sum_negated]

@[simp] theorem zipWith_add_negated (xs ys : List K) :
    List.zipWith (· + ·) (negated xs) (negated ys) = negated (List.zipWith (· + ·) xs ys) := by
  rw [negated, negated, negated, List.zipWith_map, List.map_zipWith]
  exact congrArg (List.zipWith · xs ys) (funext₂ fun x y => Symmetric.neg_add_neg x y)

@[simp] theorem scale_negated (c : K) (xs : List K) :
    scale c (negated xs) = negated (scale c xs) := by
  rw [scale, scale, negated, negated, List.map_map, List.map_map]
  exact congrArg (List.map · xs) (funext fun x => Symmetric.mul_neg c x)

@[simp] theorem scale_neg (c : K) (xs : List K) : scale (-c) xs = negated (scale c xs) := by
  rw [scale, scale, negated, List.map_map]
  exact congrArg (List.map · xs) (funext fun x => Symmetric.neg_mul c x)

@[simp] theorem negated_negated (xs : List K) : negated (negated xs) = xs := by
  rw [negated, negated, List.map_map]
  exact (congrArg (List.map · xs) (funext Symmetric.neg_neg)).trans (List.map_id _)

end Scalar

end Recourse
