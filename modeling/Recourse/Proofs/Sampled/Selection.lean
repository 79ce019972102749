/-
  Proofs/Sampled/Selection.lean --- the best of several values, and their mean.

  In exact arithmetic, and where the values are numbers, a study picks the first of its
  replications whose value no other one beats (`Plan.best_firstBest`), the middle of an
  interval around the mean is the mean (`Interval.midpoint_ofValues`), and so no mean beats the
  value that is picked (`Goal.FirstBest.le_mean`).
-/
import Recourse.Proofs.Model.Meaning
import Recourse.Sampled.Study

set_option autoImplicit false
set_option linter.unusedSectionVars false

namespace Recourse

/-! ## The first best -/

namespace Goal

variable {K α β : Type} [Scalar K]

/-- Whether a value is better than another one. -/
def better (g : Goal) (x y : K) : Bool :=
  match g with
  | .minimize => Scalar.less x y
  | .maximize => Scalar.less y x

/-- No item beats this one, and this one beats every item in front of it. -/
def FirstBest (g : Goal) (value : α → K) (xs : List α) (x : α) : Prop :=
  ∃ i, xs[i]? = some x ∧ ∀ (j : Nat) (y : α), xs[j]? = some y →
    g.better (value y) (value x) = false ∧ (j < i → g.better (value x) (value y) = true)

variable {g : Goal} {value : α → K} {xs : List α} {x y : α}

theorem FirstBest.mem (h : g.FirstBest value xs x) : x ∈ xs := by
  obtain ⟨i, hi, -⟩ := h
  exact List.mem_of_getElem? hi

/-- There is one first best item. -/
theorem FirstBest.unique (hx : g.FirstBest value xs x) (hy : g.FirstBest value xs y) : y = x := by
  obtain ⟨i, hi, hbest⟩ := hx
  obtain ⟨j, hj, hbest'⟩ := hy
  rcases lt_trichotomy i j with hlt | rfl | hlt
  · exact absurd ((hbest' i x hi).2 hlt) (by rw [(hbest j y hj).1]; decide)
  · exact Option.some.inj (hj.symm.trans hi)
  · exact absurd ((hbest j y hj).2 hlt) (by rw [(hbest' i x hi).1]; decide)

theorem FirstBest.head (hself : g.better (value x) (value x) = false)
    (h : ∀ y ∈ xs, g.better (value y) (value x) = false) : g.FirstBest value (x :: xs) x := by
  refine ⟨0, rfl, fun j y hy => ⟨?_, fun hj => absurd hj (Nat.not_lt_zero j)⟩⟩
  rcases List.mem_cons.1 (List.mem_of_getElem? hy) with rfl | hmem
  · exact hself
  · exact h y hmem

/-- What is best behind an item that it beats is best. -/
theorem FirstBest.tail (h : g.FirstBest value xs x) (hbeats : g.better (value x) (value y) = true)
    (hbeaten : g.better (value y) (value x) = false) : g.FirstBest value (y :: xs) x := by
  obtain ⟨i, hi, hbest⟩ := h
  refine ⟨i + 1, hi, fun j z hz => ?_⟩
  cases j with
  | zero =>
    cases hz
    exact ⟨hbeaten, fun _ => hbeats⟩
  | succ j => exact ⟨(hbest j z hz).1, fun hj => (hbest j z hz).2 (Nat.lt_of_succ_lt_succ hj)⟩

theorem FirstBest.of_map {value : β → K} {f : α → β} {y : β}
    (h : g.FirstBest value (xs.map f) y) :
    ∃ x, f x = y ∧ g.FirstBest (fun x => value (f x)) xs x := by
  obtain ⟨i, hi, hbest⟩ := h
  rw [List.getElem?_map, Option.map_eq_some_iff] at hi
  obtain ⟨x, hx, rfl⟩ := hi
  refine ⟨x, rfl, i, hx, fun j z hz => hbest j (f z) ?_⟩
  rw [List.getElem?_map, hz, Option.map_some]

end Goal

/-! ## Numbers -/

variable {F : Type} [Field F] [LinearOrder F] [IsStrictOrderedRing F] [FloorRing F]

namespace Goal

/-- The factor of minimization is positive, and that of maximization is not. -/
theorem less_zero_sign (g : Goal) : Scalar.less (0 : Exact F) g.sign = decide (g = .minimize) := by
  rw [sign_eq, Exact.zero_eq, Exact.less_finite]
  cases g with
  | minimize => simp [factor]
  | maximize => simp [factor, zero_le_one.not_gt]

/-- Of two numbers, one is better if it is less once the factor of the sense is applied. -/
theorem better_eq_less (g : Goal) (x y : Exact F) (hx : Scalar.isFinite x = true)
    (hy : Scalar.isFinite y = true) : g.better x y = Scalar.less (g.sign * x) (g.sign * y) := by
  rw [← Exact.finite_value hx, ← Exact.finite_value hy, sign_eq, Exact.finite_mul, Exact.finite_mul,
    Exact.less_finite]
  cases g with
  | minimize => rw [factor, one_mul, one_mul]; rfl
  | maximize => simp [better, factor]

/-- The same as an order of the field. -/
theorem better_eq_true_iff (g : Goal) {x y : Exact F} (hx : Scalar.isFinite x = true)
    (hy : Scalar.isFinite y = true) :
    g.better x y = true ↔ g.factor * x.value < g.factor * y.value := by
  rw [g.better_eq_less x y hx hy, ← Exact.finite_value hx, ← Exact.finite_value hy, sign_eq,
    Exact.finite_mul, Exact.finite_mul, Exact.less_finite, decide_eq_true_iff, Exact.value_finite,
    Exact.value_finite]

theorem better_eq_false_iff (g : Goal) {x y : Exact F} (hx : Scalar.isFinite x = true)
    (hy : Scalar.isFinite y = true) :
    g.better x y = false ↔ g.factor * y.value ≤ g.factor * x.value := by
  rw [Bool.eq_false_iff, Ne, g.better_eq_true_iff hx hy, not_lt]

theorem le_of_factor_le {x y : F} :
    {g : Goal} → g.factor * x ≤ g.factor * y → match g with
      | .minimize => x ≤ y
      | .maximize => y ≤ x
  | .minimize, h => by rwa [factor, one_mul, one_mul] at h
  | .maximize, h => by rwa [factor, neg_one_mul, neg_one_mul, neg_le_neg_iff] at h

/-- No mean beats the best value. -/
theorem FirstBest.le_mean {α : Type} {g : Goal} {value : α → Exact F} {xs : List α} {x : α}
    (h : g.FirstBest value xs x) (hvalues : ∀ y ∈ xs, Scalar.isFinite (value y) = true) :
    g.factor * (value x).value ≤
      g.factor * ((xs.map fun y => (value y).value).sum / xs.length) := by
  have hpos : (0 : F) < xs.length := Nat.cast_pos.2 (List.length_pos_iff.2
    (List.ne_nil_of_mem h.mem))
  have hmem := h.mem
  obtain ⟨_, -, hbest⟩ := h
  have hsum := List.card_nsmul_le_sum (xs.map fun y => g.factor * (value y).value)
    (g.factor * (value x).value) (by
      intro _ hz
      obtain ⟨y, hy, rfl⟩ := List.mem_map.1 hz
      obtain ⟨j, hj⟩ := List.getElem?_of_mem hy
      exact (g.better_eq_false_iff (hvalues y hy) (hvalues x hmem)).1 (hbest j y hj).1)
  rw [List.length_map, nsmul_eq_mul, List.sum_map_mul_left] at hsum
  rw [← mul_div_assoc, le_div_iff₀ hpos, mul_comm]
  exact hsum

end Goal

/-! ## Means -/

/-- Functions of numbers that intervals need, which exact arithmetic does not have: the root, the
exponential function and quantiles. -/
class Curves (F : Type) [Zero F] [LT F] where
  /-- The square root. -/
  sqrt : F → F
  /-- The exponential function. -/
  exp : F → F
  /-- The quantiles of the normal distribution, between zero and one. -/
  normalQuantile : F → F
  /-- The quantiles of Student's distribution, between zero and one. -/
  studentQuantile : Nat → F → F
  /-- Positive numbers have positive roots. -/
  sqrt_pos : ∀ {x : F}, 0 < x → 0 < sqrt x

namespace Exact

variable [Curves F]

/-- The root; a number below zero has none. -/
def root : Exact F → Exact F
  | .finite x => if x < 0 then .undefined else .finite (Curves.sqrt x)
  | .minusInfinity => .undefined
  | e => e

/-- The exponential function. -/
def power : Exact F → Exact F
  | .finite x => .finite (Curves.exp x)
  | .minusInfinity => .finite 0
  | e => e

/-- A quantile: infinite at the ends of the unit interval, and undefined outside. -/
def quantile (f : F → F) : Exact F → Exact F
  | .finite x =>
      if x = 0 then .minusInfinity else if x = 1 then .plusInfinity
      else if 0 < x ∧ x < 1 then .finite (f x) else .undefined
  | _ => .undefined

-- The curves of a field go before an instance for that field alone.
instance (priority := 1100) : Analytic (Exact F) where
  sqrt := root
  exp := power
  normalQuantile := quantile Curves.normalQuantile
  studentQuantile freedom := quantile (Curves.studentQuantile freedom)

theorem sqrt_finite {x : F} (h : 0 ≤ x) : Analytic.sqrt (finite x) = .finite (Curves.sqrt x) :=
  if_neg (not_lt.2 h)

theorem quantile_finite (f : F → F) {x : F} (h0 : 0 < x) (h1 : x < 1) :
    quantile f (finite x) = .finite (f x) := by
  rw [quantile, if_neg h0.ne', if_neg h1.ne, if_pos ⟨h0, h1⟩]

omit [Curves F] in
theorem ofInt_eq (n : Int) : (Scalar.ofInt n : Exact F) = .finite n := rfl

omit [Curves F] in
theorem mean_finite {xs : List F} (h : xs ≠ []) :
    Scalar.mean (xs.map .finite) = (.finite (xs.sum / xs.length) : Exact F) := by
  have hlength : (xs.length : F) ≠ 0 := Nat.cast_ne_zero.2 (mt List.length_eq_zero_iff.1 h)
  rw [Scalar.mean, sum_finite, List.length_map, Scalar.ofNat, ofInt_eq, Int.cast_natCast,
    finite_div hlength]

end Exact

namespace Interval

/-- The variance of two or more numbers is a number that is not below zero. -/
theorem exists_sampleVariance (xs : List F) (h : 2 ≤ xs.length) :
    ∃ v : F, 0 ≤ v ∧ sampleVariance (xs.map .finite) = Exact.finite v := by
  have hne : xs ≠ [] := List.ne_nil_of_length_pos (by omega)
  have hpos : (0 : F) < ((xs.length - 1 : Int) : F) := Int.cast_pos.2 (by omega)
  let mean := xs.sum / xs.length
  have hsquares : ((xs.map Exact.finite).map fun x => Scalar.square (x - .finite mean)) =
      (xs.map fun x => (x - mean) * (x - mean)).map .finite := by
    rw [List.map_map, List.map_map]
    refine List.map_congr_left fun x _ => ?_
    rw [Function.comp_apply, Function.comp_apply, Exact.finite_sub, Scalar.square, Exact.finite_mul]
  refine ⟨(xs.map fun x => (x - mean) * (x - mean)).sum / ((xs.length - 1 : Int) : F),
    div_nonneg (List.sum_nonneg fun y hy => ?_) hpos.le, ?_⟩
  · obtain ⟨x, -, rfl⟩ := List.mem_map.1 hy
    exact mul_self_nonneg _
  · unfold sampleVariance
    dsimp only
    rw [Exact.mean_finite hne, hsquares, Exact.sum_finite, List.length_map, Exact.ofInt_eq,
      Exact.finite_div hpos.ne']

variable [Curves F]

/-- How many standard errors the ends are away is a number. -/
theorem exists_critical (k : CriticalValue) (count : Nat) {c : F} (h0 : 0 < c) (h1 : c < 1) :
    ∃ x : F, critical k count (.finite c) = Exact.finite x := by
  have hlevel : (1 : Exact F) - (1 - .finite c) / Scalar.ofNat 2 =
      .finite (1 - (1 - c) / ((2 : Nat) : Int)) := by
    rw [Scalar.ofNat, Exact.ofInt_eq, Exact.one_eq, Exact.finite_sub,
      Exact.finite_div (by norm_num), Exact.finite_sub]
  have hlow : 0 < 1 - (1 - c) / (((2 : Nat) : Int) : F) := by norm_num; linarith
  have hhigh : 1 - (1 - c) / (((2 : Nat) : Int) : F) < 1 := by norm_num; linarith
  unfold critical
  rw [hlevel]
  cases k with
  | student => exact ⟨_, Exact.quantile_finite _ hlow hhigh⟩
  | normal => exact ⟨_, Exact.quantile_finite _ hlow hhigh⟩

/-- The middle of an interval around the mean of numbers is their mean. -/
theorem midpoint_ofValues {xs : List F} (h : xs ≠ []) {c : F} (h0 : 0 < c) (h1 : c < 1)
    (k : CriticalValue) :
    (ofValues (xs.map .finite) (.finite c) k).midpoint = Exact.finite (xs.sum / xs.length) := by
  have hcenter (m : F) : midpoint ⟨Exact.finite (xs.sum / xs.length) - .finite m,
      .finite (xs.sum / xs.length) + .finite m, .finite c⟩ = .finite (xs.sum / xs.length) := by
    rw [midpoint, Exact.finite_sub, Exact.finite_add, Exact.finite_add]
    show Exact.finite (((5 : Nat) : F) / 10 ^ 1) * _ = _
    rw [Exact.finite_mul]
    congr 1
    push_cast
    ring
  unfold ofValues
  rw [Exact.mean_finite h, List.length_map]
  dsimp only
  split
  · -- A single value is its own mean: the interval has no margin.
    have hself := hcenter 0
    rwa [Exact.finite_sub, sub_zero, Exact.finite_add, add_zero] at hself
  · obtain ⟨v, hv, hvariance⟩ := exists_sampleVariance xs (by omega)
    obtain ⟨x, hx⟩ := exists_critical k xs.length h0 h1
    have hlength : (0 : F) < ((xs.length : Int) : F) := Int.cast_pos.2 (by omega)
    have hroot := Curves.sqrt_pos hlength
    rw [hvariance, hx, Exact.sqrt_finite hv, Scalar.ofNat, Exact.ofInt_eq,
      Exact.sqrt_finite hlength.le, Exact.finite_mul, Exact.finite_div hroot.ne']
    exact hcenter _

omit [Curves F] in
/-- A confidence is a number strictly between zero and one. -/
theorem readConfidence_eq_ok_iff {x level : Exact F} :
    readConfidence (.number (.real x)) = .ok level ↔
      level = x ∧ ∃ c : F, x = .finite c ∧ 0 < c ∧ c < 1 := by
  show (if Scalar.less 0 x && Scalar.less x 1 then _ else _) = _ ↔ _
  rw [Exact.zero_eq, Exact.one_eq]
  cases x with
  | finite c =>
    rw [Exact.less_finite, Exact.less_finite, ← Bool.decide_and]
    by_cases hc : 0 < c ∧ c < 1
    · simp [hc, Numeral.value, eq_comm]
    · simp [hc]
  | _ => simp [Scalar.less, Exact.lt]

end Interval

/-! ## The best replication -/

namespace Plan

variable [Curves F] {g : Goal}

/-- One of several replications is picked. -/
theorem exists_best (x : Exact F) {rs : List (Study.Replicate (Exact F))} (hne : rs ≠ []) :
    ∃ b ∈ rs, best x rs = some b := by
  induction rs with
  | nil => exact absurd rfl hne
  | cons r rs ih =>
    rw [best]
    split
    · exact ⟨r, List.mem_cons_self, rfl⟩
    · rename_i b hb
      obtain ⟨b', hmem, hb'⟩ := ih (by rintro rfl; cases hb)
      obtain rfl := Option.some.inj (hb'.symm.trans hb)
      split
      · exact ⟨b', List.mem_cons_of_mem _ hmem, rfl⟩
      · exact ⟨r, List.mem_cons_self, rfl⟩

/-- Between numbers, one goes before another one if it is better. -/
theorem goesBefore_eq_better {r r' : Study.Replicate (Exact F)}
    (hr : Scalar.isFinite r.value = true) (hr' : Scalar.isFinite r'.value = true) :
    goesBefore g.sign r r' = g.better r.value r'.value := by
  have hnumber : Scalar.isUndefined ((g.sign : Exact F) * r.value) = false := by
    rw [← Exact.finite_value hr, Goal.sign_eq, Exact.finite_mul, Bool.eq_false_iff, Ne,
      Exact.isUndefined_iff]
    exact fun h => nomatch h
  rw [g.better_eq_less _ _ hr hr', goesBefore]
  rw [if_neg (ne_true_of_eq_false hnumber)]

/-- The first best replication is picked. -/
theorem best_firstBest {rs : List (Study.Replicate (Exact F))} (hne : rs ≠ [])
    (hvalues : ∀ r ∈ rs, Scalar.isFinite r.value = true) :
    ∃ b, best g.sign rs = some b ∧ g.FirstBest (·.value) rs b := by
  induction rs with
  | nil => exact absurd rfl hne
  | cons r rs ih =>
    obtain ⟨hr, hrest⟩ := List.forall_mem_cons.1 hvalues
    have hself : g.better r.value r.value = false := (g.better_eq_false_iff hr hr).2 le_rfl
    by_cases hnil : rs = []
    · subst hnil
      exact ⟨r, rfl, .head hself fun _ h => absurd h List.not_mem_nil⟩
    · obtain ⟨b, hb, hbest⟩ := ih hnil hrest
      have hnumber := hrest b hbest.mem
      rw [best, hb]
      dsimp only
      rw [goesBefore_eq_better hnumber hr]
      by_cases hbeats : g.better b.value r.value = true
      · rw [if_pos hbeats]
        refine ⟨b, rfl, hbest.tail hbeats ?_⟩
        exact (g.better_eq_false_iff hr hnumber).2 ((g.better_eq_true_iff hnumber hr).1 hbeats).le
      · rw [if_neg hbeats]
        refine ⟨r, rfl, .head hself fun y hy => ?_⟩
        obtain ⟨_, -, hbest⟩ := hbest
        obtain ⟨j, hj⟩ := List.getElem?_of_mem hy
        rw [Bool.not_eq_true, g.better_eq_false_iff hnumber hr] at hbeats
        exact (g.better_eq_false_iff (hrest y hy) hr).2
          (hbeats.trans ((g.better_eq_false_iff (hrest y hy) hnumber).1 (hbest j y hj).1))

end Plan

end Recourse
