/-
  Proofs/Linear/Handover.lean --- what is handed to an engine and what comes back.

  `LinearProgram.accepted` is everything that solving does before the engine is asked,
  and `solve_eq` says that there is nothing else to it.  `LinearProgram.asRead` is the
  program with the limits its rows are read with: where the two limits of a row count
  as equal, the row is an equation at the lower one.  What is handed over is that
  program (`feasible_handed_iff_asRead`), and an optimal point of what was handed over
  comes back with duals and reduced costs that satisfy its optimality conditions
  (`SolveResult.Optimizes`), the equality of the two objectives among them.
-/
import Recourse.Proofs.Linear.Answer
import Recourse.Proofs.Linear.Transcript
import Mathlib.Data.Rat.Floor

set_option autoImplicit false
set_option linter.unusedSectionVars false

open scoped BigOperators

namespace Recourse

variable {F : Type} [Field F] [LinearOrder F] [IsStrictOrderedRing F] [FloorRing F]

/-! ## Before and after the engine -/

theorem ok_bind {ε α β : Type} (a : α) (f : α → Except ε β) :
    ((Except.ok a : Except ε α) >>= f) = f a := rfl

namespace Act

variable {σ K α β : Type}

theorem lift_ok_bind (a : α) (f : α → Act σ K β) :
    ((liftM (.ok a : Except (Fault K) α) : Act σ K α) >>= f) = f a := rfl

end Act

namespace LinearProgram

section Solving

variable {σ K : Type} [Scalar K]

/-- What is settled before the engine is asked: how the rows are sorted, and what the
engine is asked to respect. -/
def accepted (p : LinearProgram K) (params : Setting K) :
    Except (Fault K) (RowSplit K × Effort K) := do
  p.check
  let (lower, upper) ← p.rowLimits
  let split ← RowSplit.ofLimits p.rows.length lower upper
  let effort ← Effort.ofParams params
  if !(split.handed p).isUsable then throw (.misuse .value)
  return (split, effort)

/-- What is made of a verdict. -/
def answer (p : LinearProgram K) (split : RowSplit K) : Verdict K → SolveResult K
  | .optimal o => p.withOptimum split o
  | .ended status => p.withoutOptimum status

/-- A program is solved by one call of the engine, or it is refused without one. -/
theorem solve_eq [Host σ K] (p : LinearProgram K) (params : Setting K) :
    (p.solve params : Act σ K _) =
      match p.accepted params with
      | .ok (split, effort) => p.answer split <$> Host.optimize (split.handed p) effort
      | .error f => Act.fail f := by
  unfold solve accepted
  cases p.check with
  | error f => rfl
  | ok _ =>
    rw [Act.lift_ok_bind, ok_bind]
    cases p.rowLimits with
    | error f => rfl
    | ok limits =>
      simp only [Act.lift_ok_bind, ok_bind]
      cases RowSplit.ofLimits p.rows.length limits.1 limits.2 with
      | error f => rfl
      | ok split =>
        simp only [Act.lift_ok_bind, ok_bind]
        cases Effort.ofParams params with
        | error f => rfl
        | ok effort =>
          simp only [Act.lift_ok_bind, ok_bind]
          cases (split.handed p).isUsable with
          | false => rfl
          | true =>
            show _ = p.answer split <$> _
            rw [map_eq_bind_pure_comp]
            refine bind_congr fun v => ?_
            cases v <;> rfl

/-- A program that is accepted passed the checks, and its limits could be sorted. -/
theorem accepted_ok {p : LinearProgram K} {params : Setting K} {split : RowSplit K}
    {effort : Effort K} (h : p.accepted params = .ok (split, effort)) :
    p.check = .ok () ∧ ∃ limits, p.rowLimits = .ok limits ∧
      RowSplit.ofLimits p.rows.length limits.1 limits.2 = .ok split := by
  unfold accepted at h
  obtain ⟨⟨⟩, hcheck, h⟩ := bind_eq_ok_iff.1 h
  obtain ⟨limits, hlimits, h⟩ := bind_eq_ok_iff.1 h
  obtain ⟨s, hsplit, h⟩ := bind_eq_ok_iff.1 h
  obtain ⟨e, -, h⟩ := bind_eq_ok_iff.1 h
  refine ⟨hcheck, limits, hlimits, ?_⟩
  dsimp only at h
  split at h
  · cases h
  · cases h
    exact hsplit

end Solving

end LinearProgram

/-! ## The sides of the rows -/

namespace RowSplit

/-- Sorting out a range does not depend on where the range ends, as long as nothing lies
beyond. -/
theorem filter_range_eq {a b : Nat} {q : Nat → Bool} (ha : ∀ i, q i = true → i < a)
    (hb : ∀ i, q i = true → i < b) : (List.range a).filter q = (List.range b).filter q := by
  have hgrow : ∀ c k, (∀ i, q i = true → i < c) →
      (List.range (c + k)).filter q = (List.range c).filter q := by
    intro c k hc
    induction k with
    | zero => rfl
    | succ k ih =>
      have hnot : q (c + k) = false := by
        rw [Bool.eq_false_iff]
        exact fun h => absurd (hc _ h) (by omega)
      rw [← Nat.add_assoc, List.range_succ, List.filter_append, ih]
      simp [hnot]
  rcases Nat.le_total a b with h | h
  · rw [← hgrow a (b - a) ha, Nat.add_sub_cancel' h]
  · rw [← hgrow b (a - b) hb, Nat.add_sub_cancel' h]

/-- The lower and the upper limit of a row among limits that were matched. -/
def sideOf (pairs : List (Exact F × Exact F)) (i : Nat) : Exact F × Exact F :=
  pairs.getD i (.undefined, .undefined)

theorem sideOf_of_length_le {pairs : List (Exact F × Exact F)} {i : Nat}
    (h : pairs.length ≤ i) : sideOf pairs i = (.undefined, .undefined) :=
  List.getD_eq_default _ _ h

/-- A row beyond the limits that were matched is no equation. -/
theorem lt_of_agree {pairs : List (Exact F × Exact F)} {i : Nat}
    (h : agree (sideOf pairs i).1 (sideOf pairs i).2 = true) : i < pairs.length := by
  by_contra hi
  rw [sideOf_of_length_le (not_lt.1 hi)] at h
  obtain ⟨x, y, hx, -⟩ := agree_finite h
  cases hx

/-- The positions of the limits that count as equal. -/
def equations (pairs : List (Exact F × Exact F)) : List Nat :=
  (List.range pairs.length).filter fun i => agree (sideOf pairs i).1 (sideOf pairs i).2

theorem equations_eq (pairs : List (Exact F × Exact F)) :
    (pairs.zipIdx.filter fun p => agree p.1.1 p.1.2).map (·.2) = equations pairs := by
  rw [zipIdx_eq_map_range _ (.undefined, .undefined), List.filter_map, List.map_map]
  exact List.map_id'' (fun _ => rfl) _

theorem mem_equations {pairs : List (Exact F × Exact F)} {i : Nat} :
    i ∈ equations pairs ↔ agree (sideOf pairs i).1 (sideOf pairs i).2 = true := by
  rw [equations, List.mem_filter, List.mem_range]
  exact ⟨fun h => h.2, fun h => ⟨lt_of_agree h, h⟩⟩

/-- The rows of a program that are no equations. -/
def inequalities (m : Nat) (pairs : List (Exact F × Exact F)) : List Nat :=
  (List.range m).filter fun i => !agree (sideOf pairs i).1 (sideOf pairs i).2

theorem inequalities_eq (m : Nat) (pairs : List (Exact F × Exact F)) :
    ((List.range m).filter fun i => !(equations pairs).contains i) = inequalities m pairs := by
  refine List.filter_congr fun i _ => ?_
  rw [Bool.not_inj_iff, Bool.eq_iff_iff, List.contains_iff_mem]
  exact mem_equations

/-- Limits can be matched in one way, entry by entry; a list of one limit is repeated. -/
theorem sideOf_of_aligned {lower upper : List (Exact F)} {pairs : List (Exact F × Exact F)}
    (h : aligned lower upper = .ok pairs) {i : Nat} (hi : i < pairs.length) :
    (i < lower.length → (sideOf pairs i).1 = lower.getD i .undefined) ∧
      (i < upper.length → (sideOf pairs i).2 = upper.getD i .undefined) := by
  unfold aligned at h
  split at h
  · cases h
    rw [List.length_zip] at hi
    simp [sideOf, List.getD_eq_getElem?_getD, (lt_min_iff.1 hi).1, (lt_min_iff.1 hi).2]
  · split at h <;> cases h <;> rw [List.length_map] at hi
    · refine ⟨fun h0 => ?_, fun h0 => ?_⟩
      · obtain rfl : i = 0 := by simpa using h0
        simp [sideOf, List.getD_eq_getElem?_getD, hi]
      · simp [sideOf, List.getD_eq_getElem?_getD, hi]
    · refine ⟨fun h0 => ?_, fun h0 => ?_⟩
      · simp [sideOf, List.getD_eq_getElem?_getD, hi]
      · obtain rfl : i = 0 := by simpa using h0
        simp [sideOf, List.getD_eq_getElem?_getD, hi]

/-- Where both limits are given, they were matched. -/
theorem lt_of_aligned {lower upper : List (Exact F)} {pairs : List (Exact F × Exact F)}
    (h : aligned lower upper = .ok pairs) {i : Nat} (hl : i < lower.length)
    (hu : i < upper.length) : i < pairs.length := by
  unfold aligned at h
  split at h
  · cases h
    simp [hl, hu]
  · split at h <;> cases h <;> simpa using by assumption

theorem limit_ok {xs : List (Exact F)} {i : Nat} {r : Nat × Exact F}
    (h : limit xs i = .ok r) : i < xs.length ∧ r = (i, xs.getD i .undefined) := by
  by_cases hi : i < xs.length
  · rw [limit_eq hi] at h
    cases h
    exact ⟨hi, rfl⟩
  · have hnone : xs[i]? = none := List.getElem?_eq_none (not_lt.1 hi)
    rw [limit, SolveResult.entry, hnone] at h
    cases h

theorem limits_ok {xs : List (Exact F)} {is : List Nat} {rs : List (Nat × Exact F)}
    (h : is.mapM (limit xs) = .ok rs) :
    (∀ i ∈ is, i < xs.length) ∧ rs = is.map fun i => (i, xs.getD i .undefined) := by
  have hall := (Settles.mapM (E := fun _ => True) is fun i _ => Settles.self (limit xs i)).of_ok h
  refine ⟨fun i hi => ?_, eq_map_of_forall₂ (hall.imp fun i r hr => (limit_ok hr).2)⟩
  obtain ⟨k, hk, rfl⟩ := List.getElem_of_mem hi
  exact (limit_ok (hall.get hk (hall.length_eq ▸ hk))).1

/-- What sorting the limits goes through when it succeeds. -/
theorem ofLimits_steps {m : Nat} {lower upper : List (Exact F)} {s : RowSplit (Exact F)}
    (h : ofLimits m lower upper = .ok s) :
    ∃ pairs, aligned lower upper = .ok pairs ∧
      (∀ i ∈ equations pairs, i < m ∧ i < lower.length) ∧
      (∀ i ∈ inequalities m pairs, i < lower.length ∧ i < upper.length) ∧
      s =
        { equal := (equations pairs).map fun i => (i, lower.getD i .undefined)
          upper := ((inequalities m pairs).map fun i => (i, upper.getD i .undefined)).filter
            fun r => !Scalar.isInfinite r.2
          lower := ((inequalities m pairs).map fun i => (i, lower.getD i .undefined)).filter
            fun r => !Scalar.isInfinite r.2 } := by
  unfold ofLimits at h
  obtain ⟨pairs, hpairs, h⟩ := bind_eq_ok_iff.1 h
  simp only [equations_eq, inequalities_eq] at h
  obtain ⟨uppers, huppers, h⟩ := bind_eq_ok_iff.1 h
  obtain ⟨lowers, hlowers, h⟩ := bind_eq_ok_iff.1 h
  split at h
  · cases h
  rename_i hbeyond
  obtain ⟨equals, hequals, h⟩ := bind_eq_ok_iff.1 h
  cases h
  obtain ⟨hupper, rfl⟩ := limits_ok huppers
  obtain ⟨hlower, rfl⟩ := limits_ok hlowers
  obtain ⟨hequal, rfl⟩ := limits_ok hequals
  -- An equation beyond the rows is refused, which is why all of them are rows.
  refine ⟨pairs, hpairs, fun i hi => ⟨?_, hequal i hi⟩, fun i hi => ⟨hlower i hi, hupper i hi⟩, rfl⟩
  by_contra hm
  exact hbeyond (List.any_eq_true.2 ⟨i, hi, decide_eq_true (not_lt.1 hm)⟩)

/-- Limits that can be sorted at all are sorted by the sides of the rows. -/
theorem ofLimits_ok {m : Nat} {lower upper : List (Exact F)} {s : RowSplit (Exact F)}
    (h : ofLimits m lower upper = .ok s) :
    ∃ pairs, aligned lower upper = .ok pairs ∧
      s = ofSides (fun i => (sideOf pairs i).1) (fun i => (sideOf pairs i).2) m := by
  obtain ⟨pairs, hpairs, hequal, hothers, rfl⟩ := ofLimits_steps h
  have hrange : equations pairs = (List.range m).filter fun i =>
      agree (sideOf pairs i).1 (sideOf pairs i).2 :=
    filter_range_eq (fun i hi => lt_of_agree hi) fun i hi => (hequal i (mem_equations.2 hi)).1
  have hequals : ((equations pairs).map fun i => (i, lower.getD i .undefined)) =
      (equations pairs).map fun i => (i, (sideOf pairs i).1) :=
    List.map_congr_left fun i hi => by
      rw [(sideOf_of_aligned hpairs (lt_of_agree (mem_equations.1 hi))).1 (hequal i hi).2]
  have hside : ∀ i ∈ inequalities m pairs, sideOf pairs i =
      (lower.getD i .undefined, upper.getD i .undefined) := by
    intro i hi
    obtain ⟨hl, hu⟩ := hothers i hi
    have hside := sideOf_of_aligned hpairs (lt_of_aligned hpairs hl hu)
    exact Prod.ext (hside.1 hl) (hside.2 hu)
  have huppers : ((inequalities m pairs).map fun i => (i, upper.getD i .undefined)) =
      (inequalities m pairs).map fun i => (i, (sideOf pairs i).2) :=
    List.map_congr_left fun i hi => by rw [hside i hi]
  have hlowers : ((inequalities m pairs).map fun i => (i, lower.getD i .undefined)) =
      (inequalities m pairs).map fun i => (i, (sideOf pairs i).1) :=
    List.map_congr_left fun i hi => by rw [hside i hi]
  refine ⟨pairs, hpairs, ?_⟩
  rw [hequals, huppers, hlowers, hrange]
  simp only [ofSides, inequalities, List.filter_map, List.filter_filter, Function.comp_def,
    Bool.and_comm]

theorem agree_self (a : F) : agree (.finite a : Exact F) (.finite a) = true := by
  have htolerance : (equalityTolerance : Exact F) = .finite (((1 : Nat) : F) / 10 ^ 12) := rfl
  rw [agree, Exact.finite_sub, sub_self, Exact.abs_finite, abs_zero, htolerance,
    Exact.less_finite]
  exact decide_eq_true (by positivity)

end RowSplit

namespace LinearProgram

/-- The lower and the upper limit of a row once the limits are matched. -/
def sides (p : LinearProgram (Exact F)) (i : Nat) : Exact F × Exact F :=
  match p.rowLimits >>= fun limits => RowSplit.aligned limits.1 limits.2 with
  | .ok pairs => RowSplit.sideOf pairs i
  | .error _ => (.undefined, .undefined)

/-- A row is read as an equation. -/
def IsEquation (p : LinearProgram (Exact F)) (i : Nat) : Prop :=
  RowSplit.agree (p.sides i).1 (p.sides i).2 = true

instance (p : LinearProgram (Exact F)) (i : Nat) : Decidable (p.IsEquation i) :=
  inferInstanceAs (Decidable (_ = true))

/-- The upper limit a row is read with, the lower one if it is read as an equation. -/
def upperSide (p : LinearProgram (Exact F)) (i : Nat) : Exact F :=
  if p.IsEquation i then (p.sides i).1 else (p.sides i).2

/-- A program with the limits that its rows are read with. -/
def asRead (p : LinearProgram (Exact F)) : LinearProgram (Exact F) :=
  { p with
    limits := .between (some ((List.range p.rows.length).map fun i => (p.sides i).1))
      (some ((List.range p.rows.length).map p.upperSide)) }

variable {p : LinearProgram (Exact F)}

theorem lowerLimit_asRead {i : Nat} (hi : i < p.rows.length) :
    p.asRead.lowerLimit i = (p.sides i).1 := by
  simp [lowerLimit, rowLimits, asRead, List.getD_eq_getElem?_getD, hi]

theorem upperLimit_asRead {i : Nat} (hi : i < p.rows.length) :
    p.asRead.upperLimit i = p.upperSide i := by
  simp [upperLimit, rowLimits, asRead, List.getD_eq_getElem?_getD, hi]

/-- The limits of an equation are one number. -/
theorem IsEquation.sides_eq {i : Nat} (h : p.IsEquation i) :
    ∃ b, (p.sides i).1 = .finite b ∧ p.upperSide i = .finite b := by
  obtain ⟨b, -, hb, -⟩ := RowSplit.agree_finite h
  exact ⟨b, hb, by rw [upperSide, if_pos h, hb]⟩

/-- Whether a row is an equation can be told from the limits it is read with. -/
theorem agree_upperSide (p : LinearProgram (Exact F)) (i : Nat) :
    RowSplit.agree (p.sides i).1 (p.upperSide i) = RowSplit.agree (p.sides i).1 (p.sides i).2 := by
  by_cases h : p.IsEquation i
  · obtain ⟨b, hlower, hupper⟩ := h.sides_eq
    rw [hupper, hlower, RowSplit.agree_self, ← hlower]
    exact h.symm
  · rw [upperSide, if_neg h]

theorem ofSides_upperSide (p : LinearProgram (Exact F)) (m : Nat) :
    RowSplit.ofSides (fun i => (p.sides i).1) p.upperSide m =
      RowSplit.ofSides (fun i => (p.sides i).1) (fun i => (p.sides i).2) m := by
  have hupper : ∀ i, RowSplit.agree (p.sides i).1 (p.sides i).2 = false →
      p.upperSide i = (p.sides i).2 := by
    intro i hi
    exact if_neg (by rw [IsEquation, hi]; exact Bool.false_ne_true)
  simp only [RowSplit.ofSides, agree_upperSide, RowSplit.mk.injEq, true_and, and_true]
  have hfilter : ((List.range m).filter fun i => !RowSplit.agree (p.sides i).1 (p.sides i).2 &&
      !Scalar.isInfinite (p.upperSide i)) = (List.range m).filter fun i =>
        !RowSplit.agree (p.sides i).1 (p.sides i).2 && !Scalar.isInfinite (p.sides i).2 := by
    refine List.filter_congr fun i _ => ?_
    cases h : RowSplit.agree (p.sides i).1 (p.sides i).2 with
    | true => rfl
    | false => rw [hupper i h]
  rw [hfilter]
  refine List.map_congr_left fun i hi => ?_
  have h := (List.mem_filter.1 hi).2
  rw [Bool.and_eq_true, Bool.not_eq_true'] at h
  rw [hupper i h.1]

/-- The limits that the rows are read with are those of the program as it is read. -/
theorem sides_asRead (p : LinearProgram (Exact F)) :
    RowSplit.Sides p.asRead (fun i => (p.sides i).1) p.upperSide where
  lowerLimit _ hi := lowerLimit_asRead hi
  upperLimit _ hi := upperLimit_asRead hi
  crisp i _ h := by
    rw [agree_upperSide] at h
    obtain ⟨b, hlower, hupper⟩ := IsEquation.sides_eq h
    rw [hlower, hupper]

/-- What is handed over for a program that is accepted is the program as it is read. -/
theorem split_of_accepted {params : Setting (Exact F)} {split : RowSplit (Exact F)}
    {effort : Effort (Exact F)} (h : p.accepted params = .ok (split, effort)) :
    split = RowSplit.ofSides (fun i => (p.sides i).1) p.upperSide p.asRead.rows.length := by
  obtain ⟨-, limits, hlimits, hsplit⟩ := accepted_ok h
  obtain ⟨pairs, hpairs, rfl⟩ := RowSplit.ofLimits_ok hsplit
  have hsides : ∀ i, p.sides i = RowSplit.sideOf pairs i := fun i => by
    rw [sides, hlimits, ok_bind, hpairs]
  rw [ofSides_upperSide]
  simp only [hsides, asRead]

/-- Where there is a lower and an upper limit for every row, these are the sides. -/
theorem sides_eq_limits {limits : List (Exact F) × List (Exact F)}
    (h : p.rowLimits = .ok limits) (hlower : limits.1.length = p.rows.length)
    (hupper : limits.2.length = p.rows.length) {i : Nat} (hi : i < p.rows.length) :
    p.sides i = (p.lowerLimit i, p.upperLimit i) := by
  have haligned : RowSplit.aligned limits.1 limits.2 = .ok (limits.1.zip limits.2) := by
    unfold RowSplit.aligned
    rw [if_pos (hlower.trans hupper.symm)]
  rw [sides, h, ok_bind, haligned]
  simp [lowerLimit, upperLimit, h, RowSplit.sideOf, List.getD_eq_getElem?_getD, hlower, hupper, hi]

/-- The feasible points of a program as it is read: equations hold exactly, other rows stay
between their limits, and an infinite side limits nothing. -/
theorem feasible_asRead_iff (v : Nat → F) :
    p.asRead.Feasible v ↔
      (∀ i < p.rows.length, if p.IsEquation i then (p.sides i).1 = .finite (p.rowAt i v)
        else (p.sides i).1.RespectsLower (p.rowAt i v) ∧
          (p.sides i).2.RespectsUpper (p.rowAt i v)) ∧
      ∀ j < p.cost.length, p.ColumnHolds j v := by
  have hrow : ∀ i < p.rows.length, (p.asRead.RowHolds i v ↔
      if p.IsEquation i then (p.sides i).1 = .finite (p.rowAt i v)
      else (p.sides i).1.RespectsLower (p.rowAt i v) ∧
        (p.sides i).2.RespectsUpper (p.rowAt i v)) := by
    intro i hi
    have hat : p.asRead.rowAt i v = p.rowAt i v := rfl
    rw [RowHolds, lowerLimit_asRead hi, upperLimit_asRead hi, hat]
    split
    · rename_i h
      obtain ⟨b, hlower, hupper⟩ := h.sides_eq
      rw [hlower, hupper, Exact.respectsLower_finite, Exact.respectsUpper_finite,
        Exact.finite.injEq]
      exact ⟨fun h => le_antisymm h.1 h.2, fun h => ⟨h.le, h.ge⟩⟩
    · rename_i h
      rw [upperSide, if_neg h]
  constructor
  · intro h
    exact ⟨fun i hi => (hrow i hi).1 (h.rows i hi), h.columns⟩
  · intro h
    exact ⟨fun i hi => (hrow i hi).2 (h.1 i hi), h.2⟩

end LinearProgram

/-! ## Optimality conditions -/

namespace LinearProgram

/-- The limit of a row that a dual speaks of. -/
def activeLimit (p : LinearProgram (Exact F)) (i : Nat) (dual : F) : Exact F :=
  if 0 < dual then p.lowerLimit i else p.upperLimit i

/-- The bound of a column that a reduced cost speaks of. -/
def activeBound (p : LinearProgram (Exact F)) (j : Nat) (cost : F) : Exact F :=
  if 0 < cost then p.lower.getD j .undefined else p.upper.getD j .undefined

end LinearProgram

/-- The optimality conditions of a program, spelled out. -/
structure SolveResult.Optimizes (r : SolveResult (Exact F)) (p : LinearProgram (Exact F)) : Prop
    extends r.Certifies p where
  /-- Reduced costs are the costs less the rows weighed by their duals. -/
  reduced : ∀ j < p.cost.length, coord r.costs j = coord p.cost j -
    ∑ i ∈ Finset.range p.rows.length, coord r.duals i * (p.rows.getD i []).coefficientAt j
  /-- The dual of a row with a lower side only is not negative, -/
  lower_only : ∀ i < p.rows.length, Scalar.isFinite (p.upperLimit i) = false →
    0 ≤ coord r.duals i
  /-- and that of a row with an upper side only is not positive. -/
  upper_only : ∀ i < p.rows.length, Scalar.isFinite (p.lowerLimit i) = false →
    coord r.duals i ≤ 0
  /-- A row without limits has no dual, -/
  free : ∀ i < p.rows.length, Scalar.isFinite (p.lowerLimit i) = false →
    Scalar.isFinite (p.upperLimit i) = false → coord r.duals i = 0
  /-- nor has a row that is slack on both sides. -/
  slack : ∀ i < p.rows.length, p.lowerLimit i ≠ .finite (p.rowAt i (coord r.point)) →
    p.upperLimit i ≠ .finite (p.rowAt i (coord r.point)) → coord r.duals i = 0
  /-- The cost of the point is that of the active limits and bounds. -/
  balance : costAt p.cost (coord r.point) =
    (∑ i ∈ Finset.range p.rows.length,
        coord r.duals i * (p.activeLimit i (coord r.duals i)).value) +
      ∑ j ∈ Finset.range p.cost.length,
        coord r.costs j * (p.activeBound j (coord r.costs j)).value

namespace SolveResult.Certifies

variable {r : SolveResult (Exact F)} {p : LinearProgram (Exact F)}

/-- Column by column, the duals and the reduced costs balance the cost. -/
theorem reduced (h : r.Certifies p) (hwithin : ∀ r ∈ p.rows, r.Within p.cost.length) {j : Nat}
    (hj : j < p.cost.length) : coord r.costs j = coord p.cost j -
      ∑ i ∈ Finset.range p.rows.length, coord r.duals i * (p.rows.getD i []).coefficientAt j := by
  -- The balance along the unit vector of the column.
  set unit : Nat → F := Pi.single j 1 with hunit
  have hsingle : ∀ f : Nat → F, ∑ k ∈ Finset.range p.cost.length, f k * unit k = f j := by
    intro f
    rw [Finset.sum_eq_single j (fun k _ hk => by rw [hunit, Pi.single_eq_of_ne hk, mul_zero])
      (fun hnot => absurd (Finset.mem_range.2 hj) hnot), hunit, Pi.single_eq_same, mul_one]
  have hrow : ∀ i, p.rowAt i unit = (p.rows.getD i []).coefficientAt j := fun i => by
    rw [LinearProgram.rowAt, SparseRow.valueAt_eq_sum (SparseRow.within_getD hwithin i), hsingle]
  have hbalance := h.stationary unit
  rw [costAt, hsingle, hsingle] at hbalance
  simp only [hrow] at hbalance
  linarith

/-- A dual that is not zero belongs to a limit that is active. -/
theorem activeLimit_eq (h : r.Certifies p) {i : Nat} (hi : i < p.rows.length)
    (hne : coord r.duals i ≠ 0) :
    p.activeLimit i (coord r.duals i) = .finite (p.rowAt i (coord r.point)) := by
  obtain ⟨hpos, hneg⟩ := h.row_active i hi
  rcases lt_or_gt_of_ne hne with hlt | hgt
  · rw [LinearProgram.activeLimit, if_neg hlt.le.not_gt]
    exact hneg hlt
  · rw [LinearProgram.activeLimit, if_pos hgt]
    exact hpos hgt

/-- A reduced cost that is not zero belongs to a bound that is active. -/
theorem activeBound_eq (h : r.Certifies p) {j : Nat} (hj : j < p.cost.length)
    (hne : coord r.costs j ≠ 0) :
    p.activeBound j (coord r.costs j) = .finite (coord r.point j) := by
  obtain ⟨hpos, hneg⟩ := h.column_active j hj
  rcases lt_or_gt_of_ne hne with hlt | hgt
  · rw [LinearProgram.activeBound, if_neg hlt.le.not_gt]
    exact hneg hlt
  · rw [LinearProgram.activeBound, if_pos hgt]
    exact hpos hgt

/-- The cost of the point is that of the active limits and bounds. -/
theorem balance (h : r.Certifies p) : costAt p.cost (coord r.point) =
    (∑ i ∈ Finset.range p.rows.length,
        coord r.duals i * (p.activeLimit i (coord r.duals i)).value) +
      ∑ j ∈ Finset.range p.cost.length,
        coord r.costs j * (p.activeBound j (coord r.costs j)).value := by
  rw [h.stationary]
  refine congrArg₂ _ (Finset.sum_congr rfl fun i hi => ?_) (Finset.sum_congr rfl fun j hj => ?_)
  · by_cases hne : coord r.duals i = 0
    · rw [hne, zero_mul, zero_mul]
    · rw [h.activeLimit_eq (Finset.mem_range.1 hi) hne, Exact.value_finite]
  · by_cases hne : coord r.costs j = 0
    · rw [hne, zero_mul, zero_mul]
    · rw [h.activeBound_eq (Finset.mem_range.1 hj) hne, Exact.value_finite]

theorem dual_nonneg (h : r.Certifies p) {i : Nat} (hi : i < p.rows.length)
    (hupper : Scalar.isFinite (p.upperLimit i) = false) : 0 ≤ coord r.duals i := by
  by_contra hneg
  rw [(h.row_active i hi).2 (not_le.1 hneg), Exact.isFinite_finite] at hupper
  cases hupper

theorem dual_nonpos (h : r.Certifies p) {i : Nat} (hi : i < p.rows.length)
    (hlower : Scalar.isFinite (p.lowerLimit i) = false) : coord r.duals i ≤ 0 := by
  by_contra hpos
  rw [(h.row_active i hi).1 (not_le.1 hpos), Exact.isFinite_finite] at hlower
  cases hlower

/-- A certificate satisfies the optimality conditions. -/
theorem optimizes (h : r.Certifies p) (hwithin : ∀ r ∈ p.rows, r.Within p.cost.length) :
    r.Optimizes p where
  toCertifies := h
  reduced _ hj := h.reduced hwithin hj
  lower_only _ hi hupper := h.dual_nonneg hi hupper
  upper_only _ hi hlower := h.dual_nonpos hi hlower
  free _ hi hlower hupper := le_antisymm (h.dual_nonpos hi hlower) (h.dual_nonneg hi hupper)
  slack i hi hlower hupper := by
    by_contra hne
    rcases lt_or_gt_of_ne hne with hlt | hgt
    · exact hupper ((h.row_active i hi).2 hlt)
    · exact hlower ((h.row_active i hi).1 hgt)
  balance := h.balance

end SolveResult.Certifies

/-! ## Solving keeps programs and certificates -/

namespace LinearProgram

variable {p : LinearProgram (Exact F)} {params : Setting (Exact F)} {split : RowSplit (Exact F)}
  {effort : Effort (Exact F)}

/-- The program that is handed over has the feasible points of the program as it is read. -/
theorem feasible_handed_iff_asRead (h : p.accepted params = .ok (split, effort)) (v : Nat → F) :
    (split.handed p).Feasible v ↔ p.asRead.Feasible v := by
  have hchecked := (check_settles p).of_ok (accepted_ok h).1
  rw [split_of_accepted h]
  exact RowSplit.feasible_handed_iff p.sides_asRead hchecked.bounds_length.1
    hchecked.bounds_length.2 v

/-- An optimal point of the program that is handed over certifies the result. -/
theorem certifies_answer (hwithin : ∀ r ∈ p.rows, r.Within p.columns)
    (h : p.accepted params = .ok (split, effort)) {o : OptimalPoint (Exact F)}
    (ho : o.Certifies (split.handed p)) : (p.answer split (.optimal o)).Certifies p.asRead := by
  have hchecked := (check_settles p).of_ok (accepted_ok h).1
  have hsplit := split_of_accepted h
  subst hsplit
  exact certifies_withOptimum p.sides_asRead (fun r hr => hchecked.columns ▸ hwithin r hr)
    hchecked.bounds_length.1 hchecked.bounds_length.2 ho

variable {σ : Type} [Host σ (Exact F)]

/-- An accepted program is solved by one call of the engine, on a program with the feasible
points and the objective of the one that was given; and if the engine returns an optimal point
with marginals that satisfy the optimality conditions of what it was handed, then the point, the
duals and the reduced costs of the result satisfy those of what was given. -/
theorem solve_keeps_certificates (hwithin : ∀ r ∈ p.rows, r.Within p.columns)
    (h : p.accepted params = .ok (split, effort)) :
    (p.solve params : Act σ (Exact F) _) =
        p.answer split <$> Host.optimize (split.handed p) effort ∧
      (split.handed p).cost = p.cost ∧
      (∀ v, (split.handed p).Feasible v ↔ p.asRead.Feasible v) ∧
      ∀ o : OptimalPoint (Exact F), o.Certifies (split.handed p) →
        (p.answer split (.optimal o)).status = .optimal ∧
          (p.answer split (.optimal o)).point = o.point ∧
          (p.answer split (.optimal o)).Optimizes p.asRead := by
  have hchecked := (check_settles p).of_ok (accepted_ok h).1
  refine ⟨by rw [solve_eq, h], rfl, feasible_handed_iff_asRead h, fun o ho => ⟨rfl, rfl, ?_⟩⟩
  exact (certifies_answer hwithin h ho).optimizes fun r hr => hchecked.columns ▸ hwithin r hr

/-- A program with a range row and an equation given by two limits that differ slightly. -/
def rangeProgram : LinearProgram (Exact ℚ) where
  cost := [.finite 1, .finite (-1)]
  columns := 2
  rows := [[(0, .finite 1), (1, .finite 1)], [(0, .finite 1)]]
  rightHandSide := none
  lower := [.minusInfinity, .finite 0]
  upper := [.plusInfinity, .finite 10]
  limits := .between (some [.finite 1, .finite 2])
    (some [.finite 4, .finite (2 + 1 / 10 ^ 13)])

/-- The optimal point of `rangeProgram` with its marginals: the range row is at its upper
limit. -/
def rangeOptimum : OptimalPoint (Exact ℚ) where
  point := [.finite 2, .finite 2]
  value := .finite 0
  upperMarginals := [.finite (-1), .finite 0]
  equalMarginals := [.finite 2]
  lowerMarginals := [.finite 0, .finite 0]
  boundMarginals := [.finite 0, .finite 0]
  iterations := 2

/-- The second row of `rangeProgram` is an equation; the program is accepted, and its optimum
satisfies the optimality conditions. -/
theorem rangeProgram_keeps_certificates :
    rangeProgram.IsEquation 1 ∧ (∀ r ∈ rangeProgram.rows, r.Within rangeProgram.columns) ∧
      ∃ split effort, rangeProgram.accepted (.record []) = .ok (split, effort) ∧
        rangeOptimum.Certifies (split.handed rangeProgram) ∧
        (rangeProgram.answer split (.optimal rangeOptimum)).Optimizes rangeProgram.asRead := by
  have hwithin : ∀ r ∈ rangeProgram.rows, r.Within rangeProgram.columns := by
    unfold SparseRow.Within
    decide +kernel
  have haccepted : (rangeProgram.accepted (.record [])).toOption.any (fun a =>
      decide (rangeOptimum.Certifies (a.1.handed rangeProgram))) = true := by decide +kernel
  refine ⟨by decide +kernel, hwithin, ?_⟩
  cases h : rangeProgram.accepted (.record []) with
  | error f => rw [h] at haccepted; cases haccepted
  | ok a =>
    rw [h] at haccepted
    have hcertifies := of_decide_eq_true haccepted
    exact ⟨a.1, a.2, rfl, hcertifies, ((solve_keeps_certificates (σ := Transcript ℚ) hwithin
      h).2.2.2 rangeOptimum hcertifies).2.2⟩

end LinearProgram

end Recourse
