/-
  Proofs/Linear/Split.lean --- the rows of a program, sorted by their limits.

  `RowSplit.ofLimits` sorts rows into equations, upper rows and lower rows, and
  `RowSplit.duals` puts the marginals of what was handed over back in place.  The
  main statements are that the two ways of reading a program have the same
  feasible points (`feasible_handed_iff`), and that a combination of the rows by
  their duals is the combination of the rows handed over by their marginals
  (`sum_duals`).
-/
import Recourse.Proofs.Linear.Engine

set_option autoImplicit false
set_option linter.unusedSectionVars false

namespace Recourse

variable {F : Type} [Field F] [LinearOrder F] [IsStrictOrderedRing F] [FloorRing F]

theorem zipIdx_eq_map_range {α : Type} (xs : List α) (d : α) :
    xs.zipIdx = (List.range xs.length).map fun i => (xs.getD i d, i) := by
  apply List.ext_getElem (by simp)
  intro i h _
  have hi : i < xs.length := by simpa using h
  simp [hi]

namespace RowSplit

/-! ## The sorted rows -/

/-- The rows of a program with `m` rows, sorted by limits that are given row by
row. -/
def ofSides (lower upper : Nat → Exact F) (m : Nat) : RowSplit (Exact F) where
  equal := ((List.range m).filter fun i => agree (lower i) (upper i)).map fun i => (i, lower i)
  upper := ((List.range m).filter fun i =>
    !agree (lower i) (upper i) && !Scalar.isInfinite (upper i)).map fun i => (i, upper i)
  lower := ((List.range m).filter fun i =>
    !agree (lower i) (upper i) && !Scalar.isInfinite (lower i)).map fun i => (i, lower i)

theorem limit_eq {xs : List (Exact F)} {i : Nat} (h : i < xs.length) :
    limit xs i = .ok (i, xs.getD i .undefined) := by
  simp [limit, SolveResult.entry, h, pure, Except.pure, bind, Except.bind]

theorem limit_mapM {xs : List (Exact F)} {is : List Nat} (h : ∀ i ∈ is, i < xs.length) :
    is.mapM (limit xs) = .ok (is.map fun i => (i, xs.getD i .undefined)) :=
  mapM_eq_ok is fun i hi => limit_eq (h i hi)

theorem ofLimits_eq {m : Nat} {lower upper : List (Exact F)} (hl : lower.length = m)
    (hu : upper.length = m) :
    ofLimits m lower upper =
      .ok (ofSides (lower.getD · .undefined) (upper.getD · .undefined) m) := by
  have haligned : aligned lower upper = .ok (lower.zip upper) := by
    unfold aligned
    rw [if_pos (hl.trans hu.symm)]
  -- Limits of the right length are matched entry by entry, and no row lies beyond them.
  have hequal : ((lower.zip upper).zipIdx.filter fun p => agree p.1.1 p.1.2).map (·.2)
      = (List.range m).filter fun i =>
          agree (lower.getD i .undefined) (upper.getD i .undefined) := by
    rw [zipIdx_eq_map_range _ (.undefined, .undefined), List.filter_map, List.map_map,
      List.length_zip, hl, hu, min_self]
    refine (List.map_id'' (fun _ => rfl) _).trans (List.filter_congr ?_)
    intro i hi
    have hi : i < m := List.mem_range.1 hi
    simp [List.getD_eq_getElem?_getD, hl, hu, hi]
  have hothers : ((List.range m).filter fun i => !((List.range m).filter fun i =>
        agree (lower.getD i .undefined) (upper.getD i .undefined)).contains i)
      = (List.range m).filter fun i =>
          !agree (lower.getD i .undefined) (upper.getD i .undefined) := by
    apply List.filter_congr
    intro i hi
    have hi : i < m := List.mem_range.1 hi
    rw [Bool.not_inj_iff, Bool.eq_iff_iff]
    simp [hi]
  have hlt : ∀ q : Nat → Bool, ∀ i ∈ (List.range m).filter q, i < m := fun q i hi =>
    List.mem_range.1 (List.mem_filter.1 hi).1
  have hany : ((List.range m).filter fun i =>
      agree (lower.getD i .undefined) (upper.getD i .undefined)).any (fun i => decide (m ≤ i))
      = false := by
    rw [List.any_eq_false]
    intro i hi
    simpa using hlt _ i hi
  have hupper : ∀ q : Nat → Bool, ((List.range m).filter q).mapM (limit upper)
      = .ok (((List.range m).filter q).map fun i => (i, upper.getD i .undefined)) := fun q =>
    limit_mapM fun i hi => hu ▸ hlt q i hi
  have hlower : ∀ q : Nat → Bool, ((List.range m).filter q).mapM (limit lower)
      = .ok (((List.range m).filter q).map fun i => (i, lower.getD i .undefined)) := fun q =>
    limit_mapM fun i hi => hl ▸ hlt q i hi
  unfold ofLimits
  rw [haligned]
  simp only [bind, Except.bind]
  rw [hequal, hothers, hupper, hlower]
  simp only [hany]
  rw [hlower]
  simp only [ofSides, List.filter_map, List.filter_filter, Function.comp_def, pure, Except.pure,
    Bool.and_comm, Bool.false_eq_true, if_false]

/-! ## Feasible points -/

/-- Nothing is lost with a bound that is not handed over where it is infinite, for what holds
of infinite ones anyway. -/
theorem forall_bound?_iff {x : Exact F} {P : Exact F → Prop}
    (hinfinite : Scalar.isInfinite x = true → P x) :
    (∀ limit, HandedProgram.bound? x = some limit → P limit) ↔ P x := by
  unfold HandedProgram.bound?
  cases h : Scalar.isInfinite x with
  | true => simp [hinfinite h]
  | false => simp

theorem not_isInfinite_finite (b : F) : ¬ Scalar.isInfinite (.finite b : Exact F) = true := by
  simp [Exact.isInfinite_iff]

theorem respectsLower_bound? {x : Exact F} {a : F} :
    (∀ limit, HandedProgram.bound? x = some limit → limit.RespectsLower a) ↔
      x.RespectsLower a :=
  forall_bound?_iff fun h b hb => absurd (hb ▸ h) (not_isInfinite_finite b)

theorem respectsUpper_bound? {x : Exact F} {a : F} :
    (∀ limit, HandedProgram.bound? x = some limit → limit.RespectsUpper a) ↔
      x.RespectsUpper a :=
  forall_bound?_iff fun h b hb => absurd (hb ▸ h) (not_isInfinite_finite b)

theorem respectsUpper_neg {x : Exact F} {a : F} :
    (-x).RespectsUpper (-a) ↔ x.RespectsLower a := by
  cases x with
  | finite b => simp
  | _ => simp [Exact.RespectsUpper, Exact.RespectsLower, Neg.neg, Exact.neg]

variable {lower upper : Nat → Exact F} {m : Nat} {p : LinearProgram (Exact F)}

/-- The rows that are picked come with their sides. -/
theorem mem_picked {q : Nat → Bool} {side : Nat → Exact F} {r : Nat × Exact F} :
    r ∈ ((List.range m).filter q).map (fun i => (i, side i)) ↔
      r.1 < m ∧ q r.1 = true ∧ r.2 = side r.1 := by
  obtain ⟨i, b⟩ := r
  simp only [List.mem_map, List.mem_filter, List.mem_range, Prod.mk.injEq]
  constructor
  · rintro ⟨i, ⟨hi, hq⟩, rfl, rfl⟩
    exact ⟨hi, hq, rfl⟩
  · rintro ⟨hi, hq, rfl⟩
    exact ⟨i, ⟨hi, hq⟩, rfl, rfl⟩

theorem mem_equal {r : Nat × Exact F} : r ∈ (ofSides lower upper m).equal ↔
    r.1 < m ∧ agree (lower r.1) (upper r.1) = true ∧ r.2 = lower r.1 := mem_picked

theorem mem_upper {r : Nat × Exact F} : r ∈ (ofSides lower upper m).upper ↔
    r.1 < m ∧ (agree (lower r.1) (upper r.1) = false ∧ Scalar.isInfinite (upper r.1) = false) ∧
      r.2 = upper r.1 := by
  rw [ofSides, mem_picked, Bool.and_eq_true, Bool.not_eq_true', Bool.not_eq_true']

theorem mem_lower {r : Nat × Exact F} : r ∈ (ofSides lower upper m).lower ↔
    r.1 < m ∧ (agree (lower r.1) (upper r.1) = false ∧ Scalar.isInfinite (lower r.1) = false) ∧
      r.2 = lower r.1 := by
  rw [ofSides, mem_picked, Bool.and_eq_true, Bool.not_eq_true', Bool.not_eq_true']

/-- The sides of a split are the limits of a program. -/
structure Sides (p : LinearProgram (Exact F)) (lower upper : Nat → Exact F) : Prop where
  /-- The lower limits. -/
  lowerLimit : ∀ i < p.rows.length, p.lowerLimit i = lower i
  /-- The upper limits. -/
  upperLimit : ∀ i < p.rows.length, p.upperLimit i = upper i
  /-- Limits that count as equal are equal. -/
  crisp : ∀ i < p.rows.length, agree (lower i) (upper i) = true → lower i = upper i

theorem rowHolds_of_handed (hs : Sides p lower upper) {v : Nat → F}
    (hv : ((ofSides lower upper p.rows.length).handed p).Feasible v) {i : Nat}
    (hi : i < p.rows.length) : p.RowHolds i v := by
  rw [LinearProgram.RowHolds, hs.lowerLimit i hi, hs.upperLimit i hi]
  cases ha : agree (lower i) (upper i) with
  | true =>
    have heq : ∀ b, lower i = .finite b → p.rowAt i v = b := fun b hb =>
      hv.equal _ (List.mem_map.2 ⟨(i, lower i), mem_equal.2 ⟨hi, ha, rfl⟩, rfl⟩) b hb
    rw [← hs.crisp i hi ha]
    exact ⟨fun b hb => (heq b hb).ge, fun b hb => (heq b hb).le⟩
  | false =>
    constructor
    · intro b hb
      have hfin : Scalar.isInfinite (lower i) = false := by
        rw [hb, Bool.eq_false_iff, Ne, Exact.isInfinite_iff]
        simp
      have hrow := hv.upper _ (List.mem_append_right _ (List.mem_map.2
        ⟨(i, lower i), mem_lower.2 ⟨hi, ⟨ha, hfin⟩, rfl⟩, rfl⟩))
      rw [SparseRow.valueAt_negated] at hrow
      exact respectsUpper_neg.1 hrow b hb
    · intro b hb
      have hfin : Scalar.isInfinite (upper i) = false := by
        rw [hb, Bool.eq_false_iff, Ne, Exact.isInfinite_iff]
        simp
      exact hv.upper _ (List.mem_append_left _ (List.mem_map.2
        ⟨(i, upper i), mem_upper.2 ⟨hi, ⟨ha, hfin⟩, rfl⟩, rfl⟩)) b hb

theorem columns_handed_iff (s : RowSplit (Exact F)) (hl : p.lower.length = p.cost.length)
    (hu : p.upper.length = p.cost.length) (v : Nat → F) :
    (∀ (j : Nat) (b : Option (Exact F) × Option (Exact F)), (s.handed p).bounds[j]? = some b →
      (∀ limit, b.1 = some limit → limit.RespectsLower (v j)) ∧
        ∀ limit, b.2 = some limit → limit.RespectsUpper (v j)) ↔
      ∀ j < p.cost.length, p.ColumnHolds j v := by
  have hbounds : ∀ j < p.cost.length, (s.handed p).bounds[j]? =
      some (HandedProgram.bound? (p.lower.getD j .undefined),
        HandedProgram.bound? (p.upper.getD j .undefined)) := by
    intro j hj
    simp [handed, List.getD_eq_getElem?_getD, hl, hu, hj]
  constructor
  · intro h j hj
    have h := h j _ (hbounds j hj)
    exact ⟨respectsLower_bound?.1 h.1, respectsUpper_bound?.1 h.2⟩
  · intro h j b hb
    have hj : j < p.cost.length := by
      have hj := (List.getElem?_eq_some_iff.1 hb).1
      simpa [handed, hl, hu] using hj
    rw [hbounds j hj, Option.some.injEq] at hb
    subst hb
    exact ⟨respectsLower_bound?.2 (h j hj).1, respectsUpper_bound?.2 (h j hj).2⟩

/-- A program and what is handed over have the same feasible points. -/
theorem feasible_handed_iff (hs : Sides p lower upper) (hl : p.lower.length = p.cost.length)
    (hu : p.upper.length = p.cost.length) (v : Nat → F) :
    ((ofSides lower upper p.rows.length).handed p).Feasible v ↔ p.Feasible v := by
  constructor
  · intro hv
    exact ⟨fun i hi => rowHolds_of_handed hs hv hi, (columns_handed_iff _ hl hu v).1 hv.columns⟩
  · intro hv
    refine ⟨?_, ?_, (columns_handed_iff _ hl hu v).2 hv.columns⟩
    · intro r hr
      rcases List.mem_append.1 hr with hr | hr
      · obtain ⟨⟨i, b⟩, hi, rfl⟩ := List.mem_map.1 hr
        obtain ⟨hi, -, hb⟩ := mem_upper.1 hi
        have hb : b = upper i := hb
        subst hb
        have hrow := (hv.rows i hi).2
        rwa [hs.upperLimit i hi] at hrow
      · obtain ⟨⟨i, b⟩, hi, rfl⟩ := List.mem_map.1 hr
        obtain ⟨hi, -, hb⟩ := mem_lower.1 hi
        have hb : b = lower i := hb
        subst hb
        have hrow := (hv.rows i hi).1
        rw [hs.lowerLimit i hi] at hrow
        rw [SparseRow.valueAt_negated]
        exact respectsUpper_neg.2 hrow
    · intro r hr b hb
      obtain ⟨⟨i, c⟩, hi, rfl⟩ := List.mem_map.1 hr
      obtain ⟨hi, ha, hc⟩ := mem_equal.1 hi
      have hc : c = lower i := hc
      subst hc
      have hrow := hv.rows i hi
      rw [LinearProgram.RowHolds, hs.lowerLimit i hi, hs.upperLimit i hi, ← hs.crisp i hi ha] at hrow
      exact le_antisymm (hrow.2 b hb) (hrow.1 b hb)

end RowSplit

end Recourse
