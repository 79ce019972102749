/-
  Proofs/LShaped/Master.lean --- what the master problem means.

  A point of the master problem is a decision followed by the recourse variables.  It
  is feasible when the decision satisfies the first stage, recourse variables without a
  cut are zero, and every cut holds (`feasible_freeMaster_iff`); in a box the decision
  keeps to the box as well.  A feasible plan gives such a point of the same loss, so the
  master problem bounds the program from below (`masterPoint_feasible`).
-/
import Recourse.Proofs.Solver.Cut

set_option autoImplicit false
set_option linter.unusedSectionVars false

open scoped BigOperators

namespace Recourse

variable {F : Type} [Field F] [LinearOrder F] [IsStrictOrderedRing F] [FloorRing F]

/-! ## Dense rows -/

/-- Leaving out zeros changes nothing. -/
theorem SparseRow.valueAt_ofDense (xs : List (Exact F)) (v : Nat → F) :
    SparseRow.valueAt (SparseRow.ofDense xs) v = costAt xs v := by
  have hfilter : ∀ ts : List (Nat × Exact F),
      SparseRow.valueAt (ts.filter fun t => !Scalar.isZero t.2) v = SparseRow.valueAt ts v := by
    intro ts
    induction ts with
    | nil => rfl
    | cons t ts ih =>
      rw [List.filter_cons]
      by_cases hzero : Scalar.isZero t.2 = true
      · have hvalue : t.2.value = 0 := by
          cases ht : t.2 with
          | finite a => simpa [ht] using hzero
          | _ => rfl
        simp [hzero, ih, hvalue]
      · simp [hzero, ih]
  rw [SparseRow.ofDense, hfilter, costAt_eq_sum, SparseRow.valueAt, List.map_map,
    zipIdx_eq_map_range xs .undefined, List.map_map]
  rfl

theorem SparseRow.within_ofDense (xs : List (Exact F)) :
    (SparseRow.ofDense xs).Within xs.length := by
  intro t ht
  obtain ⟨a, ha, rfl⟩ := List.mem_map.1 (List.mem_filter.1 ht).1
  exact (List.mem_zipIdx' ha).1

namespace LShaped

variable {σ : Type}

/-! ## Groups of scenarios -/

/-- Number of recourse variables. -/
def groupCount (multicut : Bool) (count : Nat) : Nat := if multicut then count else 1

/-- The scenarios of a recourse variable. -/
def groupScenarios (multicut : Bool) (count g : Nat) : List Nat :=
  if multicut then [g] else List.range count

theorem mem_groupScenarios {multicut : Bool} {count g i : Nat} (hg : g < groupCount multicut count)
    (hi : i ∈ groupScenarios multicut count g) : i < count := by
  cases multicut with
  | true => rw [List.mem_singleton.1 hi]; exact hg
  | false => exact List.mem_range.1 hi

/-- The groups cover every scenario once. -/
theorem sum_shareAt (p : Program σ (Exact F)) (multicut : Bool) (y : Nat → Nat → F) :
    ∑ g ∈ Finset.range (groupCount multicut p.scenarioCount),
        p.shareAt (groupScenarios multicut p.scenarioCount g) y =
      ∑ i ∈ Finset.range p.scenarioCount, p.weight i * (p.recourse i).lossAt (y i) := by
  cases multicut with
  | true => exact Finset.sum_congr rfl fun g _ => by simp [groupScenarios, Program.shareAt]
  | false =>
    simp only [groupCount, groupScenarios, Bool.false_eq_true, if_false, Finset.sum_range_one]
    rfl

/-- A cut stands in the master problem as it should: an optimality cut at its recourse
variable, which is active, a feasibility cut at none. -/
def AddedCut.Valid (c : AddedCut (Exact F)) (p : Program σ (Exact F)) (multicut : Bool)
    (active : List Bool) : Prop :=
  (∃ g < groupCount multicut p.scenarioCount, c.group = some g ∧ active.getD g false = true ∧
      c.cut.Supports p (groupScenarios multicut p.scenarioCount g)) ∨
    (c.group = none ∧ ∃ i < p.scenarioCount, c.cut.Separates p i)

theorem AddedCut.Valid.shaped {c : AddedCut (Exact F)} {p : Program σ (Exact F)} {multicut : Bool}
    {active : List Bool} (h : c.Valid p multicut active) :
    c.cut.Shaped p.firstStage.columns.length := by
  rcases h with ⟨g, -, -, -, hcut⟩ | ⟨-, i, -, hcut⟩
  · exact hcut.shaped
  · exact hcut.shaped

namespace State

/-- A state belongs to a program: the first stage is that of the program, and every cut
is valid. -/
structure Framed (s : State (Exact F)) (p : Program σ (Exact F)) (multicut : Bool) : Prop where
  /-- The first stage is that of the program. -/
  first : s.first = (p.firstStage.formAt []).minimized
  /-- The sign is that of its objective. -/
  sign : s.sign = p.firstStage.goal.sign
  /-- There is one recourse variable per group. -/
  groups : s.active.length = groupCount multicut p.scenarioCount
  /-- Every cut is valid. -/
  cuts : ∀ c ∈ s.cuts, c.Valid p multicut s.active
  /-- Every active recourse variable has a cut. -/
  covered : ∀ g, s.active.getD g false = true → ∃ c ∈ s.cuts, c.group = some g

/-- A point of the master problem respects a cut. -/
def CutHolds (s : State (Exact F)) (c : AddedCut (Exact F)) (v : Nat → F) : Prop :=
  match c.group with
  | some g => c.cut.valueAt v ≤ v (s.firstColumns + g)
  | none => c.cut.valueAt v ≤ 0

/-- Recourse variables without a cut are zero, and every cut holds. -/
structure RecourseHolds (s : State (Exact F)) (v : Nat → F) : Prop where
  /-- Recourse variables without a cut. -/
  inactive : ∀ g < s.active.length, s.active.getD g false = false → v (s.firstColumns + g) = 0
  /-- Cuts. -/
  cuts : ∀ c ∈ s.cuts, s.CutHolds c v

variable {s : State (Exact F)} {p : Program σ (Exact F)} {multicut : Bool}

/-! ## The parts of the master problem -/

section Parts

variable (h : s.Framed p multicut)

include h

theorem Framed.firstColumns_eq : s.firstColumns = p.firstStage.columns.length := by
  rw [firstColumns, h.first]
  simp [StandardForm.columns, StandardForm.minimized, Model.formAt, Scalar.scale]

theorem Framed.length_cost : s.first.cost.length = p.firstStage.columns.length :=
  h.firstColumns_eq

theorem Framed.length_bounds : s.first.lower.length = p.firstStage.columns.length ∧
    s.first.upper.length = p.firstStage.columns.length := by
  rw [h.first]
  simp [StandardForm.minimized, Model.formAt]

theorem Framed.length_rows : s.first.rows.length = p.firstStage.rows.length := by
  rw [h.first]
  simp [StandardForm.minimized, Model.formAt]

theorem Framed.relations_eq : s.first.relations = p.firstStage.rows.map (·.relation) := by
  rw [h.first]
  rfl

theorem Framed.rightHandSide_eq :
    s.first.rightHandSide = p.firstStage.rows.map fun r => r.bound - r.expr.constant := by
  rw [h.first]
  rfl

/-- The cost of the first stage, with its constant, is its loss. -/
theorem Framed.loss_first (hp : p.Proper) (v : Nat → F) :
    Scalar.isFinite s.first.constant = true ∧
      costAt s.first.cost v + s.first.constant.value = p.firstStage.lossAt v := by
  have hcost : s.first.cost = (p.firstStage.formAt []).toProgram.cost := by
    rw [h.first]
    rfl
  have hconstant : s.first.constant =
      .finite (p.firstStage.goal.factor * p.firstStage.objective.constant.value) := by
    have hsign : s.first.constant =
        p.firstStage.goal.sign * p.firstStage.objective.constant := by
      rw [h.first]
      rfl
    rw [hsign, Goal.sign_eq, ← Exact.finite_value hp.first.objective.constant]
    rfl
  rw [hconstant, hcost, Model.costAt_formAt hp.first]
  exact ⟨Exact.isFinite_finite _, by rw [Exact.value_finite]; ring⟩

theorem Framed.allFinite_cost (hp : p.Proper) : AllFinite s.first.cost := by
  rw [h.first]
  simp only [StandardForm.minimized, StandardForm.sign]
  rw [Goal.sign_eq]
  exact (Model.allFinite_cost hp.first []).scale _

end Parts

section Master

variable (h : s.Framed p multicut) (lower upper : List (Exact F))

include h

theorem Framed.length_masterCost :
    s.masterCost.length = p.firstStage.columns.length + s.active.length := by
  rw [masterCost, List.length_append, List.length_map, h.length_cost]

theorem Framed.master_hasRelations : (s.master lower upper).HasRelations
    (s.first.relations ++ s.cuts.map fun _ => .atMost)
    (s.first.rightHandSide ++ s.cuts.map cutBound) where
  limits := rfl
  rightHandSide := rfl
  relations_length := by simp [master, h.relations_eq, h.length_rows]
  rightHandSide_length := by simp [master, h.rightHandSide_eq, h.length_rows]

theorem Framed.isKnown (hp : p.Proper) :
    ∀ r ∈ s.first.relations ++ s.cuts.map fun _ => Relation.atMost, r.IsKnown := by
  intro r hr
  rcases List.mem_append.1 hr with hr | hr
  · rw [h.relations_eq] at hr
    exact hp.first.isKnown r hr
  · obtain ⟨c, -, rfl⟩ := List.mem_map.1 hr
    simp [Relation.IsKnown, Relation.text]

theorem Framed.length_cutRow {c : AddedCut (Exact F)} (hc : c ∈ s.cuts) :
    (s.cutRow c).length = p.firstStage.columns.length + s.active.length := by
  simp [cutRow, (h.cuts c hc).shaped.gradient_length]

/-- The master problem is a regular program. -/
theorem Framed.master_regular (hp : p.Proper) : (s.master lower upper).Regular := by
  refine (h.master_hasRelations lower upper).regular ?_
  intro r hr
  have hcost : (s.master lower upper).cost.length =
      p.firstStage.columns.length + s.active.length := h.length_masterCost
  rw [hcost]
  rcases List.mem_append.1 hr with hr | hr
  · have hrows : s.first.rows = p.firstStage.rows.map (·.expr.terms) := by
      rw [h.first]
      rfl
    rw [hrows] at hr
    obtain ⟨row, hrow, rfl⟩ := List.mem_map.1 hr
    intro t ht
    exact ((hp.first.rows row hrow).within t ht).trans_le (Nat.le_add_right _ _)
  · obtain ⟨c, hc, rfl⟩ := List.mem_map.1 hr
    rw [← h.length_cutRow hc]
    exact SparseRow.within_ofDense _

/-- A row of the first stage holds in the master problem as it does in the model. -/
theorem Framed.rowHolds_first (hp : p.Proper) {i : Nat} (hi : i < p.firstStage.rows.length)
    (v : Nat → F) : (s.master lower upper).RowHolds i v ↔ p.firstStage.rows[i].Holds v := by
  have hlength : i < s.first.rows.length := h.length_rows ▸ hi
  refine Model.rowHolds_iff_holds (h.master_hasRelations lower upper) (h.isKnown hp) ?_ ?_ ?_ ?_
  · rw [master, List.length_append]
    exact hlength.trans_le (Nat.le_add_right _ _)
  · have hrow : (s.master lower upper).rows.getD i [] = p.firstStage.rows[i].expr.terms := by
      rw [master, List.getD_append _ _ _ _ hlength, h.first]
      simp [StandardForm.minimized, Model.formAt, List.getD_eq_getElem?_getD, hi]
    rw [LinearProgram.rowAt, hrow]
  · rw [List.getD_append _ _ _ _ (by rw [h.relations_eq, List.length_map]; exact hi),
      h.relations_eq]
    simp [List.getD_eq_getElem?_getD, hi]
  · rw [List.getD_append _ _ _ _ (by rw [h.rightHandSide_eq, List.length_map]; exact hi),
      h.rightHandSide_eq]
    simp [List.getD_eq_getElem?_getD, hi, Row.side]

/-- The row of a cut at a point: slope times decision, less the recourse variable. -/
theorem Framed.costAt_cutRow {c : AddedCut (Exact F)} (hc : c ∈ s.cuts) (v : Nat → F) :
    costAt (s.cutRow c) v = costAt c.cut.gradient v -
      match c.group with
      | some g => v (s.firstColumns + g)
      | none => 0 := by
  have hcut := h.cuts c hc
  rw [cutRow, costAt_append, sub_eq_add_neg, hcut.shaped.gradient_length, ← h.firstColumns_eq,
    zipIdx_eq_map_range s.active false, List.map_map]
  refine congrArg _ ?_
  have hentry : ∀ j < s.active.length, coord ((List.range s.active.length).map
      ((fun a : Bool × Nat => if c.group = some a.2 then (-1 : Exact F) else 0) ∘
        fun i => (s.active.getD i false, i))) j = if c.group = some j then -1 else 0 := by
    intro j hj
    rw [coord, List.getD_eq_getElem _ _ (by simpa using hj), List.getElem_map, List.getElem_range,
      Function.comp_apply]
    split <;> rfl
  rw [costAt, List.length_map, List.length_range]
  calc _ = ∑ j ∈ Finset.range s.active.length,
        (if c.group = some j then -1 else 0) * v (s.firstColumns + j) :=
        Finset.sum_congr rfl fun j hj => by rw [hentry j (Finset.mem_range.1 hj)]
    _ = _ := by
      rcases hcut with ⟨g, hg, hgroup, -⟩ | ⟨hgroup, -⟩
      · rw [hgroup]
        simp only [Option.some.injEq, ite_mul, neg_one_mul, zero_mul]
        rw [Finset.sum_ite_eq, if_pos (Finset.mem_range.2 (h.groups ▸ hg))]
      · rw [hgroup]
        simp

/-- A cut holds where its row is at most its bound. -/
theorem Framed.costAt_cutRow_le_iff {c : AddedCut (Exact F)} (hc : c ∈ s.cuts) (v : Nat → F) :
    costAt (s.cutRow c) v ≤ -c.cut.valueAt (fun _ => 0) ↔ s.CutHolds c v := by
  have hvalue := c.cut.valueAt_eq v
  rw [h.costAt_cutRow hc, CutHolds]
  cases c.group with
  | some g => simp only; constructor <;> intro hle <;> linarith
  | none => simp only; constructor <;> intro hle <;> linarith

/-- The row of a cut holds where the cut does. -/
theorem Framed.rowHolds_cut (hp : p.Proper) {k : Nat} (hk : k < s.cuts.length) (v : Nat → F) :
    (s.master lower upper).RowHolds (s.first.rows.length + k) v ↔ s.CutHolds s.cuts[k] v := by
  have hmem : s.cuts[k] ∈ s.cuts := List.getElem_mem hk
  have hlength : s.first.rows.length + k < (s.master lower upper).rows.length := by
    rw [master, List.length_append, List.length_map]
    omega
  have hrow : (s.master lower upper).rowAt (s.first.rows.length + k) v =
      costAt (s.cutRow s.cuts[k]) v := by
    rw [LinearProgram.rowAt, master, List.getD_append_right _ _ _ _ (Nat.le_add_right _ _),
      Nat.add_sub_cancel_left, List.getD_eq_getElem _ _ (by simpa using hk), List.getElem_map,
      SparseRow.valueAt_ofDense]
  have hrelation : (s.first.relations ++ s.cuts.map fun _ => Relation.atMost).getD
      (s.first.rows.length + k) .equal = .atMost := by
    have hle : s.first.relations.length = s.first.rows.length := by
      rw [h.relations_eq, List.length_map, h.length_rows]
    rw [List.getD_append_right _ _ _ _ (by omega), hle, Nat.add_sub_cancel_left,
      List.getD_eq_getElem _ _ (by simpa using hk), List.getElem_map]
  have hbound : (s.first.rightHandSide ++ s.cuts.map cutBound).getD
      (s.first.rows.length + k) .undefined =
        .finite (-s.cuts[k].cut.valueAt fun _ => 0) := by
    have hle : s.first.rightHandSide.length = s.first.rows.length := by
      rw [h.rightHandSide_eq, List.length_map, h.length_rows]
    rw [List.getD_append_right _ _ _ _ (by omega), hle, Nat.add_sub_cancel_left,
      List.getD_eq_getElem _ _ (by simpa using hk), List.getElem_map, cutBound,
      Cut.constant_eq (h.cuts _ hmem).shaped, Exact.neg_finite]
  have hholds : ∀ a b : F, Relation.atMost.Holds a (.finite b) ↔ a ≤ b := fun a b => by
    simp [Relation.Holds, Relation.text]
  rw [(h.master_hasRelations lower upper).rowHolds_iff (h.isKnown hp) hlength, hrow, hrelation,
    hbound, hholds, h.costAt_cutRow_le_iff hmem]

end Master

/-! ## Feasible points -/

section Feasible

variable (h : s.Framed p multicut) {lower upper : List (Exact F)}
  (hlower : lower.length = p.firstStage.columns.length)
  (hupper : upper.length = p.firstStage.columns.length)

include h hlower hupper

/-- The bounds of a decision in the master problem. -/
theorem Framed.columnHolds_decision {j : Nat} (hj : j < p.firstStage.columns.length)
    (v : Nat → F) : (s.master lower upper).ColumnHolds j v ↔
      (lower.getD j .undefined).RespectsLower (v j) ∧
        (upper.getD j .undefined).RespectsUpper (v j) := by
  rw [LinearProgram.ColumnHolds, master, List.getD_append _ _ _ _ (hlower ▸ hj),
    List.getD_append _ _ _ _ (hupper ▸ hj)]

/-- The bounds of a recourse variable in the master problem. -/
theorem Framed.columnHolds_recourse {g : Nat} (hg : g < s.active.length) (v : Nat → F) :
    (s.master lower upper).ColumnHolds (p.firstStage.columns.length + g) v ↔
      (s.active.getD g false = false → v (p.firstStage.columns.length + g) = 0) := by
  have hactive : s.active.getD g false = s.active[g] := List.getD_eq_getElem _ _ hg
  rw [LinearProgram.ColumnHolds, master, recourseLower, recourseUpper,
    List.getD_append_right _ _ _ _ (by omega), List.getD_append_right _ _ _ _ (by omega), hlower,
    hupper, Nat.add_sub_cancel_left, List.getD_eq_getElem _ _ (by simpa using hg),
    List.getD_eq_getElem _ _ (by simpa using hg), List.getElem_map, List.getElem_map, hactive]
  cases s.active[g] with
  | true => simp [Exact.RespectsLower, Exact.RespectsUpper]
  | false =>
    simp only [Bool.false_eq_true, if_false, Exact.zero_eq, Exact.respectsLower_finite,
      Exact.respectsUpper_finite, true_implies]
    exact ⟨fun hv => le_antisymm hv.2 hv.1, fun hv => ⟨hv.ge, hv.le⟩⟩

/-- The feasible points of the master problem with some bounds on the decision. -/
theorem Framed.feasible_master_iff (hp : p.Proper) (v : Nat → F) :
    (s.master lower upper).Feasible v ↔ (∀ r ∈ p.firstStage.rows, r.Holds v) ∧
      (∀ j < p.firstStage.columns.length, (lower.getD j .undefined).RespectsLower (v j) ∧
        (upper.getD j .undefined).RespectsUpper (v j)) ∧ s.RecourseHolds v := by
  have hrows : (s.master lower upper).rows.length = s.first.rows.length + s.cuts.length := by
    simp [master]
  have hcost : (s.master lower upper).cost.length =
      p.firstStage.columns.length + s.active.length := h.length_masterCost
  have hn := h.firstColumns_eq
  -- The rows are those of the first stage with the cuts behind them, the columns those of the
  -- decision with the recourse variables behind them; each half has its own lemma.
  constructor
  · intro hv
    refine ⟨?_, ?_, ?_, ?_⟩
    · intro r hr
      obtain ⟨i, hi, rfl⟩ := List.getElem_of_mem hr
      exact (h.rowHolds_first lower upper hp hi v).1 (hv.rows i (by rw [hrows, h.length_rows]; omega))
    · intro j hj
      exact (h.columnHolds_decision hlower hupper hj v).1 (hv.columns j (by omega))
    · intro g hg
      rw [hn]
      exact (h.columnHolds_recourse hlower hupper hg v).1 (hv.columns _ (by omega))
    · intro c hc
      obtain ⟨k, hk, rfl⟩ := List.getElem_of_mem hc
      exact (h.rowHolds_cut lower upper hp hk v).1 (hv.rows _ (by omega))
  · rintro ⟨hfirst, hcolumns, hinactive, hcuts⟩
    constructor
    · intro i hi
      by_cases hfirstRow : i < s.first.rows.length
      · have hi : i < p.firstStage.rows.length := h.length_rows ▸ hfirstRow
        exact (h.rowHolds_first lower upper hp hi v).2 (hfirst _ (List.getElem_mem hi))
      · obtain ⟨k, rfl⟩ := Nat.exists_eq_add_of_le (not_lt.1 hfirstRow)
        have hk : k < s.cuts.length := by omega
        exact (h.rowHolds_cut lower upper hp hk v).2 (hcuts _ (List.getElem_mem hk))
    · intro j hj
      by_cases hdecision : j < p.firstStage.columns.length
      · exact (h.columnHolds_decision hlower hupper hdecision v).2 (hcolumns j hdecision)
      · obtain ⟨g, rfl⟩ := Nat.exists_eq_add_of_le (not_lt.1 hdecision)
        have hg : g < s.active.length := by omega
        refine (h.columnHolds_recourse hlower hupper hg v).2 ?_
        rw [← hn]
        exact hinactive g hg

end Feasible

/-- The bounds of a first-stage column. -/
theorem Framed.bounds_first (h : s.Framed p multicut) (hp : p.Proper) {j : Nat}
    (hj : j < p.firstStage.columns.length) :
    s.first.lower.getD j .undefined = p.firstStage.columns[j].lower ∧
      s.first.upper.getD j .undefined = p.firstStage.columns[j].upper := by
  have hown : p.firstStage.columns[j].decision = none := by
    cases hd : p.firstStage.columns[j].decision with
    | none => rfl
    | some k =>
      have hk := hp.first.decision_lt (List.getElem_mem hj) hd
      rw [hp.own] at hk
      omega
  rw [h.first]
  simp [StandardForm.minimized, Model.formAt, List.getD_eq_getElem?_getD, hj, Model.boundsAt, hown]

/-- A decision keeps to the bounds of the first stage. -/
theorem Framed.columns_iff (h : s.Framed p multicut) (hp : p.Proper) (v : Nat → F) :
    (∀ j < p.firstStage.columns.length,
        (s.first.lower.getD j .undefined).RespectsLower (v j) ∧
          (s.first.upper.getD j .undefined).RespectsUpper (v j)) ↔
      ∀ c ∈ p.firstStage.columns, Model.Admits v c (v c.index) := by
  have hadmits : ∀ j (hj : j < p.firstStage.columns.length),
      Model.Admits v p.firstStage.columns[j] (v p.firstStage.columns[j].index) ↔
        (s.first.lower.getD j .undefined).RespectsLower (v j) ∧
          (s.first.upper.getD j .undefined).RespectsUpper (v j) := by
    intro j hj
    rw [(h.bounds_first hp hj).1, (h.bounds_first hp hj).2, hp.first.numbered j hj, Model.Admits]
    cases hd : p.firstStage.columns[j].decision with
    | none => rfl
    | some k =>
      have hk := hp.first.decision_lt (List.getElem_mem hj) hd
      rw [hp.own] at hk
      omega
  constructor
  · intro hv c hc
    obtain ⟨j, hj, rfl⟩ := List.getElem_of_mem hc
    exact (hadmits j hj).2 (hv j hj)
  · intro hv j hj
    exact (hadmits j hj).1 (hv _ (List.getElem_mem hj))

/-- The feasible points of the master problem: the decision fits the first stage, and
the recourse variables respect the cuts. -/
theorem Framed.feasible_freeMaster_iff (h : s.Framed p multicut) (hp : p.Proper) (v : Nat → F) :
    s.freeMaster.Feasible v ↔ p.firstStage.Fits v v ∧ s.RecourseHolds v := by
  rw [freeMaster, h.feasible_master_iff h.length_bounds.1 h.length_bounds.2 hp,
    h.columns_iff hp]
  exact ⟨fun hv => ⟨⟨hv.1, hv.2.1⟩, hv.2.2⟩, fun hv => ⟨hv.1.rows, hv.1.columns, hv.2⟩⟩

/-! ## The box -/

theorem respectsLower_maximum {lower bound : Exact F} (hbound : Scalar.less 0 bound = true) {a : F}
    (ha : (Scalar.maximum lower (-bound)).RespectsLower a) : lower.RespectsLower a := by
  rintro l rfl
  cases bound with
  | finite b =>
    have hmax : Scalar.maximum (.finite l) (-Exact.finite b) = .finite (max l (-b)) := by
      simp [Scalar.maximum, Scalar.isUndefined, Scalar.same, Exact.eq]
    rw [hmax, Exact.respectsLower_finite] at ha
    exact (le_max_left _ _).trans ha
  | plusInfinity =>
    have hmax : Scalar.maximum (.finite l) (-(Exact.plusInfinity : Exact F)) = .finite l := by
      simp [Scalar.maximum, Scalar.isUndefined, Scalar.same, Exact.eq, Scalar.larger, Scalar.less,
        Exact.lt, Neg.neg, Exact.neg]
    rw [hmax, Exact.respectsLower_finite] at ha
    exact ha
  | minusInfinity => simp [Scalar.less, Exact.lt] at hbound
  | undefined => simp [Scalar.less, Exact.lt] at hbound

theorem respectsUpper_minimum {upper bound : Exact F} (hbound : Scalar.less 0 bound = true) {a : F}
    (ha : (Scalar.minimum upper bound).RespectsUpper a) : upper.RespectsUpper a := by
  rintro u rfl
  cases bound with
  | finite b =>
    have hmin : Scalar.minimum (.finite u) (Exact.finite b) = .finite (min u b) := by
      simp [Scalar.minimum, Scalar.isUndefined, Scalar.same, Exact.eq]
    rw [hmin, Exact.respectsUpper_finite] at ha
    exact ha.trans (min_le_left _ _)
  | plusInfinity =>
    have hmin : Scalar.minimum (.finite u) (Exact.plusInfinity : Exact F) = .finite u := by
      simp [Scalar.minimum, Scalar.isUndefined, Scalar.same, Exact.eq, Scalar.smaller, Scalar.less,
        Exact.lt]
    rw [hmin, Exact.respectsUpper_finite] at ha
    exact ha
  | minusInfinity => simp [Scalar.less, Exact.lt] at hbound
  | undefined => simp [Scalar.less, Exact.lt] at hbound

/-- Every point of the boxed master problem is one of the master problem. -/
theorem Framed.feasible_of_boxed (h : s.Framed p multicut) (hp : p.Proper) {bound : Exact F}
    (hbound : Scalar.less 0 bound = true) {v : Nat → F}
    (hv : (s.boxedMaster bound).Feasible v) : s.freeMaster.Feasible v := by
  have hlength := h.length_bounds
  rw [boxedMaster, h.feasible_master_iff (by simp [hlength.1]) (by simp [hlength.2]) hp] at hv
  obtain ⟨hrows, hcolumns, hrecourse⟩ := hv
  rw [freeMaster, h.feasible_master_iff hlength.1 hlength.2 hp]
  refine ⟨hrows, ?_, hrecourse⟩
  intro j hj
  have hbox := hcolumns j hj
  have hlower : j < s.first.lower.length := hlength.1 ▸ hj
  have hupper : j < s.first.upper.length := hlength.2 ▸ hj
  simp only [List.getD_eq_getElem?_getD, List.getElem?_map, List.getElem?_eq_getElem hlower,
    List.getElem?_eq_getElem hupper, Option.map_some, Option.getD_some] at hbox ⊢
  exact ⟨respectsLower_maximum hbound hbox.1, respectsUpper_minimum hbound hbox.2⟩

/-! ## Costs and bounds -/

/-- The cost of a point: the loss of the decision and the recourse variables. -/
theorem costAt_masterCost (s : State (Exact F)) (v : Nat → F) :
    costAt s.masterCost v = costAt s.first.cost v +
      ∑ g ∈ Finset.range s.active.length, v (s.firstColumns + g) := by
  rw [masterCost, costAt_append]
  refine congrArg _ ?_
  rw [costAt, List.length_map]
  apply Finset.sum_congr rfl
  intro g hg
  have hone : coord (s.active.map fun _ => (1 : Exact F)) g = 1 := by
    rw [coord, List.getD_eq_getElem _ _ (by simpa using hg), List.getElem_map]
    rfl
  rw [hone, one_mul]
  rfl

/-- The point of the master problem for a plan: an active recourse variable is the loss
of its scenarios. -/
def masterPoint (s : State (Exact F)) (p : Program σ (Exact F)) (multicut : Bool) (x : Nat → F)
    (y : Nat → Nat → F) (k : Nat) : F :=
  if k < s.firstColumns then x k
  else if s.active.getD (k - s.firstColumns) false then
    p.shareAt (groupScenarios multicut p.scenarioCount (k - s.firstColumns)) y
  else 0

theorem masterPoint_decision (x : Nat → F) (y : Nat → Nat → F) {k : Nat}
    (hk : k < s.firstColumns) : s.masterPoint p multicut x y k = x k := if_pos hk

theorem masterPoint_recourse (x : Nat → F) (y : Nat → Nat → F) (g : Nat) :
    s.masterPoint p multicut x y (s.firstColumns + g) = if s.active.getD g false then
      p.shareAt (groupScenarios multicut p.scenarioCount g) y else 0 := by
  rw [masterPoint, if_neg (not_lt.2 (Nat.le_add_right _ _)), Nat.add_sub_cancel_left]

theorem Cut.Shaped.valueAt_congr {c : Cut (Exact F)} {n : Nat} (h : c.Shaped n) {u v : Nat → F}
    (huv : ∀ j < n, u j = v j) : c.valueAt u = c.valueAt v := by
  rw [Cut.valueAt, Cut.valueAt]
  refine congrArg _ (costAt_congr ?_)
  intro j hj
  rw [huv j (h.gradient_length ▸ hj)]

/-- A feasible plan gives a point that respects the cuts. -/
theorem Framed.recourseHolds_masterPoint (h : s.Framed p multicut) {x : Nat → F}
    {y : Nat → Nat → F} (hy : ∀ i < p.scenarioCount, (p.recourse i).Fits x (y i)) :
    s.RecourseHolds (s.masterPoint p multicut x y) := by
  have hdecision : ∀ c : Cut (Exact F), c.Shaped p.firstStage.columns.length →
      c.valueAt (s.masterPoint p multicut x y) = c.valueAt x := fun c hc =>
    Cut.Shaped.valueAt_congr hc fun j hj =>
      masterPoint_decision x y (h.firstColumns_eq.symm ▸ hj)
  constructor
  · intro g _ hg
    rw [masterPoint_recourse, hg]
    rfl
  · intro c hc
    have hvalid := h.cuts c hc
    rw [CutHolds, hdecision _ hvalid.shaped]
    rcases hvalid with ⟨g, hg, hgroup, hactive, hcut⟩ | ⟨hgroup, i, hi, hcut⟩
    · rw [hgroup]
      simp only
      rw [masterPoint_recourse, if_pos hactive]
      exact hcut.below x y fun i hi => hy i (mem_groupScenarios hg hi)
    · rw [hgroup]
      exact hcut.below x (y i) (hy i hi)

/-- A feasible plan gives a feasible point of the master problem. -/
theorem Framed.masterPoint_feasible (h : s.Framed p multicut) (hp : p.Proper) {x : Nat → F}
    {y : Nat → Nat → F} (hxy : p.Feasible x y) :
    s.freeMaster.Feasible (s.masterPoint p multicut x y) := by
  refine (h.feasible_freeMaster_iff hp _).2 ⟨?_, h.recourseHolds_masterPoint hxy.second⟩
  refine hp.fits_congr ?_ hxy.first
  intro j hj
  exact (masterPoint_decision x y (h.firstColumns_eq.symm ▸ hj)).symm

theorem getD_of_allActive (h : s.allActive = true) {g : Nat} (hg : g < s.active.length) :
    s.active.getD g false = true := by
  rw [List.getD_eq_getElem _ _ hg]
  exact List.all_eq_true.1 h _ (List.getElem_mem hg)

/-- When every recourse variable is active, the point of a plan costs its loss. -/
theorem Framed.costAt_masterPoint (h : s.Framed p multicut) (hp : p.Proper) (hs : p.Solvable)
    (hactive : s.allActive = true) (x : Nat → F) (y : Nat → Nat → F) :
    costAt s.masterCost (s.masterPoint p multicut x y) + s.first.constant.value =
      p.lossAt x y := by
  have hfirst : costAt s.first.cost (s.masterPoint p multicut x y) = costAt s.first.cost x :=
    costAt_congr fun j hj => masterPoint_decision x y hj
  have hrecourse : ∑ g ∈ Finset.range s.active.length,
      s.masterPoint p multicut x y (s.firstColumns + g) =
        ∑ i ∈ Finset.range p.scenarioCount, p.weight i * (p.recourse i).lossAt (y i) := by
    rw [← sum_shareAt p multicut y, h.groups]
    apply Finset.sum_congr rfl
    intro g hg
    have hg : g < s.active.length := h.groups.symm ▸ Finset.mem_range.1 hg
    rw [masterPoint_recourse, if_pos (getD_of_allActive hactive hg)]
  rw [costAt_masterCost, hfirst, hrecourse, hs.lossAt_eq, ← (h.loss_first hp x).2]
  ring

end State

end LShaped

end Recourse
