/-
  Proofs/Solver/Separation.lean --- an optimum of the deterministic equivalent, taken apart.

  The scenarios of a deterministic equivalent share nothing but the decision.  With the
  decision and the other scenarios left as they are, moving one scenario within the bounds
  of its columns costs at least what the duals of its rows charge for the move
  (`Program.charge_le_of_admits`).  So the part of an optimum that belongs to a scenario of
  positive weight is an optimum of its recourse at the decision, and the duals of its rows,
  divided by the weight, are optimal duals there (`Program.exists_recourse_certificate`).
-/
import Recourse.Proofs.Solver.Multipliers

set_option autoImplicit false
set_option linter.unusedSectionVars false

open scoped BigOperators

namespace Recourse

variable {F : Type} [Field F] [LinearOrder F] [IsStrictOrderedRing F] [FloorRing F] {σ : Type}

/-! ## Rows and columns of the scenarios -/

/-- Columns of a coherent model stand at positions there are. -/
theorem Model.Coherent.index_lt {m : Model (Exact F)} (hm : m.Coherent) {c : Variable (Exact F)}
    (hc : c ∈ m.columns) : c.index < m.columns.length := by
  obtain ⟨k, hk, rfl⟩ := List.getElem_of_mem hc
  rwa [hm.numbered k hk]

/-- A copied row has the limits of the row it is a copy of, and its number at the renumbered
point. -/
theorem Model.rowBand_copyRow {m m' : Model (Exact F)} (hm : m.Proper) (hm' : m'.Proper)
    (x x' : List (Exact F)) {columns : Nat → Nat} {mark : String} {index i k : Nat}
    (hk : k < m.rows.length)
    (hi : m'.rows[i]? = some (ExtensiveForm.copyRow columns mark index m.rows[k])) :
    (m'.formAt x').toProgram.lowerLimit i = (m.formAt x).toProgram.lowerLimit k ∧
      (m'.formAt x').toProgram.upperLimit i = (m.formAt x).toProgram.upperLimit k ∧
      ∀ v, (m'.formAt x').toProgram.rowAt i v =
        (m.formAt x).toProgram.rowAt k fun c => v (columns c) := by
  obtain ⟨hi', hrow⟩ := List.getElem?_eq_some_iff.1 hi
  have hlimits := (formAt_hasRelations m' x').limitsOf_eq hm'.isKnown
    ((length_rows_formAt m' x').symm ▸ hi')
  have hlimits' := (formAt_hasRelations m x).limitsOf_eq hm.isKnown
    ((length_rows_formAt m x).symm ▸ hk)
  rw [List.getD_eq_getElem _ _ (by simpa using hi'), List.getElem_map,
    List.getD_eq_getElem _ _ (by simpa using hi'), List.getElem_map, hrow] at hlimits
  rw [List.getD_eq_getElem _ _ (by simpa using hk), List.getElem_map,
    List.getD_eq_getElem _ _ (by simpa using hk), List.getElem_map] at hlimits'
  have hsame := hlimits.symm.trans hlimits'
  injection hsame with hsame
  injection hsame with hlower hupper
  refine ⟨hlower, hupper, fun v => ?_⟩
  rw [rowAt_formAt m' x' hi', rowAt_formAt m x hk, hrow]
  simp [ExtensiveForm.copyRow, ExtensiveForm.renumber, SparseRow.valueAt, List.map_map,
    Function.comp_def]

namespace ExtensiveForm

/-- The columns admit a point when those of the first stage do and those of every scenario
admit its part. -/
theorem admits_build_iff {master : Model (Exact F)} (hown : master.decisionCount = 0)
    {weight : Nat → F} {recourse : Nat → Model (Exact F)} {n : Nat}
    (hm : master.Coherent) (hsub : ∀ i < n, (recourse i).Coherent ∧
      (recourse i).decisionCount ≤ master.columns.length) (v : Nat → F) :
    let f := build master ((List.range n).map fun i => (.finite (weight i), recourse i))
    (∀ c ∈ f.model.columns, Model.Admits v c (v c.index)) ↔
      (∀ c ∈ master.columns, Model.Admits v c (v c.index)) ∧
        ∀ i < n, ∀ c ∈ (recourse i).columns, Model.Admits v c (f.part i v c.index) := by
  induction n with
  | zero =>
    have hcolumns := (layout_ofMaster hown recourse).leadingColumns
    rw [List.take_of_length_le (by simp [ofMaster])] at hcolumns
    show (∀ c ∈ (ofMaster master).model.columns, _) ↔ _
    rw [hcolumns]
    exact ⟨fun h => ⟨h, fun i hi => absurd hi (Nat.not_lt_zero i)⟩, And.left⟩
  | succ n ih =>
    have hsub' := fun i (hi : i < n) => hsub i (hi.trans n.lt_succ_self)
    have h := represents_build hm hown weight hsub'
    -- The last scenario reads the columns that were added for it, the others what they read before.
    have hlast := part_addScenario_self (.finite (weight n)) (recourse n) v
      (f := build master ((List.range n).map fun i => (.finite (weight i), recourse i)))
    rw [h.columns_length] at hlast
    have hnumbered := (hsub n n.lt_succ_self).1.numbered
    simp only at ih ⊢
    rw [build_succ, Nat.forall_lt_succ_right, hlast]
    simp only [addScenario]
    rw [List.forall_mem_append, ih hsub', admits_ownVariables_iff, and_assoc]
    refine and_congr_right fun _ => and_congr (forall₂_congr fun i hi => ?_) ?_
    · have hpart := part_addScenario_of_lt (.finite (weight n)) (recourse n)
        (h.columns_length.symm ▸ hi) v
      simp only [addScenario] at hpart
      rw [hpart]
    · constructor
      · intro hk c hc
        obtain ⟨k, hk', rfl⟩ := List.getElem_of_mem hc
        rw [hnumbered k hk']
        exact hk k hk'
      · intro hc k hk
        have hk' := hc _ (List.getElem_mem hk)
        rwa [hnumbered k hk] at hk'

/-- What is summed over all rows is summed over those of the first stage and then over those
of every scenario. -/
theorem Layout.sum_rows {f : ExtensiveForm (Exact F)} {master : Model (Exact F)} {n : Nat}
    {recourse : Nat → Model (Exact F)} (h : f.Layout master n recourse) (g : Nat → F) :
    ∑ j ∈ Finset.range f.model.rows.length, g j = (∑ j ∈ Finset.range master.rows.length, g j) +
      ∑ i ∈ Finset.range n, ((f.rows.getD i []).map g).sum := by
  have hscenarios : (f.rows.map fun js => (js.map g).sum).sum =
      ∑ i ∈ Finset.range n, ((f.rows.getD i []).map g).sum := by
    rw [← h.rows_length]
    exact sum_map_eq_sum_range _ _ _ fun i hi => by rw [List.getD_eq_getElem _ _ hi]
  rw [sum_range_eq_sum_map, sum_range_eq_sum_map, ← h.rows_flatten, List.map_append,
    List.sum_append, List.map_flatten, List.sum_flatten, List.map_map, ← hscenarios]
  rfl

end ExtensiveForm

namespace Program

variable {p : Program σ (Exact F)}

/-! ## Moving one scenario -/

/-- One scenario can be moved to any point that carries the same decision, and the decision
and the other scenarios stay. -/
theorem exists_moved (hp : p.Coherent) (u : Nat → F) {i : Nat} (hi : i < p.scenarioCount)
    {v : Nat → F} (hu : ∀ i < p.scenarioCount, ∀ c ∈ (p.recourse i).columns,
      Model.Admits u c (p.equivalent.part i u c.index))
    (hv : ∀ c ∈ (p.recourse i).columns, Model.Admits u c (v c.index)) :
    ∃ w, (∀ j < p.firstStage.columns.length, w j = u j) ∧
      ∀ l < p.scenarioCount, ∀ k < (p.recourse l).columns.length, p.equivalent.part l w k =
        Function.update (fun l => p.equivalent.part l u) i v l k := by
  refine (equivalent_represents hp).reached u _ fun l hl k hk j hj => ?_
  have hnumbered := (hp.second l hl).numbered k hk
  by_cases hli : l = i
  · subst hli
    have hadmits := hv _ (List.getElem_mem hk)
    rwa [Model.Admits, hj, hnumbered, ← Function.update_self l v fun l => p.equivalent.part l u]
      at hadmits
  · have hadmits := hu l hl _ (List.getElem_mem hk)
    rw [Function.update_of_ne hli]
    rwa [Model.Admits, hj, hnumbered] at hadmits

/-- The columns of the equivalent admit what the columns of the parts do. -/
theorem admits_equivalent_iff (hp : p.Coherent) (v : Nat → F) :
    (∀ c ∈ p.equivalent.model.columns, Model.Admits v c (v c.index)) ↔
      (∀ c ∈ p.firstStage.columns, Model.Admits v c (v c.index)) ∧
        ∀ i < p.scenarioCount, ∀ c ∈ (p.recourse i).columns,
          Model.Admits v c (p.equivalent.part i v c.index) := by
  rw [equivalent_eq hp]
  exact ExtensiveForm.admits_build_iff hp.own hp.first
    (fun i hi => ⟨hp.second i hi, hp.decisionCount_le hi⟩) v

/-- What a column admits depends on the decisions there are. -/
theorem Coherent.admits_congr (hp : p.Coherent) {i : Nat} (hi : i < p.scenarioCount)
    {x x' : Nat → F} (hx : ∀ j < p.firstStage.columns.length, x j = x' j)
    {c : Variable (Exact F)} (hc : c ∈ (p.recourse i).columns) {a : F}
    (h : Model.Admits x c a) : Model.Admits x' c a := by
  unfold Model.Admits at h ⊢
  cases hd : c.decision with
  | none => rwa [hd] at h
  | some j =>
    rw [hd] at h
    exact h.trans (hx j (((hp.second i hi).decision_lt hc hd).trans_le (hp.decisionCount_le hi)))

/-- A point with one scenario moved within the bounds of its columns keeps to the bounds of
all columns. -/
theorem admits_moved (hp : p.Proper) {i : Nat} {u v w : Nat → F}
    (hu : ∀ c ∈ p.equivalent.model.columns, Model.Admits u c (u c.index))
    (hv : ∀ c ∈ (p.recourse i).columns, Model.Admits u c (v c.index))
    (hdecision : ∀ j < p.firstStage.columns.length, w j = u j)
    (hparts : ∀ l < p.scenarioCount, ∀ k < (p.recourse l).columns.length,
      p.equivalent.part l w k = Function.update (fun l => p.equivalent.part l u) i v l k) :
    ∀ c ∈ p.equivalent.model.columns, Model.Admits w c (w c.index) := by
  obtain ⟨hfirst, hsecond⟩ := (admits_equivalent_iff hp.coherent u).1 hu
  refine (admits_equivalent_iff hp.coherent w).2 ⟨fun c hc => ?_, fun l hl c hc => ?_⟩
  · have hadmits := hfirst c hc
    rw [Model.Admits, ExtensiveForm.decision_eq_none hp.own c hc] at hadmits ⊢
    rwa [hdecision _ (hp.first.coherent.index_lt hc)]
  · refine hp.coherent.admits_congr hl (fun j hj => (hdecision j hj).symm) hc ?_
    rw [hparts l hl _ ((hp.coherent.second l hl).index_lt hc)]
    by_cases hli : l = i
    · subst hli
      rw [Function.update_self]
      exact hv c hc
    · rw [Function.update_of_ne hli]
      exact hsecond l hl c hc

/-! ## The rows of one scenario -/

/-- The matrix form of a recourse at a decision. -/
def recourseProgram (p : Program σ (Exact F)) (i : Nat) (x : List (Exact F)) :
    LinearProgram (Exact F) := ((p.recourse i).formAt x).toProgram

/-- The row of the equivalent that a row of a scenario became. -/
def rowOf (p : Program σ (Exact F)) (i k : Nat) : Nat := (p.equivalent.rows.getD i []).getD k 0

theorem length_rowsOf (hp : p.Coherent) {i : Nat} (hi : i < p.scenarioCount) :
    (p.equivalent.rows.getD i []).length = (p.recourse i).rows.length :=
  ((equivalent_layout hp).copied i hi).length_eq

/-- It says of a point of the equivalent what the row says of the scenario's part. -/
theorem rowOf_spec (hp : p.Proper) {i : Nat} (hi : i < p.scenarioCount) {k : Nat}
    (hk : k < (p.recourse i).rows.length) (x : List (Exact F)) :
    p.rowOf i k < p.equivalentProgram.rows.length ∧
      p.equivalentProgram.lowerLimit (p.rowOf i k) = (p.recourseProgram i x).lowerLimit k ∧
      p.equivalentProgram.upperLimit (p.rowOf i k) = (p.recourseProgram i x).upperLimit k ∧
      ∀ v, p.equivalentProgram.rowAt (p.rowOf i k) v =
        (p.recourseProgram i x).rowAt k (p.equivalent.part i v) := by
  have hk' : k < (p.equivalent.rows.getD i []).length := by rwa [length_rowsOf hp.coherent hi]
  have hcopied := ((equivalent_layout hp.coherent).copied i hi).get hk' hk
  rw [List.get_eq_getElem, List.get_eq_getElem, ← List.getD_eq_getElem _ 0 hk'] at hcopied
  refine ⟨?_, Model.rowBand_copyRow (hp.second i hi) (equivalent_proper hp) x [] hk hcopied⟩
  rw [equivalentProgram, Model.length_rows_formAt]
  exact (List.getElem?_eq_some_iff.1 hcopied).1

/-- What the rows of the equivalent say of a point where one scenario was moved, against the
point before. -/
theorem sum_rows_moved (hp : p.Proper) {i : Nat} (hi : i < p.scenarioCount) (x : List (Exact F))
    {u v w : Nat → F} (hdecision : ∀ j < p.firstStage.columns.length, w j = u j)
    (hparts : ∀ l < p.scenarioCount, ∀ k < (p.recourse l).columns.length,
      p.equivalent.part l w k = Function.update (fun l => p.equivalent.part l u) i v l k)
    (y : Nat → F) :
    ∑ j ∈ Finset.range p.equivalentProgram.rows.length,
        y j * (p.equivalentProgram.rowAt j w - p.equivalentProgram.rowAt j u) =
      ∑ k ∈ Finset.range (p.recourse i).rows.length, y (p.rowOf i k) *
        ((p.recourseProgram i x).rowAt k v -
          (p.recourseProgram i x).rowAt k (p.equivalent.part i u)) := by
  have hl := equivalent_layout hp.coherent
  have hfirst : ∀ j < p.firstStage.rows.length,
      p.equivalentProgram.rowAt j w = p.equivalentProgram.rowAt j u := by
    intro j hj
    have hslope : ∀ z, p.equivalentProgram.rowAt j z = p.firstProgram.rowAt j z := fun z =>
      congrArg (fun b : Band F => b.slope z)
        ((equivalentProgram_extends hp).row j (by simpa using hj))
    rw [hslope, hslope]
    refine SparseRow.valueAt_congr fun t ht => hdecision t.1 ?_
    have hwithin := SparseRow.within_getD (firstProgram_within hp) j t ht
    rwa [length_cost_firstProgram] at hwithin
  -- A row of a scenario depends on the part of the scenario.
  have hrow : ∀ l < p.scenarioCount, ∀ k < (p.recourse l).rows.length,
      p.equivalentProgram.rowAt (p.rowOf l k) w = (p.recourseProgram l x).rowAt k
        (Function.update (fun l => p.equivalent.part l u) i v l) := by
    intro l hlt k hk
    rw [(rowOf_spec hp hlt hk x).2.2.2]
    refine SparseRow.valueAt_congr fun t ht => hparts l hlt t.1 ?_
    have hwithin := SparseRow.within_getD (Model.formAt_regular (hp.second l hlt) x).within k t ht
    rwa [Model.length_cost_formAt] at hwithin
  have hscenario : ∀ l ∈ Finset.range p.scenarioCount,
      ((p.equivalent.rows.getD l []).map fun j => y j *
        (p.equivalentProgram.rowAt j w - p.equivalentProgram.rowAt j u)).sum =
      if l = i then ∑ k ∈ Finset.range (p.recourse i).rows.length, y (p.rowOf i k) *
        ((p.recourseProgram i x).rowAt k v -
          (p.recourseProgram i x).rowAt k (p.equivalent.part i u)) else 0 := by
    intro l hlt
    have hlt := Finset.mem_range.1 hlt
    rw [sum_map_eq_sum_range _ _ (fun k => y (p.rowOf l k) *
      (p.equivalentProgram.rowAt (p.rowOf l k) w - p.equivalentProgram.rowAt (p.rowOf l k) u))
      fun k hk => by rw [rowOf, List.getD_eq_getElem _ _ hk], length_rowsOf hp.coherent hlt]
    split
    · rename_i hli
      subst hli
      refine Finset.sum_congr rfl fun k hk => ?_
      have hk := Finset.mem_range.1 hk
      rw [hrow l hlt k hk, (rowOf_spec hp hlt hk x).2.2.2 u, Function.update_self]
    · rename_i hli
      refine Finset.sum_eq_zero fun k hk => ?_
      have hk := Finset.mem_range.1 hk
      rw [hrow l hlt k hk, (rowOf_spec hp hlt hk x).2.2.2 u, Function.update_of_ne hli, sub_self,
        mul_zero]
  have hlength : p.equivalentProgram.rows.length = p.equivalent.model.rows.length :=
    Model.length_rows_formAt _ _
  rw [hlength, hl.sum_rows, Finset.sum_congr rfl hscenario, Finset.sum_ite_eq',
    if_pos (Finset.mem_range.2 hi), Finset.sum_eq_zero fun j hj => by
      rw [hfirst j (Finset.mem_range.1 hj), sub_self, mul_zero], zero_add]

/-! ## The part of one scenario -/

/-- The point of a scenario in a point of the equivalent. -/
def pointOf (p : Program σ (Exact F)) (i : Nat) (v : List (Exact F)) : List (Exact F) :=
  ExtensiveState.pick v (p.equivalent.columns.getD i [])

/-- The duals of the rows of a scenario in duals of the equivalent, for a unit of its weight. -/
def dualsOf (p : Program σ (Exact F)) (i : Nat) (y : List (Exact F)) : List (Exact F) :=
  ((p.equivalent.rows.getD i []).map fun j => coord y j / p.weight i).map .finite

theorem length_pointOf (hp : p.Coherent) {i : Nat} (hi : i < p.scenarioCount)
    (v : List (Exact F)) : (p.pointOf i v).length = (p.recourse i).columns.length := by
  rw [pointOf, ExtensiveState.pick, List.length_map]
  exact (equivalent_represents hp).part_length i hi

theorem coord_pointOf (hp : p.Coherent) {i : Nat} (hi : i < p.scenarioCount) (v : List (Exact F))
    {k : Nat} (hk : k < (p.recourse i).columns.length) :
    coord (p.pointOf i v) k = p.equivalent.part i (coord v) k := by
  have hk' : k < (p.equivalent.columns.getD i []).length := by
    rwa [(equivalent_represents hp).part_length i hi]
  have hentry : (p.pointOf i v).getD k .undefined =
      v.getD ((p.equivalent.columns.getD i []).getD k 0) Scalar.undefined := by
    rw [pointOf, ExtensiveState.pick, List.getD_eq_getElem _ _ (by rwa [List.length_map]),
      List.getElem_map, List.getD_eq_getElem (p.equivalent.columns.getD i []) _ hk']
  rw [coord, hentry]
  rfl

theorem allFinite_pointOf (hp : p.Coherent) {i : Nat} (hi : i < p.scenarioCount)
    {v : List (Exact F)} (hv : AllFinite v) (hlength : v.length = p.equivalentProgram.cost.length) :
    AllFinite (p.pointOf i v) := by
  intro a ha
  obtain ⟨j, hj, rfl⟩ := List.mem_map.1 ha
  have hj' : j < v.length := by
    rw [hlength, equivalentProgram, Model.length_cost_formAt]
    exact (equivalent_represents hp).within i hi j hj
  rw [List.getD_eq_getElem _ _ hj']
  exact hv _ (List.getElem_mem hj')

theorem length_dualsOf (hp : p.Coherent) {i : Nat} (hi : i < p.scenarioCount)
    (y : List (Exact F)) : (p.dualsOf i y).length = (p.recourse i).rows.length := by
  rw [dualsOf, List.length_map, List.length_map, length_rowsOf hp hi]

theorem coord_dualsOf (hp : p.Coherent) {i : Nat} (hi : i < p.scenarioCount) (y : List (Exact F))
    {k : Nat} (hk : k < (p.recourse i).rows.length) :
    coord (p.dualsOf i y) k = coord y (p.rowOf i k) / p.weight i := by
  have hk' : k < (p.equivalent.rows.getD i []).length := by rwa [length_rowsOf hp hi]
  rw [dualsOf, coord_map_finite, List.getD_eq_getElem _ _ (by rwa [List.length_map]),
    List.getElem_map, rowOf, List.getD_eq_getElem _ _ hk']

/-! ## Optima -/

section Optimum

variable {r : SolveResult (Exact F)} (hr : r.Certifies p.equivalentProgram) (hp : p.Proper)

include hr hp

/-- The point of an optimum fits the equivalent. -/
theorem fits_of_certifies : p.equivalent.model.Fits (coord r.point) (coord r.point) :=
  (equivalent_represents hp.coherent).coherent.fits_congr
    (fun j hj => absurd hj (by
      rw [(equivalent_represents hp.coherent).own]
      exact Nat.not_lt_zero j))
    (fun _ _ => rfl) ((Model.feasible_formAt_iff (equivalent_proper hp)
      ⟨allFinite_nil, (equivalent_represents hp.coherent).own.le⟩ _).1 hr.feasible)

/-- Moving one scenario of an optimum within the bounds of its columns costs no less than what
the duals of its rows charge for the move. -/
theorem charge_le_of_admits (hs : p.Solvable) {i : Nat} (hi : i < p.scenarioCount)
    (x : List (Exact F)) {v : Nat → F}
    (hv : ∀ c ∈ (p.recourse i).columns, Model.Admits (coord r.point) c (v c.index)) :
    ∑ k ∈ Finset.range (p.recourse i).rows.length, coord r.duals (p.rowOf i k) *
        ((p.recourseProgram i x).rowAt k v -
          (p.recourseProgram i x).rowAt k (p.equivalent.part i (coord r.point))) ≤
      p.weight i * ((p.recourse i).lossAt v -
        (p.recourse i).lossAt (p.equivalent.part i (coord r.point))) := by
  have hproper := equivalent_proper hp
  have hown := (equivalent_represents hp.coherent).own
  have hfits := fits_of_certifies hr hp
  obtain ⟨hfirst, hsecond⟩ := (admits_equivalent_iff hp.coherent _).1 hfits.columns
  obtain ⟨w, hdecision, hparts⟩ := exists_moved hp.coherent (coord r.point) hi hsecond hv
  have hadmits := admits_moved hp hfits.columns hv hdecision hparts
  -- On the columns nothing is won: the move keeps their bounds, and the reduced costs charge it.
  have hcolumns : 0 ≤ ∑ j ∈ Finset.range p.equivalentProgram.cost.length,
      coord r.costs j * (w j - coord r.point j) := by
    refine Finset.sum_nonneg fun j hj => hr.charge_nonneg (Finset.mem_range.1 hj) ?_
    have hj : j < p.equivalent.model.columns.length :=
      (Model.length_cost_formAt p.equivalent.model []) ▸ Finset.mem_range.1 hj
    have hc := hadmits _ (List.getElem_mem hj)
    have hnone := ExtensiveForm.decision_eq_none hown _ (List.getElem_mem hj)
    rw [hproper.numbered j hj] at hc
    refine (Model.columnHolds_formAt_iff ⟨allFinite_nil, hown.le⟩ hj w).2 ?_
    rw [Model.Admits, hnone] at hc ⊢
    exact hc
  have hloss : p.equivalent.model.lossAt w = p.equivalent.model.lossAt (coord r.point) +
      p.weight i * ((p.recourse i).lossAt v -
        (p.recourse i).lossAt (p.equivalent.part i (coord r.point))) := by
    rw [← lossAt_equivalent hp.coherent, ← lossAt_equivalent hp.coherent, ← lossAt_update hs hi,
      lossAt, lossAt, valueAt_congr hp.coherent hdecision hparts]
  rw [← sum_rows_moved hp hi x hdecision hparts (coord r.duals)]
  calc ∑ j ∈ Finset.range p.equivalentProgram.rows.length, coord r.duals j *
          (p.equivalentProgram.rowAt j w - p.equivalentProgram.rowAt j (coord r.point))
      ≤ ∑ j ∈ Finset.range p.equivalentProgram.rows.length, coord r.duals j *
            (p.equivalentProgram.rowAt j w - p.equivalentProgram.rowAt j (coord r.point)) +
          ∑ j ∈ Finset.range p.equivalentProgram.cost.length,
            coord r.costs j * (w j - coord r.point j) := le_add_of_nonneg_right hcolumns
    _ = costAt p.equivalentProgram.cost w - costAt p.equivalentProgram.cost (coord r.point) := by
        rw [hr.cost_moved w]
        ring
    _ = p.weight i * ((p.recourse i).lossAt v -
          (p.recourse i).lossAt (p.equivalent.part i (coord r.point))) := by
        rw [equivalentProgram, Model.costAt_formAt hproper, Model.costAt_formAt hproper, hloss]
        ring

/-- The part of a scenario in the point of an optimum fits its recourse at the decision. -/
theorem fits_pointOf {i : Nat} (hi : i < p.scenarioCount) :
    (p.recourse i).Fits (coord (r.point.take p.firstStage.columns.length))
      (coord (p.pointOf i r.point)) := by
  have hfeasible := (feasible_of_equivalent hp.coherent (fits_of_certifies hr hp)).1
  refine (hp.second i hi).fits_congr (fun j hj => ?_) (fun k hk => ?_) (hfeasible.second i hi)
  · exact (coord_take (hj.trans_le (hp.coherent.decisionCount_le hi))).symm
  · exact (coord_pointOf hp.coherent hi _ hk).symm

/-- The decision in the point of an optimum suits every recourse. -/
theorem suits_take {i : Nat} (hi : i < p.scenarioCount) :
    (p.recourse i).Suits (r.point.take p.firstStage.columns.length) := by
  refine ⟨hr.point_finite.take _, ?_⟩
  have hwidth := (equivalent_represents hp.coherent).width
  rw [List.length_take, hr.point_length, equivalentProgram, Model.length_cost_formAt,
    min_eq_left hwidth]
  exact hp.coherent.decisionCount_le hi

/-- The duals of the rows of a scenario of positive weight are prices for its rows at its part
of the point. -/
theorem charges_dualsOf {i : Nat} (hi : i < p.scenarioCount) (hweight : 0 < p.weight i)
    (x : List (Exact F)) {k : Nat} (hk : k < (p.recourse i).rows.length) :
    ((p.recourseProgram i x).rowBand k).Charges (coord (p.pointOf i r.point))
      (coord (p.dualsOf i r.duals) k) := by
  obtain ⟨hrow, hlower, hupper, hvalue⟩ := rowOf_spec hp hi hk x
  have hsame : (p.recourseProgram i x).rowAt k (coord (p.pointOf i r.point)) =
      p.equivalentProgram.rowAt (p.rowOf i k) (coord r.point) := by
    rw [hvalue]
    refine SparseRow.valueAt_congr fun t ht => coord_pointOf hp.coherent hi _ ?_
    have hwithin := SparseRow.within_getD (Model.formAt_regular (hp.second i hi) x).within k t ht
    rwa [Model.length_cost_formAt] at hwithin
  obtain ⟨hpositive, hnegative⟩ := hr.row_active _ hrow
  rw [coord_dualsOf hp.coherent hi _ hk]
  constructor
  · intro hdual
    refine hlower.symm.trans ((hpositive ?_).trans (congrArg _ hsame.symm))
    exact (div_pos_iff_of_pos_right hweight).1 hdual
  · intro hdual
    refine hupper.symm.trans ((hnegative ?_).trans (congrArg _ hsame.symm))
    simpa using (div_lt_iff₀ hweight).1 hdual

/-- What the duals leave of the cost of a scenario of positive weight is least at its part of
the point, among all points within the bounds of its columns. -/
theorem residual_pointOf_le (hs : p.Solvable) {i : Nat} (hi : i < p.scenarioCount)
    (hweight : 0 < p.weight i) {v : Nat → F}
    (hv : ∀ j < (p.recourse i).columns.length, (p.recourseProgram i
      (r.point.take p.firstStage.columns.length)).ColumnHolds j v) :
    (p.recourseProgram i (r.point.take p.firstStage.columns.length)).residual
        (p.dualsOf i r.duals) [] (coord (p.pointOf i r.point)) ≤
      (p.recourseProgram i (r.point.take p.firstStage.columns.length)).residual
        (p.dualsOf i r.duals) [] v := by
  set x := r.point.take p.firstStage.columns.length with hx
  have hadmits : ∀ c ∈ (p.recourse i).columns, Model.Admits (coord r.point) c (v c.index) := by
    intro c hc
    obtain ⟨j, hj, rfl⟩ := List.getElem_of_mem hc
    rw [(hp.second i hi).numbered j hj]
    exact hp.coherent.admits_congr hi (fun j hj => coord_take hj) hc
      ((Model.columnHolds_formAt_iff (suits_take hr hp hi) hj v).1 (hv j hj))
  have hcharge := charge_le_of_admits hr hp hs hi x hadmits
  have hpart : ∀ k < (p.recourse i).columns.length,
      coord (p.pointOf i r.point) k = p.equivalent.part i (coord r.point) k := fun k hk =>
    coord_pointOf hp.coherent hi _ hk
  -- The duals were divided by the weight; times the weight they are those of the equivalent again.
  have hresidual : ∀ z, p.weight i * (p.recourseProgram i x).residual (p.dualsOf i r.duals) [] z =
      p.weight i * ((p.recourse i).lossAt z -
        (p.recourse i).goal.factor * (p.recourse i).objective.constant.value) -
        ∑ k ∈ Finset.range (p.recourse i).rows.length,
          coord r.duals (p.rowOf i k) * (p.recourseProgram i x).rowAt k z := by
    intro z
    have hsum : ∑ k ∈ Finset.range (p.recourse i).rows.length,
        coord r.duals (p.rowOf i k) * (p.recourseProgram i x).rowAt k z =
          p.weight i * (p.recourseProgram i x).charge (p.dualsOf i r.duals) [] z := by
      rw [LinearProgram.charge, length_dualsOf hp.coherent hi, List.length_nil,
        Finset.range_zero, Finset.sum_empty, add_zero, Finset.mul_sum]
      refine Finset.sum_congr rfl fun k hk => ?_
      rw [coord_dualsOf hp.coherent hi _ (Finset.mem_range.1 hk), ← mul_assoc,
        mul_div_cancel₀ _ hweight.ne']
    rw [LinearProgram.residual, mul_sub, ← hsum, recourseProgram,
      Model.costAt_formAt (hp.second i hi)]
  refine le_of_mul_le_mul_left ?_ hweight
  have hloss : (p.recourse i).lossAt (coord (p.pointOf i r.point)) =
      (p.recourse i).lossAt (p.equivalent.part i (coord r.point)) := by
    rw [Model.lossAt, Model.lossAt, (hp.second i hi).coherent.objectiveAt_congr hpart]
  have hrows : ∀ k, (p.recourseProgram i x).rowAt k (coord (p.pointOf i r.point)) =
      (p.recourseProgram i x).rowAt k (p.equivalent.part i (coord r.point)) := fun k => by
    refine SparseRow.valueAt_congr fun t ht => hpart t.1 ?_
    have hwithin := SparseRow.within_getD (Model.formAt_regular (hp.second i hi) x).within k t ht
    rwa [Model.length_cost_formAt] at hwithin
  simp only [mul_sub, Finset.sum_sub_distrib] at hcharge
  rw [hresidual, hresidual, hloss, Finset.sum_congr rfl fun k _ => by rw [hrows k]]
  linarith

/-- An optimum of the equivalent holds one of every recourse of positive weight, at the
decision, with the duals for a unit of weight. -/
theorem exists_recourse_certificate (hs : p.Solvable) {i : Nat} (hi : i < p.scenarioCount)
    (hweight : 0 < p.weight i) : ∃ a : SolveResult (Exact F), a.status = .optimal ∧
      a.Certifies (p.recourseProgram i (r.point.take p.firstStage.columns.length)) ∧
      a.point = p.pointOf i r.point ∧ a.duals = p.dualsOf i r.duals := by
  have hsuits := suits_take hr hp hi
  have hlength := length_dualsOf hp.coherent hi r.duals
  have hcost : (p.recourseProgram i (r.point.take p.firstStage.columns.length)).cost.length =
      (p.recourse i).columns.length := Model.length_cost_formAt _ _
  have hrows : (p.recourseProgram i (r.point.take p.firstStage.columns.length)).rows.length =
      (p.recourse i).rows.length := Model.length_rows_formAt _ _
  obtain ⟨a, hstatus, hcertifies, hpoint, hduals, -⟩ := LinearProgram.exists_certificate
    (p := p.recourseProgram i (r.point.take p.firstStage.columns.length)) (d := [])
    (allFinite_pointOf hp.coherent hi hr.point_finite hr.point_length)
    ((length_pointOf hp.coherent hi _).trans hcost.symm)
    ((Model.feasible_formAt_iff (hp.second i hi) hsuits _).2 (fits_pointOf hr hp hi))
    ⟨(hlength.trans hrows.symm).le, Nat.zero_le _, allFinite_map_finite _, allFinite_nil,
      fun k hk => charges_dualsOf hr hp hi hweight _ (hlength ▸ hk),
      fun j hj => absurd hj (Nat.not_lt_zero j)⟩
    fun v hv => residual_pointOf_le hr hp hs hi hweight fun j hj =>
      hv.columns j (hcost.symm ▸ hj) (Nat.zero_le _)
  refine ⟨a, hstatus, hcertifies, hpoint, ?_⟩
  rwa [hlength, ← hrows, ← hcertifies.duals_length, List.take_length] at hduals

end Optimum

end Program

end Recourse
