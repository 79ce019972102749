/-
  Proofs/Solver/Equivalent.lean --- the deterministic equivalent and its index maps.

  The rows and columns of a deterministic equivalent are those of the first stage, and
  behind them the ones each scenario brings (`ExtensiveForm.Layout`, kept by every
  scenario that is added).  Its columns are the decision and what the index maps of the
  scenarios reach, so a point of it is the same as a decision with a point for every
  scenario: splitting a point through the index maps is a bijection from the points that
  fit onto the feasible families, and it keeps the objective (`ExtensiveForm.Matches`).
-/
import Recourse.Proofs.Solver.Extensive
import Mathlib.Data.Rat.Floor
import Mathlib.Data.Set.Function

set_option autoImplicit false
set_option linter.unusedSectionVars false

open scoped BigOperators

namespace Recourse

variable {F : Type} [Field F] [LinearOrder F] [IsStrictOrderedRing F] [FloorRing F]

/-! ## Points and families of points as lists -/

/-- The entry of a point for a column, zero behind the last one. -/
def entry (v : List F) (j : Nat) : F := v.getD j 0

theorem entry_take {v : List F} {n j : Nat} (hj : j < n) : entry (v.take n) j = entry v j := by
  rw [entry, entry, List.getD_eq_getElem?_getD, List.getD_eq_getElem?_getD,
    List.getElem?_take_of_lt hj]

theorem entry_map (v : List F) {js : List Nat} {k : Nat} (hk : k < js.length) :
    entry (js.map (entry v)) k = entry v (js.getD k 0) := by
  rw [entry, List.getD_eq_getElem _ _ (by rwa [List.length_map]), List.getElem_map,
    List.getD_eq_getElem _ _ hk]

theorem entry_map_range (v : Nat → F) {n j : Nat} (hj : j < n) :
    entry ((List.range n).map v) j = v j := by
  rw [entry, List.getD_eq_getElem _ _ (by simpa using hj), List.getElem_map, List.getElem_range]

/-- Points of one length are the same when their entries are. -/
theorem eq_of_entry {v w : List F} (hlength : v.length = w.length)
    (h : ∀ j < w.length, entry v j = entry w j) : v = w := by
  apply List.ext_getElem hlength
  intro j hv hw
  have hj := h j hw
  rwa [entry, entry, List.getD_eq_getElem _ _ hv, List.getD_eq_getElem _ _ hw] at hj

/-- A decision with a point for every scenario. -/
@[ext]
structure Family (F : Type) where
  /-- One entry per first-stage column. -/
  decision : List F
  /-- For every scenario, one entry per column of its model. -/
  points : List (List F)

namespace Family

variable {σ : Type}

/-- The point for a scenario. -/
def point (family : Family F) (i : Nat) : Nat → F := entry (family.points.getD i [])

/-- A family has an entry for every column of a program and no others. -/
structure Shaped (family : Family F) (p : Program σ (Exact F)) : Prop where
  /-- One entry per first-stage column. -/
  decision : family.decision.length = p.firstStage.columns.length
  /-- One entry per column of each recourse. -/
  points : family.points.map (·.length) =
    (List.range p.scenarioCount).map fun i => (p.recourse i).columns.length

/-- A family has the shape of a program and is feasible for it: the decision fits the first
stage, and every point fits its recourse at the decision. -/
structure Fits (family : Family F) (p : Program σ (Exact F)) : Prop extends family.Shaped p where
  /-- It is feasible. -/
  feasible : p.Feasible (entry family.decision) family.point

/-- The value of a family. -/
def value (family : Family F) (p : Program σ (Exact F)) : F :=
  p.valueAt (entry family.decision) family.point

theorem Shaped.points_length {family : Family F} {p : Program σ (Exact F)} (h : family.Shaped p) :
    family.points.length = p.scenarioCount := by
  simpa using congrArg List.length h.points

theorem Shaped.point_length {family : Family F} {p : Program σ (Exact F)} (h : family.Shaped p)
    {i : Nat} (hi : i < p.scenarioCount) :
    (family.points.getD i []).length = (p.recourse i).columns.length := by
  have hi' : i < family.points.length := h.points_length.symm ▸ hi
  have hget := congrArg (fun lengths => lengths[i]?) h.points
  simp only [List.getElem?_map, List.getElem?_range hi, List.getElem?_eq_getElem hi',
    Option.map_some, Option.some.injEq] at hget
  rwa [List.getD_eq_getElem _ _ hi']

/-- Plans of one shape are the same when their entries are. -/
theorem Shaped.ext {a b : Family F} {p : Program σ (Exact F)} (ha : a.Shaped p) (hb : b.Shaped p)
    (hdecision : ∀ j < p.firstStage.columns.length, entry a.decision j = entry b.decision j)
    (hpoint : ∀ i < p.scenarioCount, ∀ k < (p.recourse i).columns.length,
      a.point i k = b.point i k) : a = b := by
  refine Family.ext (eq_of_entry (ha.decision.trans hb.decision.symm) ?_) ?_
  · rw [hb.decision]
    exact hdecision
  · refine List.ext_getElem (ha.points_length.trans hb.points_length.symm) ?_
    intro i hi hi'
    have hcount : i < p.scenarioCount := hb.points_length ▸ hi'
    have hlength := ha.point_length hcount
    have hlength' := hb.point_length hcount
    have hentries := hpoint i hcount
    rw [← hlength'] at hentries
    rw [List.getD_eq_getElem _ _ hi] at hlength
    rw [List.getD_eq_getElem _ _ hi'] at hlength' hentries
    refine eq_of_entry (hlength.trans hlength'.symm) fun k hk => ?_
    have hk := hentries k hk
    rwa [point, point, List.getD_eq_getElem _ _ hi, List.getD_eq_getElem _ _ hi'] at hk

end Family

namespace ExtensiveForm

/-- The columns that the variables of a scenario have. -/
def column (f : ExtensiveForm (Exact F)) (i k : Nat) : Nat := (f.columns.getD i []).getD k 0

/-- The family a point of the deterministic equivalent stands for: the leading entries are
the decision, and the index maps pick the points of the scenarios. -/
def split (f : ExtensiveForm (Exact F)) (v : List F) : Family F :=
  { decision := v.take f.firstColumns, points := f.columns.map (·.map (entry v)) }

/-- The points that fit the deterministic equivalent. -/
def Points (f : ExtensiveForm (Exact F)) : Set (List F) :=
  {v | v.length = f.model.columns.length ∧ f.model.Fits (entry v) (entry v)}

/-! ## Layout -/

/-- Every column that one more scenario brings belongs to one of its variables. -/
theorem mem_columnsOf_of_own {K : Type} (mark : String) {next j : Nat} {vs : List (Variable K)}
    (hle : next ≤ j) (hlt : j < next + (ownVariables mark next vs).length) :
    j ∈ columnsOf next vs := by
  induction vs generalizing next with
  | nil => exact absurd hlt (not_lt.2 hle)
  | cons v rest ih =>
    unfold ownVariables at hlt
    unfold columnsOf
    cases hv : v.decision with
    | some i =>
      rw [hv] at hlt
      exact List.mem_cons_of_mem _ (ih hle hlt)
    | none =>
      rw [hv] at hlt
      simp only [List.length_cons] at hlt
      rcases hle.eq_or_lt with rfl | hle
      · exact List.mem_cons_self
      · exact List.mem_cons_of_mem _ (ih hle (by omega))

/-- How the rows and columns of the deterministic equivalent of a first stage and of the
first `n` of some second stages are laid out. -/
structure Layout (f : ExtensiveForm (Exact F)) (master : Model (Exact F)) (n : Nat)
    (recourse : Nat → Model (Exact F)) : Prop where
  /-- It knows the number of first-stage columns. -/
  firstColumns : f.firstColumns = master.columns.length
  /-- It knows the number of first-stage rows. -/
  firstRows : f.firstRows = master.rows.length
  /-- The first-stage columns come first, in order. -/
  leadingColumns : f.model.columns.take master.columns.length = master.columns
  /-- Copies of the first-stage rows come first, in order. -/
  leadingRows : f.model.rows.take master.rows.length = copyRows id "" 0 master.rows
  /-- There is a list of columns per scenario. -/
  columns_length : f.columns.length = n
  /-- There is a list of rows per scenario. -/
  rows_length : f.rows.length = n
  /-- A placeholder has the column of its decision. -/
  shared : ∀ i < n, ∀ k (hk : k < (recourse i).columns.length) (j : Nat),
    (recourse i).columns[k].decision = some j → f.column i k = j
  /-- Every column behind the decision belongs to some scenario. -/
  covered : ∀ j, master.columns.length ≤ j → j < f.model.columns.length →
    ∃ i < n, j ∈ f.columns.getD i []
  /-- The first-stage rows and then those of the scenarios are all rows, in order. -/
  rows_flatten : List.range master.rows.length ++ f.rows.flatten =
    List.range f.model.rows.length
  /-- The rows of a scenario are copies of its rows, in order. -/
  copied : ∀ i < n, List.Forall₂
    (fun k r => f.model.rows[k]? = some (copyRow (f.column i) s!"[{i}]" k r))
    (f.rows.getD i []) (recourse i).rows

/-- The first stage alone. -/
theorem layout_ofMaster {master : Model (Exact F)} (hown : master.decisionCount = 0)
    (recourse : Nat → Model (Exact F)) : (ofMaster master).Layout master 0 recourse where
  firstColumns := rfl
  firstRows := rfl
  leadingColumns := by
    have hcolumns : (ofMaster master).model.columns = master.columns := by
      refine List.map_congr_left (g := id) (fun c hc => ?_) |>.trans (List.map_id _)
      have hnone := decision_eq_none hown c hc
      obtain ⟨index, lower, upper, name, decision⟩ := c
      cases hnone
      rfl
    rw [hcolumns, List.take_length]
  leadingRows := List.take_of_length_le (by simp [ofMaster, copyRows])
  columns_length := rfl
  rows_length := rfl
  shared := fun i hi => absurd hi (Nat.not_lt_zero i)
  covered := fun j hle hlt => absurd hle (not_le.2 (by simpa [ofMaster] using hlt))
  rows_flatten := by simp [ofMaster, copyRows]
  copied := fun i hi => absurd hi (Nat.not_lt_zero i)

section Scenario

variable {f : ExtensiveForm (Exact F)} {master : Model (Exact F)} {n : Nat}
  {recourse : Nat → Model (Exact F)}

theorem column_addScenario_of_lt (q : Exact F) (sub : Model (Exact F)) {i : Nat}
    (hi : i < f.columns.length) : (f.addScenario q sub).column i = f.column i := by
  funext k
  simp only [column, addScenario]
  rw [List.getD_append _ _ _ _ hi]

theorem columns_addScenario_self (q : Exact F) (sub : Model (Exact F)) :
    (f.addScenario q sub).columns.getD f.columns.length [] = newColumns f sub := by
  simp only [addScenario]
  rw [List.getD_append_right _ _ _ _ le_rfl, Nat.sub_self]
  rfl

/-- The rows that one more scenario brings are copies of its rows. -/
theorem copied_addScenario_self (q : Exact F) (sub : Model (Exact F)) :
    List.Forall₂ (fun k r => (f.addScenario q sub).model.rows[k]? =
        some (copyRow (fun j => (newColumns f sub).getD j 0) s!"[{f.columns.length}]" k r))
      ((List.range sub.rowCount).map (f.model.rowCount + ·)) sub.rows := by
  refine List.forall₂_iff_get.2 ⟨by simp [Model.rowCount], ?_⟩
  intro i hi hi'
  have hnew : i < (copyRows (fun j => (newColumns f sub).getD j 0) s!"[{f.columns.length}]"
      f.model.rowCount sub.rows).length := by
    simpa [copyRows] using hi'
  simp only [List.get_eq_getElem, List.getElem_map, List.getElem_range, addScenario,
    Model.rowCount]
  rw [List.getElem?_append_right (Nat.le_add_right _ _), Nat.add_sub_cancel_left]
  refine (List.getElem?_eq_getElem hnew).trans ?_
  simp [copyRows, Model.rowCount]

namespace Layout

variable (h : f.Layout master n recourse)

include h

/-- No column of the first stage is left out, -/
theorem width : master.columns.length ≤ f.model.columns.length := by
  have hlength := congrArg List.length h.leadingColumns
  rw [List.length_take] at hlength
  omega

/-- and no row. -/
theorem height : master.rows.length ≤ f.model.rows.length := by
  have hlength := congrArg List.length h.rows_flatten
  simp only [List.length_append, List.length_range] at hlength
  omega

/-- The columns of the scenarios so far stay. -/
theorem column_kept (q : Exact F) (sub : Model (Exact F)) {i : Nat} (hi : i < n) :
    (f.addScenario q sub).column i = f.column i :=
  column_addScenario_of_lt q sub (h.columns_length.symm ▸ hi)

/-- The new scenario has the new columns. -/
theorem columns_last (q : Exact F) (sub : Model (Exact F)) :
    (f.addScenario q sub).columns.getD n [] = newColumns f sub := by
  have hself := columns_addScenario_self (f := f) q sub
  rwa [h.columns_length] at hself

theorem column_last (q : Exact F) (sub : Model (Exact F)) :
    (f.addScenario q sub).column n = fun k => (newColumns f sub).getD k 0 := by
  funext k
  rw [column, h.columns_last]

/-- Every column behind the decision belongs to a scenario so far or to the new one. -/
theorem covered_addScenario (q : Exact F) (sub : Model (Exact F)) {j : Nat}
    (hle : master.columns.length ≤ j) (hlt : j < (f.addScenario q sub).model.columns.length) :
    ∃ i < n + 1, j ∈ (f.addScenario q sub).columns.getD i [] := by
  by_cases hold : j < f.model.columns.length
  · obtain ⟨i, hi, hj⟩ := h.covered j hle hold
    refine ⟨i, by omega, ?_⟩
    simp only [ExtensiveForm.addScenario]
    rwa [List.getD_append _ _ _ _ (h.columns_length.symm ▸ hi)]
  · refine ⟨n, Nat.lt_succ_self n, ?_⟩
    rw [h.columns_last]
    simp only [ExtensiveForm.addScenario, List.length_append] at hlt
    exact mem_columnsOf_of_own _ (not_lt.1 hold) hlt

/-- The rows of the scenarios so far stay copies. -/
theorem copied_kept (q : Exact F) (sub : Model (Exact F)) {i : Nat} (hi : i < n) :
    List.Forall₂ (fun k r => (f.addScenario q sub).model.rows[k]? =
        some (copyRow ((f.addScenario q sub).column i) s!"[{i}]" k r))
      ((f.addScenario q sub).rows.getD i []) (recourse i).rows := by
  have hrows : (f.addScenario q sub).rows.getD i [] = f.rows.getD i [] :=
    List.getD_append _ _ _ _ (h.rows_length.symm ▸ hi)
  rw [hrows, h.column_kept q sub hi]
  refine (h.copied i hi).imp fun k r hk => ?_
  exact List.getElem?_append_left (List.getElem?_eq_some_iff.1 hk).1 |>.trans hk

/-- Those of the new scenario are copies of its rows. -/
theorem copied_last (q : Exact F) (sub : Model (Exact F)) :
    List.Forall₂ (fun k r => (f.addScenario q sub).model.rows[k]? =
        some (copyRow ((f.addScenario q sub).column n) s!"[{n}]" k r))
      ((f.addScenario q sub).rows.getD n []) sub.rows := by
  have hrows : (f.addScenario q sub).rows.getD n [] =
      (List.range sub.rowCount).map (f.model.rowCount + ·) := by
    simp only [ExtensiveForm.addScenario]
    rw [List.getD_append_right _ _ _ _ h.rows_length.le, h.rows_length, Nat.sub_self]
    rfl
  have hcopied := copied_addScenario_self (f := f) q sub
  rw [h.columns_length] at hcopied
  rwa [hrows, h.column_last]

/-- One more scenario. -/
theorem addScenario (q : Exact F) :
    (f.addScenario q (recourse n)).Layout master (n + 1) recourse where
  firstColumns := h.firstColumns
  firstRows := h.firstRows
  leadingColumns := by
    simp only [ExtensiveForm.addScenario]
    rw [List.take_append_of_le_length h.width, h.leadingColumns]
  leadingRows := by
    simp only [ExtensiveForm.addScenario]
    rw [List.take_append_of_le_length h.height, h.leadingRows]
  columns_length := by simp [ExtensiveForm.addScenario, h.columns_length]
  rows_length := by simp [ExtensiveForm.addScenario, h.rows_length]
  shared := by
    intro i hi k hk j hj
    rcases Nat.lt_succ_iff_lt_or_eq.1 hi with hi | rfl
    · rw [h.column_kept q _ hi]
      exact h.shared i hi k hk j hj
    · rw [h.column_last]
      exact (getD_columnsOf _ _ hk).1 j hj
  covered := fun _ => h.covered_addScenario q _
  rows_flatten := by
    simp only [ExtensiveForm.addScenario]
    rw [List.flatten_append, ← List.append_assoc, h.rows_flatten, List.length_append,
      List.range_add]
    simp [copyRows, Model.rowCount]
  copied := by
    intro i hi
    rcases Nat.lt_succ_iff_lt_or_eq.1 hi with hi | rfl
    · exact h.copied_kept q _ hi
    · exact h.copied_last q _

end Layout

end Scenario

/-- All scenarios, one after the other. -/
theorem layout_build {master : Model (Exact F)} (hown : master.decisionCount = 0)
    (weight : Nat → F) (recourse : Nat → Model (Exact F)) (n : Nat) :
    (build master ((List.range n).map fun i => (.finite (weight i), recourse i))).Layout
      master n recourse := by
  induction n with
  | zero => exact layout_ofMaster hown recourse
  | succ n ih =>
    rw [build_succ]
    exact ih.addScenario _

theorem probabilities_build (master : Model (Exact F))
    (scenarios : List (Exact F × Model (Exact F))) :
    (build master scenarios).probabilities = scenarios.map (·.1) := by
  induction scenarios using List.reverseRecOn with
  | nil => rfl
  | append_singleton scenarios s ih =>
    rw [build, List.foldl_append, List.map_append, ← ih]
    rfl

/-! ## The bijection -/

section Split

variable {f : ExtensiveForm (Exact F)} {σ : Type} {p : Program σ (Exact F)}

/-- The points for the scenarios that a point is split into. -/
theorem split_point (v : List F) {i k : Nat} (hi : i < f.columns.length)
    (hk : k < (f.columns.getD i []).length) : (f.split v).point i k = f.part i (entry v) k := by
  have hpoint : (f.split v).points.getD i [] = (f.columns.getD i []).map (entry v) := by
    rw [split, List.getD_eq_getElem _ _ (by rwa [List.length_map]), List.getElem_map,
      List.getD_eq_getElem _ _ hi]
  rw [Family.point, hpoint, entry_map v hk, part]

end Split

end ExtensiveForm

namespace Program

variable {σ : Type} {p : Program σ (Exact F)}

theorem equivalent_layout (hp : p.Coherent) :
    p.equivalent.Layout p.firstStage p.scenarioCount p.recourse := by
  rw [equivalent_eq hp]
  exact ExtensiveForm.layout_build hp.own _ _ _

theorem entry_split_equivalent (hp : p.Coherent) (v : List F) {j : Nat}
    (hj : j < p.firstStage.columns.length) :
    entry (p.equivalent.split v).decision j = entry v j :=
  entry_take ((equivalent_layout hp).firstColumns.symm ▸ hj)

theorem split_point_equivalent (hp : p.Coherent) (v : List F) {i k : Nat}
    (hi : i < p.scenarioCount) (hk : k < (p.recourse i).columns.length) :
    (p.equivalent.split v).point i k = p.equivalent.part i (entry v) k := by
  have h := equivalent_represents hp
  exact ExtensiveForm.split_point v (h.columns_length.symm ▸ hi) ((h.part_length i hi).symm ▸ hk)

/-- A point of the deterministic equivalent stands for a family of the same value. -/
theorem value_split_equivalent (hp : p.Coherent) (v : List F) :
    (p.equivalent.split v).value p = p.equivalent.model.objectiveAt (entry v) := by
  rw [(equivalent_represents hp).objective]
  exact valueAt_congr hp (fun j hj => entry_split_equivalent hp v hj) fun i hi k hk =>
    split_point_equivalent hp v hi hk

/-- A point of the deterministic equivalent is split into a family of the right shape. -/
theorem split_shaped (hp : p.Coherent) {v : List F}
    (hlength : v.length = p.equivalent.model.columns.length) :
    (p.equivalent.split v).Shaped p := by
  have h := equivalent_represents hp
  constructor
  · rw [ExtensiveForm.split, List.length_take, (equivalent_layout hp).firstColumns, hlength]
    exact min_eq_left h.width
  · rw [ExtensiveForm.split, List.map_map]
    apply List.ext_getElem (by simp [h.columns_length])
    intro i hi hi'
    rw [List.length_map] at hi
    have hpart := h.part_length i (h.columns_length ▸ hi)
    rw [List.getD_eq_getElem _ _ hi] at hpart
    simpa using hpart

theorem split_mapsTo (hp : p.Coherent) :
    Set.MapsTo p.equivalent.split p.equivalent.Points {family | family.Fits p} := by
  rintro v ⟨hlength, hfits⟩
  refine ⟨split_shaped hp hlength, ?_⟩
  refine feasible_congr hp (fun j hj => ?_) (fun i hi k hk => ?_) (feasible_of_equivalent hp hfits).1
  · exact (entry_split_equivalent hp v hj).symm
  · exact (split_point_equivalent hp v hi hk).symm

theorem split_injOn (hp : p.Coherent) : Set.InjOn p.equivalent.split p.equivalent.Points := by
  have h := equivalent_represents hp
  have hl := equivalent_layout hp
  intro v hv w hw heq
  refine eq_of_entry (hv.1.trans hw.1.symm) fun j hj => ?_
  -- A column is one of the decision, or some scenario has it.
  by_cases hfirst : j < p.firstStage.columns.length
  · rw [← entry_split_equivalent hp v hfirst, heq, entry_split_equivalent hp w hfirst]
  · obtain ⟨i, hi, hmem⟩ := hl.covered j (not_lt.1 hfirst) (hw.1 ▸ hj)
    obtain ⟨k, hk, rfl⟩ := List.getElem_of_mem hmem
    have hcolumn : k < (p.recourse i).columns.length := h.part_length i hi ▸ hk
    have hpoint := congrArg (fun family => family.point i k) heq
    simp only [split_point_equivalent hp _ hi hcolumn, ExtensiveForm.part,
      List.getD_eq_getElem _ _ hk] at hpoint
    exact hpoint

theorem split_surjOn (hp : p.Coherent) :
    Set.SurjOn p.equivalent.split p.equivalent.Points {family | family.Fits p} := by
  have h := equivalent_represents hp
  intro family hfamily
  obtain ⟨v, hv, hparts⟩ := h.reached (entry family.decision) family.point fun i hi k hk j hj =>
    hfamily.feasible.placeholder hp hi hk hj
  obtain ⟨w, hw, hentry⟩ : ∃ w : List F, w.length = p.equivalent.model.columns.length ∧
      ∀ j < p.equivalent.model.columns.length, entry w j = v j :=
    ⟨(List.range _).map v, by simp, fun j hj => entry_map_range v hj⟩
  have hdecision : ∀ j < p.firstStage.columns.length, entry w j = entry family.decision j :=
    fun j hj => (hentry j (hj.trans_le h.width)).trans (hv j hj)
  have hpoint : ∀ i < p.scenarioCount, ∀ k < (p.recourse i).columns.length,
      p.equivalent.part i (entry w) k = family.point i k := by
    intro i hi k hk
    have hk' : k < (p.equivalent.columns.getD i []).length := (h.part_length i hi).symm ▸ hk
    rw [← hparts i hi k hk, ExtensiveForm.part, ExtensiveForm.part]
    refine hentry _ (h.within i hi _ ?_)
    rw [List.getD_eq_getElem _ _ hk']
    exact List.getElem_mem hk'
  refine ⟨w, ⟨hw, ?_⟩, (split_shaped hp hw).ext hfamily.toShaped ?_ ?_⟩
  · have hfeasible := feasible_congr hp (fun j hj => (hdecision j hj).symm)
      (fun i hi k hk => (hpoint i hi k hk).symm) hfamily.feasible
    exact (h.fits_iff _).2 ⟨hfeasible.first, hfeasible.second⟩
  · intro j hj
    rw [entry_split_equivalent hp w hj, hdecision j hj]
  · intro i hi k hk
    rw [split_point_equivalent hp w hi hk, hpoint i hi k hk]

end Program

/-! ## The model that is built -/

/-- A deterministic equivalent of a program, with its index maps. -/
structure ExtensiveForm.Matches {σ : Type} (f : ExtensiveForm (Exact F))
    (p : Program σ (Exact F)) : Prop where
  /-- Its rows and columns are those of the first stage, then those of the scenarios. -/
  layout : f.Layout p.firstStage p.scenarioCount p.recourse
  /-- It has no placeholders. -/
  own : f.model.decisionCount = 0
  /-- Its goal is that of the first stage. -/
  goal : f.model.goal = p.firstStage.goal
  /-- It knows the probabilities. -/
  probabilities : f.probabilities = p.probabilities
  /-- The points that fit are the feasible families, read through the index maps. -/
  bijection : Set.BijOn f.split f.Points {family | family.Fits p}
  /-- The objective is that of the first stage and the expected one of the recourse. -/
  objective : ∀ v : List F, f.model.objectiveAt (entry v) = (f.split v).value p

namespace Program

variable {σ : Type} {p : Program σ (Exact F)}

theorem equivalent_matches (hp : p.Coherent) : p.equivalent.Matches p where
  layout := equivalent_layout hp
  own := (equivalent_represents hp).own
  goal := (equivalent_represents hp).goal
  probabilities := by
    rw [equivalent, ExtensiveForm.probabilities_build]
    exact List.map_fst_zip (by simp [length_probabilities])
  bijection := ⟨split_mapsTo hp, split_injOn hp, split_surjOn hp⟩
  objective := fun v => (value_split_equivalent hp v).symm

/-- The deterministic equivalent of a program that is built means the program, however many
scenarios there are: building it is never refused and changes nothing that was built. -/
theorem extensiveForm_matches (hp : p.Coherent) (h : p.isDeferred = false) :
    (extensiveForm : Edit σ (Exact F) (ExtensiveForm (Exact F))).Ensures p
      (fun f p' => f.Matches p ∧ p' = { p with generatedEpoch := some p.secondEpoch })
      fun _ _ => False := by
  refine (extensiveForm_ensures h).mono ?_ fun _ _ h => h
  rintro f p' ⟨rfl, hp'⟩
  exact ⟨equivalent_matches hp, hp'⟩

end Program

/-! ## A blend -/

/-- Two ingredients, at most five in all. -/
def blend : Model (Exact ℚ) :=
  { (Model.empty "blend" : Model (Exact ℚ)) with
    columns := [⟨0, 0, .finite 4, some "a", none⟩, ⟨1, 0, .plusInfinity, some "b", none⟩]
    rows := [⟨⟨[(0, 1), (1, 1)], 0, []⟩, .atMost, .finite 5, none, 0, 0⟩]
    objective? := some ⟨[(0, 1), (1, .finite 2)], 1, []⟩ }

/-- What lacks to three is bought.  The placeholders stand between the other columns, the
same row was added twice, and the first ingredient also costs here. -/
def topUp : Model (Exact ℚ) :=
  { (Model.empty "top-up" : Model (Exact ℚ)) with
    columns := [⟨0, 0, .plusInfinity, some "y", none⟩,
      ⟨1, .minusInfinity, .plusInfinity, some "a", some 0⟩,
      ⟨2, .minusInfinity, .plusInfinity, some "b", some 1⟩,
      ⟨3, 0, .finite 2, some "z", none⟩]
    rows := [⟨⟨[(1, 1), (2, 1), (0, 1)], 0, []⟩, .atLeast, .finite 3, none, 1, 0⟩,
      ⟨⟨[(1, 1), (2, 1), (0, 1)], 0, []⟩, .atLeast, .finite 3, none, 1, 0⟩]
    objective? := some ⟨[(0, .finite 3), (1, .finite (1 / 2))], .finite 2, []⟩ }

/-- A sale that no ingredient enters. -/
def sideline : Model (Exact ℚ) :=
  { (Model.empty "sideline" : Model (Exact ℚ)) with
    columns := [⟨0, 0, 1, some "s", none⟩]
    objective? := some ⟨[(0, -1)], 0, []⟩ }

/-- A blend before a top-up that is certain, and a sideline of probability zero. -/
def blendProgram : Program Unit (Exact ℚ) := .ofModels blend [(1, topUp), (0, sideline)]

/-- Three of the first ingredient, and nothing bought. -/
def blendFamily : Family ℚ := ⟨[3, 0], [[0, 3, 0, 0], [1]]⟩

theorem blendFamily_fits : blendFamily.Fits blendProgram :=
  ⟨⟨by decide +kernel, by decide +kernel⟩, by decide +kernel⟩

namespace Program

/-- The family that fits the blend is a point of its deterministic equivalent. -/
theorem blend_extensiveForm :
    (extensiveForm : Edit Unit (Exact ℚ) (ExtensiveForm (Exact ℚ))).Ensures blendProgram
      (fun f _ => ∃ v ∈ f.Points, f.split v = blendFamily ∧
        f.model.objectiveAt (entry v) = 15 / 2) fun _ _ => False := by
  refine (extensiveForm_matches (p := blendProgram) (by decide +kernel) (by decide)).mono ?_
    fun _ _ h => h
  rintro f - ⟨hf, -⟩
  obtain ⟨v, hv, hsplit⟩ := hf.bijection.surjOn blendFamily_fits
  refine ⟨v, hv, hsplit, ?_⟩
  rw [hf.objective, hsplit]
  decide +kernel

end Program

end Recourse
