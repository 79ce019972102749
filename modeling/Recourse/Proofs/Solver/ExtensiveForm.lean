/-
  Proofs/Solver/ExtensiveForm.lean --- what the deterministic equivalent means.

  A point of the deterministic equivalent is a decision followed by the columns that
  belong to the scenarios alone.  Read through the index maps it gives a point for the
  first stage and one for every scenario; it is feasible when all of them are, and its
  objective is theirs, weighed (`ExtensiveForm.Represents`).  The scenarios are added one
  at a time, and each step keeps what the one before established
  (`Represents.addScenario`).
-/
import Recourse.Proofs.Model.Terms
import Recourse.Proofs.Program.Meaning
import Recourse.Solver.Extensive

set_option autoImplicit false
set_option linter.unusedSectionVars false

open scoped BigOperators

namespace Recourse

variable {F : Type} [Field F] [LinearOrder F] [IsStrictOrderedRing F] [FloorRing F]

namespace ExtensiveForm

/-! ## Renumbered columns -/

theorem valueAt_renumber (columns : Nat → Nat) (e : LinearExpr (Exact F)) (v : Nat → F) :
    SparseRow.valueAt (renumber columns e).terms v =
      SparseRow.valueAt e.terms fun k => v (columns k) := by
  simp [renumber, SparseRow.valueAt, List.map_map, Function.comp_def]

theorem holds_copyRow (columns : Nat → Nat) (mark : String) (index : Nat) (r : Row (Exact F))
    (v : Nat → F) : (copyRow columns mark index r).Holds v ↔ r.Holds fun k => v (columns k) := by
  rw [Row.Holds, Row.Holds, Row.side, Row.side, copyRow, valueAt_renumber, renumber]

theorem holds_copyRows (columns : Nat → Nat) (mark : String) (start : Nat)
    (rows : List (Row (Exact F))) (v : Nat → F) :
    (∀ r ∈ copyRows columns mark start rows, r.Holds v) ↔
      ∀ r ∈ rows, r.Holds fun k => v (columns k) := by
  constructor
  · intro h r hr
    obtain ⟨i, hi, rfl⟩ := List.getElem_of_mem hr
    have hmem : (rows[i], i) ∈ rows.zipIdx := List.mk_mem_zipIdx_iff_getElem?.2
      (List.getElem?_eq_getElem hi)
    exact (holds_copyRow _ _ _ _ _).1 (h _ (List.mem_map.2 ⟨_, hmem, rfl⟩))
  · intro h r hr
    obtain ⟨t, ht, rfl⟩ := List.mem_map.1 hr
    refine (holds_copyRow _ _ _ _ _).2 (h _ ?_)
    exact List.mem_of_getElem? (List.mk_mem_zipIdx_iff_getElem?.1 ht)

section Columns

variable {K : Type}

theorem length_columnsOf (next : Nat) (vs : List (Variable K)) :
    (columnsOf next vs).length = vs.length := by
  induction vs generalizing next with
  | nil => rfl
  | cons v rest ih =>
    unfold columnsOf
    cases v.decision with
    | none => simp [ih]
    | some j => simp [ih]

/-- A placeholder has the column of its decision, and any other variable a new one. -/
theorem getD_columnsOf (next : Nat) (vs : List (Variable K)) {k : Nat} (hk : k < vs.length) :
    (∀ j, vs[k].decision = some j → (columnsOf next vs).getD k 0 = j) ∧
      (vs[k].decision = none → next ≤ (columnsOf next vs).getD k 0) := by
  induction vs generalizing next k with
  | nil => exact absurd hk (Nat.not_lt_zero k)
  | cons v rest ih =>
    unfold columnsOf
    cases k with
    | zero =>
      cases hv : v.decision with
      | none => exact ⟨fun j hj => (nomatch hv.symm.trans hj), fun _ => le_rfl⟩
      | some i =>
        exact ⟨fun j hj => Option.some.inj (hv.symm.trans hj), fun h => nomatch hv.symm.trans h⟩
    | succ k =>
      have hk : k < rest.length := Nat.lt_of_succ_lt_succ hk
      cases v.decision with
      | none => exact ⟨(ih (next + 1) hk).1, fun h => (Nat.le_succ next).trans ((ih _ hk).2 h)⟩
      | some i => exact ih next hk

/-- The columns of a scenario are those of its placeholders and new ones. -/
theorem mem_columnsOf (mark : String) {next j : Nat} {vs : List (Variable K)}
    (hj : j ∈ columnsOf next vs) : j ∈ vs.filterMap (·.decision) ∨
      (next ≤ j ∧ j < next + (ownVariables mark next vs).length) := by
  induction vs generalizing next with
  | nil => exact absurd hj List.not_mem_nil
  | cons v rest ih =>
    unfold columnsOf at hj
    unfold ownVariables
    cases hv : v.decision with
    | some i =>
      rw [hv] at hj
      rw [List.filterMap_cons_some hv]
      rcases List.mem_cons.1 hj with rfl | hj
      · exact Or.inl List.mem_cons_self
      · exact (ih hj).imp_left (List.mem_cons_of_mem _)
    | none =>
      rw [hv] at hj
      rw [List.filterMap_cons_none hv]
      simp only [List.length_cons]
      rcases List.mem_cons.1 hj with rfl | hj
      · exact Or.inr (by omega)
      · exact (ih hj).imp_right fun h => by omega

/-- No two variables of a scenario share a column. -/
theorem nodup_columnsOf {next : Nat} {vs : List (Variable K)}
    (hnodup : (vs.filterMap (·.decision)).Nodup) (hlt : ∀ j ∈ vs.filterMap (·.decision), j < next) :
    (columnsOf next vs).Nodup := by
  induction vs generalizing next with
  | nil => exact List.nodup_nil
  | cons v rest ih =>
    unfold columnsOf
    cases hv : v.decision with
    | some i =>
      rw [List.filterMap_cons_some hv] at hnodup hlt
      have hi : i < next := hlt i List.mem_cons_self
      refine List.nodup_cons.2 ⟨?_, ih (List.nodup_cons.1 hnodup).2 fun j hj =>
        hlt j (List.mem_cons_of_mem _ hj)⟩
      intro hmem
      rcases mem_columnsOf "" hmem with h | h
      · exact (List.nodup_cons.1 hnodup).1 h
      · omega
    | none =>
      rw [List.filterMap_cons_none hv] at hnodup hlt
      refine List.nodup_cons.2 ⟨?_, ih hnodup fun j hj =>
        (hlt j hj).trans (by omega)⟩
      intro hmem
      rcases mem_columnsOf "" hmem with h | h
      · exact absurd (hlt next h) (lt_irrefl next)
      · omega

end Columns

/-- The new columns admit what the variables of the scenario do. -/
theorem admits_ownVariables_iff (mark : String) (next : Nat) (vs : List (Variable (Exact F)))
    (v : Nat → F) : (∀ c ∈ ownVariables mark next vs, Model.Admits v c (v c.index)) ↔
      ∀ k (hk : k < vs.length), Model.Admits v vs[k] (v ((columnsOf next vs).getD k 0)) := by
  induction vs generalizing next with
  | nil => simp [ownVariables]
  | cons w rest ih =>
    unfold ownVariables columnsOf
    have hsplit : ∀ (js : List Nat) (j : Nat),
        (∀ k (hk : k < (w :: rest).length), Model.Admits v (w :: rest)[k] (v ((j :: js).getD k 0))) ↔
          Model.Admits v w (v j) ∧
            ∀ k (hk : k < rest.length), Model.Admits v rest[k] (v (js.getD k 0)) := by
      intro js j
      refine ⟨fun h => ⟨h 0 (Nat.succ_pos _), fun k hk => h (k + 1) (Nat.succ_lt_succ hk)⟩, ?_⟩
      rintro ⟨hw, hrest⟩ k hk
      cases k with
      | zero => exact hw
      | succ k => exact hrest k (Nat.lt_of_succ_lt_succ hk)
    cases hw : w.decision with
    | some j =>
      simp only
      rw [hsplit, ih]
      have hadmits : Model.Admits v w (v j) := by rw [Model.Admits, hw]
      exact ⟨fun h => ⟨hadmits, h⟩, And.right⟩
    | none =>
      simp only
      rw [hsplit, List.forall_mem_cons, ih]
      apply and_congr_left
      intro _
      rw [Model.Admits, Model.Admits, hw]

/-! ## Weighed objectives -/

/-- The objective with that of a scenario added. -/
theorem addObjective_spec {e own : LinearExpr (Exact F)} {n n' : Nat} (he : e.Proper n)
    (hown : own.Proper n') (columns : Nat → Nat) (hcolumns : ∀ k < n', columns k < n) (p : F) :
    (addObjective e columns (.finite p) own).Proper n ∧
      ∀ v, (addObjective e columns (.finite p) own).valueAt v =
        e.valueAt v + p * own.valueAt fun k => v (columns k) := by
  obtain ⟨hterms, hvalue⟩ := LinearExpr.foldl_addTerm_spec ⟨hown.within, hown.finite, hown.nodup⟩
    ⟨he.within, he.finite, he.nodup⟩ hcolumns p
  have hconstant : (addObjective e columns (.finite p) own).constant =
      .finite (e.constant.value + p * own.constant.value) := by
    rw [addObjective, ← Exact.finite_value he.constant, ← Exact.finite_value hown.constant]
    rfl
  refine ⟨⟨hterms.within, hterms.finite, hterms.nodup, ?_⟩, ?_⟩
  · rw [hconstant]
    exact Exact.isFinite_finite _
  · intro v
    rw [LinearExpr.valueAt, hconstant, LinearExpr.valueAt, LinearExpr.valueAt]
    simp only [addObjective, Exact.value_finite]
    rw [hvalue v]
    ring

/-! ## Proper parts -/

theorem renumber_proper {e : LinearExpr (Exact F)} {n n' : Nat}
    (he : LinearExpr.ProperTerms e.terms n')
    {columns : Nat → Nat} (hlt : ∀ k < n', columns k < n)
    (hinj : ∀ k < n', ∀ l < n', columns k = columns l → k = l) :
    LinearExpr.ProperTerms (renumber columns e).terms n where
  within := by
    intro t ht
    obtain ⟨u, hu, rfl⟩ := List.mem_map.1 ht
    exact hlt _ (he.within u hu)
  finite := by
    intro t ht
    obtain ⟨u, hu, rfl⟩ := List.mem_map.1 ht
    exact he.finite u hu
  nodup := by
    have hkeys : (renumber columns e).terms.map (·.1) = (e.terms.map (·.1)).map columns := by
      simp [renumber, Function.comp_def]
    rw [hkeys]
    apply he.nodup.map_on
    intro k hk l hl
    obtain ⟨t, ht, rfl⟩ := List.mem_map.1 hk
    obtain ⟨u, hu, rfl⟩ := List.mem_map.1 hl
    exact hinj _ (he.within t ht) _ (he.within u hu)

theorem index_copyRows (columns : Nat → Nat) (mark : String) (start : Nat)
    (rows : List (Row (Exact F))) {i : Nat} (hi : i < (copyRows columns mark start rows).length) :
    (copyRows columns mark start rows)[i].index = ((start + i : Nat) : Int) := by
  simp [copyRows, copyRow]

/-- Copied rows are copies of rows there are. -/
theorem exists_of_mem_copyRows {K : Type} [Scalar K] {columns : Nat → Nat} {mark : String}
    {start : Nat} {rows : List (Row K)} {r : Row K} (hr : r ∈ copyRows columns mark start rows) :
    ∃ w ∈ rows, ∃ i, r = copyRow columns mark (start + i) w := by
  obtain ⟨t, ht, rfl⟩ := List.mem_map.1 hr
  exact ⟨t.1, List.mem_of_getElem? (List.mk_mem_zipIdx_iff_getElem?.1 ht), t.2, rfl⟩

/-- Copied rows are proper where the columns they are copied to are there and differ. -/
theorem copyRows_proper {m : Model (Exact F)} (hm : m.Coherent) (columns : Nat → Nat)
    (mark : String) (start : Nat) {n : Nat} (hlt : ∀ k < m.columns.length, columns k < n)
    (hinj : ∀ k < m.columns.length, ∀ l < m.columns.length, columns k = columns l → k = l) :
    ∀ r ∈ copyRows columns mark start m.rows, LinearExpr.ProperTerms r.expr.terms n := by
  intro r hr
  obtain ⟨w, hw, i, rfl⟩ := exists_of_mem_copyRows hr
  exact renumber_proper (hm.rows w hw) hlt hinj

theorem isKnown_copyRows {m : Model (Exact F)} (hm : m.Proper) (columns : Nat → Nat)
    (mark : String) (start : Nat) :
    ∀ r ∈ copyRows columns mark start m.rows, r.relation.IsKnown := by
  intro r hr
  obtain ⟨w, hw, i, rfl⟩ := exists_of_mem_copyRows hr
  exact hm.relations w hw

/-- The new columns of a scenario are numbered, and have the bounds of its variables. -/
theorem ownVariables_spec (mark : String) (next : Nat) (vs : List (Variable (Exact F))) :
    (∀ i c, (ownVariables mark next vs)[i]? = some c → c.index = next + i) ∧
    ∀ c ∈ ownVariables mark next vs, c.decision = none ∧
      ∃ w ∈ vs, c.lower = w.lower ∧ c.upper = w.upper := by
  induction vs generalizing next with
  | nil => exact ⟨fun i c h => by simp [ownVariables] at h, fun c hc => absurd hc List.not_mem_nil⟩
  | cons v rest ih =>
    unfold ownVariables
    cases v.decision with
    | some j =>
      obtain ⟨hindex, hbounds⟩ := ih next
      refine ⟨hindex, ?_⟩
      intro c hc
      obtain ⟨hnone, w, hw, heq⟩ := hbounds c hc
      exact ⟨hnone, w, List.mem_cons_of_mem _ hw, heq⟩
    | none =>
      obtain ⟨hindex, hbounds⟩ := ih (next + 1)
      constructor
      · intro i c hi
        cases i with
        | zero =>
          cases hi
          rfl
        | succ i =>
          have hi := hindex i c hi
          omega
      · intro c hc
        rcases List.mem_cons.1 hc with rfl | hc
        · exact ⟨rfl, v, List.mem_cons_self, rfl, rfl⟩
        · obtain ⟨hnone, w, hw, heq⟩ := hbounds c hc
          exact ⟨hnone, w, List.mem_cons_of_mem _ hw, heq⟩

/-! ## The equivalent of a first stage and weighed second stages -/

/-- The point of scenario `i` in a point of the deterministic equivalent. -/
def part (f : ExtensiveForm (Exact F)) (i : Nat) (v : Nat → F) (k : Nat) : F :=
  v ((f.columns.getD i []).getD k 0)

/-- A deterministic equivalent of a first stage and of the first `n` of some weighed
second stages. -/
structure Represents (f : ExtensiveForm (Exact F)) (master : Model (Exact F)) (n : Nat)
    (weight : Nat → F) (recourse : Nat → Model (Exact F)) : Prop where
  /-- It is a coherent model. -/
  coherent : f.model.Coherent
  /-- It has no placeholders. -/
  own : f.model.decisionCount = 0
  /-- Its goal is that of the first stage. -/
  goal : f.model.goal = master.goal
  /-- The first-stage columns come first. -/
  width : master.columns.length ≤ f.model.columns.length
  /-- There is a list of columns per scenario. -/
  columns_length : f.columns.length = n
  /-- They are columns of the model. -/
  within : ∀ i < n, ∀ j ∈ f.columns.getD i [], j < f.model.columns.length
  /-- There is one for every variable of the scenario. -/
  part_length : ∀ i < n, (f.columns.getD i []).length = (recourse i).columns.length
  /-- A point fits when all its parts do. -/
  fits_iff : ∀ v, f.model.Fits v v ↔
    master.Fits v v ∧ ∀ i < n, (recourse i).Fits v (f.part i v)
  /-- The objective is that of the parts. -/
  objective : ∀ v, f.model.objectiveAt v =
    master.objectiveAt v + ∑ i ∈ Finset.range n, weight i * (recourse i).objectiveAt (f.part i v)
  /-- Parts that agree on the decision are those of a point. -/
  reached : ∀ (x : Nat → F) (y : Nat → Nat → F),
    (∀ i < n, ∀ k (hk : k < (recourse i).columns.length) (j : Nat),
      (recourse i).columns[k].decision = some j → y i k = x j) →
    ∃ v, (∀ j < master.columns.length, v j = x j) ∧
      ∀ i < n, ∀ k < (recourse i).columns.length, f.part i v k = y i k

theorem decision_eq_none {m : Model (Exact F)} (h : m.decisionCount = 0) :
    ∀ c ∈ m.columns, c.decision = none := by
  intro c hc
  have hempty := List.eq_nil_of_length_eq_zero h
  simpa [Variable.isDecision] using List.filter_eq_nil_iff.1 hempty c hc

theorem decisionCount_eq_zero {m : Model (Exact F)} (h : ∀ c ∈ m.columns, c.decision = none) :
    m.decisionCount = 0 := by
  rw [Model.decisionCount, List.length_eq_zero_iff, List.filter_eq_nil_iff]
  intro c hc
  simp [Variable.isDecision, h c hc]

/-- The first stage alone. -/
theorem represents_ofMaster {master : Model (Exact F)} (hm : master.Coherent)
    (hown : master.decisionCount = 0) (weight : Nat → F) (recourse : Nat → Model (Exact F)) :
    (ofMaster master).Represents master 0 weight recourse := by
  have hnone : ∀ c ∈ (ofMaster master).model.columns, c.decision = none := by
    intro c hc
    obtain ⟨d, -, rfl⟩ := List.mem_map.1 hc
    rfl
  have hlength : (ofMaster master).model.columns.length = master.columns.length := by
    simp [ofMaster]
  have hrows := copyRows_proper hm id "" 0 (fun _ hk => hk) fun _ _ _ _ h => h
  refine ⟨⟨?_, ?_, ?_, ?_⟩, decisionCount_eq_zero hnone, rfl, hlength.ge, rfl,
    fun i hi => absurd hi (Nat.not_lt_zero i), fun i hi => absurd hi (Nat.not_lt_zero i), ?_, ?_,
    fun x y _ => ⟨x, fun _ _ => rfl, fun i hi => absurd hi (Nat.not_lt_zero i)⟩⟩
  · intro i hi
    have hi : i < master.columns.length := hlength ▸ hi
    simp [ofMaster, hm.numbered i hi]
  · rw [decisionCount_eq_zero hnone]
    exact List.filterMap_eq_nil_iff.2 hnone
  · intro r hr
    rw [hlength]
    exact hrows r hr
  · rw [hlength]
    exact ⟨hm.objective.within, hm.objective.finite, hm.objective.nodup, hm.objective.constant⟩
  · intro v
    have hcolumns : (∀ c ∈ (ofMaster master).model.columns, Model.Admits v c (v c.index)) ↔
        ∀ c ∈ master.columns, Model.Admits v c (v c.index) := by
      rw [ofMaster, List.forall_mem_map]
      apply forall₂_congr
      intro c hc
      rw [Model.Admits, Model.Admits, decision_eq_none hown c hc]
    have hfirst : (∀ r ∈ (ofMaster master).model.rows, r.Holds v) ↔
        ∀ r ∈ master.rows, r.Holds v := holds_copyRows id "" 0 master.rows v
    refine ⟨fun h => ⟨⟨hfirst.1 h.rows, hcolumns.1 h.columns⟩, fun i hi =>
      absurd hi (Nat.not_lt_zero i)⟩, fun h => ⟨hfirst.2 h.1.rows, hcolumns.2 h.1.columns⟩⟩
  · intro v
    rw [Finset.range_zero, Finset.sum_empty, add_zero]
    rfl

theorem proper_ofMaster {master : Model (Exact F)} (hm : master.Proper)
    (hown : master.decisionCount = 0) : (ofMaster master).model.Proper := by
  refine (represents_ofMaster hm.coherent hown 0 default).coherent.proper ?_ ?_
    (isKnown_copyRows hm id "" 0)
  · intro c hc
    obtain ⟨d, hd, rfl⟩ := List.mem_map.1 hc
    exact hm.uncrossed d hd
  · intro i hi
    simp only [ofMaster]
    rw [index_copyRows, Nat.zero_add]

/-! ## One more scenario -/

section Scenario

variable {f : ExtensiveForm (Exact F)} {master : Model (Exact F)} {n : Nat} {weight : Nat → F}
  {recourse : Nat → Model (Exact F)}

/-- The columns that the variables of one more scenario get. -/
def newColumns (f : ExtensiveForm (Exact F)) (sub : Model (Exact F)) : List Nat :=
  columnsOf f.model.columns.length sub.columns

theorem length_columns_addScenario (q : Exact F) (sub : Model (Exact F)) :
    f.model.columns.length ≤ (f.addScenario q sub).model.columns.length := by
  simp only [addScenario, List.length_append]
  omega

/-- The parts of the scenarios before are what they were. -/
theorem part_addScenario_of_lt (q : Exact F) (sub : Model (Exact F)) {i : Nat}
    (hi : i < f.columns.length) (v : Nat → F) : (f.addScenario q sub).part i v = f.part i v := by
  funext k
  simp only [part, addScenario]
  rw [List.getD_append _ _ _ _ hi]

/-- The part of the new scenario. -/
theorem part_addScenario_self (q : Exact F) (sub : Model (Exact F)) (v : Nat → F) :
    (f.addScenario q sub).part f.columns.length v =
      fun k => v ((newColumns f sub).getD k 0) := by
  funext k
  simp only [part, addScenario]
  rw [List.getD_append_right _ _ _ _ le_rfl, Nat.sub_self]
  rfl

theorem length_newColumns (f : ExtensiveForm (Exact F)) (sub : Model (Exact F)) :
    (newColumns f sub).length = sub.columns.length := length_columnsOf _ _

theorem getD_newColumns_mem (f : ExtensiveForm (Exact F)) (sub : Model (Exact F)) {k : Nat}
    (hk : k < sub.columns.length) : (newColumns f sub).getD k 0 ∈ newColumns f sub := by
  rw [List.getD_eq_getElem _ _ (by rwa [length_newColumns])]
  exact List.getElem_mem _

variable (h : f.Represents master n weight recourse) {sub : Model (Exact F)} (hsub : sub.Coherent)
  (hcount : sub.decisionCount ≤ master.columns.length)

include h hsub hcount

theorem Represents.placeholder_lt : ∀ j ∈ sub.columns.filterMap (·.decision),
    j < f.model.columns.length := by
  intro j hj
  rw [hsub.placeholders] at hj
  exact (List.mem_range.1 hj).trans_le (hcount.trans h.width)

theorem Represents.nodup_newColumns : (newColumns f sub).Nodup := by
  refine nodup_columnsOf ?_ (h.placeholder_lt hsub hcount)
  rw [hsub.placeholders]
  exact List.nodup_range

theorem Represents.newColumns_lt (q : Exact F) : ∀ j ∈ newColumns f sub,
    j < (f.addScenario q sub).model.columns.length := by
  intro j hj
  simp only [addScenario, List.length_append]
  rcases mem_columnsOf s!"[{f.columns.length}]" hj with hj | hj
  · exact (h.placeholder_lt hsub hcount j hj).trans_le (Nat.le_add_right _ _)
  · exact hj.2

theorem Represents.newColumns_injective {k l : Nat} (hk : k < sub.columns.length)
    (hl : l < sub.columns.length)
    (heq : (newColumns f sub).getD k 0 = (newColumns f sub).getD l 0) : k = l := by
  rw [List.getD_eq_getElem _ _ (by rwa [length_newColumns]),
    List.getD_eq_getElem _ _ (by rwa [length_newColumns])] at heq
  exact (h.nodup_newColumns hsub hcount).getElem_inj_iff.1 heq

theorem Represents.decision_addScenario (q : Exact F) :
    ∀ c ∈ (f.addScenario q sub).model.columns, c.decision = none := by
  intro c hc
  rcases List.mem_append.1 hc with hc | hc
  · exact decision_eq_none h.own c hc
  · exact ((ownVariables_spec _ _ _).2 c hc).1

/-- The model with one more scenario is coherent. -/
theorem Represents.coherent_addScenario (p : F) :
    (f.addScenario (.finite p) sub).model.Coherent := by
  have hlt := h.newColumns_lt hsub hcount (.finite p)
  have hle := length_columns_addScenario (f := f) (.finite p) sub
  have hcopies := copyRows_proper hsub (fun k => (newColumns f sub).getD k 0)
    s!"[{f.columns.length}]" f.model.rowCount
    (fun k hk => hlt _ (getD_newColumns_mem f sub hk))
    fun k hk l hl => h.newColumns_injective hsub hcount hk hl
  refine ⟨?_, ?_, ?_, ?_⟩
  · intro i hi
    by_cases hold : i < f.model.columns.length
    · simp only [addScenario]
      rw [List.getElem_append_left hold]
      exact h.coherent.numbered i hold
    · obtain ⟨d, rfl⟩ := Nat.exists_eq_add_of_le (not_lt.1 hold)
      refine (ownVariables_spec s!"[{f.columns.length}]" f.model.columns.length
        sub.columns).1 d _ ?_
      have hget := List.getElem?_eq_getElem hi
      simp only [addScenario] at hget
      rwa [List.getElem?_append_right (Nat.le_add_right _ _), Nat.add_sub_cancel_left] at hget
  · have hnone := h.decision_addScenario hsub hcount (.finite p)
    rw [decisionCount_eq_zero hnone]
    exact List.filterMap_eq_nil_iff.2 hnone
  · intro r hr
    rcases List.mem_append.1 hr with hr | hr
    · exact (h.coherent.rows r hr).mono hle
    · exact hcopies r hr
  · exact (addObjective_spec (h.coherent.objective.mono hle) hsub.objective
      (fun k => (newColumns f sub).getD k 0)
      (fun k hk => hlt _ (getD_newColumns_mem f sub hk)) p).1

omit hsub in
/-- The model with one more scenario is proper. -/
theorem Represents.proper_addScenario (hf : f.model.Proper) (hsub : sub.Proper) (p : F) :
    (f.addScenario (.finite p) sub).model.Proper := by
  refine (h.coherent_addScenario hsub.coherent hcount p).proper ?_ ?_ ?_
  · intro c hc
    rcases List.mem_append.1 hc with hc | hc
    · exact hf.uncrossed c hc
    · obtain ⟨-, w, hw, hlower, hupper⟩ := (ownVariables_spec _ _ _).2 c hc
      rw [hlower, hupper]
      exact hsub.uncrossed w hw
  · intro i hi
    by_cases hold : i < f.model.rows.length
    · simp only [addScenario]
      rw [List.getElem_append_left hold]
      exact hf.aligned i hold
    · have hold : f.model.rowCount ≤ i := not_lt.1 hold
      simp only [addScenario]
      rw [List.getElem_append_right hold, index_copyRows]
      exact congrArg Nat.cast (Nat.add_sub_cancel' hold)
  · intro r hr
    rcases List.mem_append.1 hr with hr | hr
    · exact hf.relations r hr
    · exact isKnown_copyRows hsub _ _ _ r hr

omit h hcount in
/-- A point satisfies the rows and columns that one more scenario brings when its part fits
the scenario. -/
theorem fits_copies_iff (v : Nat → F) :
    ((∀ r ∈ copyRows (fun k => (newColumns f sub).getD k 0) s!"[{f.columns.length}]"
        f.model.rowCount sub.rows, r.Holds v) ∧
      ∀ c ∈ ownVariables s!"[{f.columns.length}]" f.model.variableCount sub.columns,
        Model.Admits v c (v c.index)) ↔ sub.Fits v fun k => v ((newColumns f sub).getD k 0) := by
  rw [holds_copyRows, admits_ownVariables_iff]
  constructor
  · rintro ⟨hrows, hcolumns⟩
    refine ⟨hrows, fun c hc => ?_⟩
    obtain ⟨k, hk, rfl⟩ := List.getElem_of_mem hc
    rw [hsub.numbered k hk]
    exact hcolumns k hk
  · rintro ⟨hrows, hcolumns⟩
    refine ⟨hrows, fun k hk => ?_⟩
    have hc := hcolumns _ (List.getElem_mem hk)
    rwa [hsub.numbered k hk] at hc

/-- A point fits with one more scenario when its parts do. -/
theorem Represents.fits_addScenario_iff (q : Exact F) (v : Nat → F) :
    (f.addScenario q sub).model.Fits v v ↔
      f.model.Fits v v ∧ sub.Fits v fun k => v ((newColumns f sub).getD k 0) := by
  rw [← fits_copies_iff hsub v]
  constructor
  · rintro ⟨hrows, hcolumns⟩
    obtain ⟨hrows, hrows'⟩ := List.forall_mem_append.1 hrows
    obtain ⟨hcolumns, hcolumns'⟩ := List.forall_mem_append.1 hcolumns
    exact ⟨⟨hrows, hcolumns⟩, hrows', hcolumns'⟩
  · rintro ⟨hold, hrows, hcolumns⟩
    exact ⟨List.forall_mem_append.2 ⟨hold.rows, hrows⟩,
      List.forall_mem_append.2 ⟨hold.columns, hcolumns⟩⟩

/-- The objective with one more scenario. -/
theorem Represents.objectiveAt_addScenario (p : F) (v : Nat → F) :
    (f.addScenario (.finite p) sub).model.objectiveAt v = f.model.objectiveAt v +
      p * sub.objectiveAt fun k => v ((newColumns f sub).getD k 0) := by
  have hle := length_columns_addScenario (f := f) (.finite p) sub
  exact (addObjective_spec (h.coherent.objective.mono hle) hsub.objective
    (fun k => (newColumns f sub).getD k 0)
    (fun k hk => h.newColumns_lt hsub hcount (.finite p) _ (getD_newColumns_mem f sub hk)) p).2 v

/-- A point can be continued by any point of one more scenario that carries the same
decision. -/
theorem Represents.exists_continued (v y : Nat → F)
    (hy : ∀ k (hk : k < sub.columns.length) (j : Nat), sub.columns[k].decision = some j →
      y k = v j) :
    ∃ w : Nat → F, (∀ j < f.model.columns.length, w j = v j) ∧
      ∀ k < sub.columns.length, w ((newColumns f sub).getD k 0) = y k := by
  refine ⟨fun j => if j < f.model.columns.length then v j else y ((newColumns f sub).idxOf j),
    fun j hj => if_pos hj, ?_⟩
  intro k hk
  have hk' : k < (newColumns f sub).length := by rwa [length_newColumns]
  cases hd : sub.columns[k].decision with
  | some j =>
    have hj : j < f.model.columns.length := h.placeholder_lt hsub hcount j
      (List.mem_filterMap.2 ⟨_, List.getElem_mem hk, hd⟩)
    have hentry : (newColumns f sub).getD k 0 = j := (getD_columnsOf _ _ hk).1 j hd
    simp only
    rw [hentry, if_pos hj, hy k hk j hd]
  | none =>
    have hentry : f.model.columns.length ≤ (newColumns f sub).getD k 0 :=
      (getD_columnsOf _ _ hk).2 hd
    simp only
    rw [if_neg (not_lt.2 hentry), List.getD_eq_getElem _ _ hk',
      (h.nodup_newColumns hsub hcount).idxOf_getElem]

end Scenario

/-- One more scenario. -/
theorem Represents.addScenario {f : ExtensiveForm (Exact F)} {master : Model (Exact F)} {n : Nat}
    {weight : Nat → F} {recourse : Nat → Model (Exact F)}
    (h : f.Represents master n weight recourse) (hsub : (recourse n).Coherent)
    (hcount : (recourse n).decisionCount ≤ master.columns.length) :
    (f.addScenario (.finite (weight n)) (recourse n)).Represents master (n + 1) weight
      recourse := by
  -- What is there stays where it is, and the new columns come behind it.
  have hpart : ∀ i < n, ∀ v,
      (f.addScenario (.finite (weight n)) (recourse n)).part i v = f.part i v := fun i hi v =>
    part_addScenario_of_lt _ _ (h.columns_length.symm ▸ hi) v
  have hnew : ∀ v, (f.addScenario (.finite (weight n)) (recourse n)).part n v =
      fun k => v ((newColumns f (recourse n)).getD k 0) := fun v => by
    have hself := part_addScenario_self (f := f) (.finite (weight n)) (recourse n) v
    rwa [h.columns_length] at hself
  have hle := length_columns_addScenario (f := f) (.finite (weight n)) (recourse n)
  have hold : ∀ i < n, (f.addScenario (.finite (weight n)) (recourse n)).columns.getD i [] =
      f.columns.getD i [] := fun i hi => List.getD_append _ _ _ _ (h.columns_length.symm ▸ hi)
  have hlast : (f.addScenario (.finite (weight n)) (recourse n)).columns.getD n [] =
      newColumns f (recourse n) := by
    simp only [ExtensiveForm.addScenario]
    rw [List.getD_append_right _ _ _ _ h.columns_length.le, h.columns_length, Nat.sub_self]
    rfl
  refine ⟨h.coherent_addScenario hsub hcount (weight n),
    decisionCount_eq_zero (h.decision_addScenario hsub hcount _), h.goal, h.width.trans hle, ?_, ?_,
    ?_, ?_, ?_, ?_⟩
  · simp [ExtensiveForm.addScenario, h.columns_length]
  · intro i hi
    rcases Nat.lt_succ_iff_lt_or_eq.1 hi with hi | rfl
    · rw [hold i hi]
      exact fun j hj => (h.within i hi j hj).trans_le hle
    · rw [hlast]
      exact h.newColumns_lt hsub hcount _
  · intro i hi
    rcases Nat.lt_succ_iff_lt_or_eq.1 hi with hi | rfl
    · rw [hold i hi]
      exact h.part_length i hi
    · rw [hlast]
      exact length_newColumns f _
  · intro v
    rw [h.fits_addScenario_iff hsub hcount, h.fits_iff, Nat.forall_lt_succ_right, hnew, and_assoc]
    refine and_congr_right fun _ => and_congr_left fun _ => forall₂_congr ?_
    intro i hi
    rw [hpart i hi]
  · intro v
    have hsum : ∀ i ∈ Finset.range n, weight i * (recourse i).objectiveAt
        ((f.addScenario (.finite (weight n)) (recourse n)).part i v) =
          weight i * (recourse i).objectiveAt (f.part i v) := fun i hi => by
      rw [hpart i (Finset.mem_range.1 hi)]
    rw [h.objectiveAt_addScenario hsub hcount, h.objective, Finset.sum_range_succ, hnew,
      Finset.sum_congr rfl hsum]
    ring
  · intro x y hxy
    obtain ⟨v, hv, hparts⟩ := h.reached x y fun i hi => hxy i (by omega)
    obtain ⟨w, hw, hnewPart⟩ := h.exists_continued hsub hcount v (y n) fun k hk j hj => by
      have hj' : j < master.columns.length :=
        (hsub.decision_lt (List.getElem_mem hk) hj).trans_le hcount
      rw [hxy n (by omega) k hk j hj, hv j hj']
    refine ⟨w, fun j hj => (hw j (hj.trans_le h.width)).trans (hv j hj), ?_⟩
    intro i hi k hk
    rcases Nat.lt_succ_iff_lt_or_eq.1 hi with hi | rfl
    · have hk' : k < (f.columns.getD i []).length := by rwa [h.part_length i hi]
      rw [hpart i hi, ← hparts i hi k hk]
      refine hw _ (h.within i hi _ ?_)
      rw [List.getD_eq_getElem _ _ hk']
      exact List.getElem_mem hk'
    · rw [hnew]
      exact hnewPart k hk

/-- The last scenario is added last. -/
theorem build_succ (master : Model (Exact F)) (weight : Nat → F) (recourse : Nat → Model (Exact F))
    (n : Nat) : build master ((List.range (n + 1)).map fun i => (.finite (weight i), recourse i)) =
      (build master ((List.range n).map fun i => (.finite (weight i), recourse i))).addScenario
        (.finite (weight n)) (recourse n) := by
  rw [List.range_succ, List.map_append, build, List.foldl_append]
  rfl

/-- All scenarios, one after the other. -/
theorem represents_build {master : Model (Exact F)} (hm : master.Coherent)
    (hown : master.decisionCount = 0) (weight : Nat → F) {recourse : Nat → Model (Exact F)} {n : Nat}
    (hsub : ∀ i < n, (recourse i).Coherent ∧
      (recourse i).decisionCount ≤ master.columns.length) :
    (build master ((List.range n).map fun i => (.finite (weight i), recourse i))).Represents
      master n weight recourse := by
  induction n with
  | zero => exact represents_ofMaster hm hown weight recourse
  | succ n ih =>
    have hlast := hsub n (by omega)
    rw [build_succ]
    exact (ih fun i hi => hsub i (by omega)).addScenario hlast.1 hlast.2

theorem proper_build {master : Model (Exact F)} (hm : master.Proper)
    (hown : master.decisionCount = 0) {weight : Nat → F} {recourse : Nat → Model (Exact F)} {n : Nat}
    (hsub : ∀ i < n, (recourse i).Proper ∧
      (recourse i).decisionCount ≤ master.columns.length) :
    (build master ((List.range n).map fun i => (.finite (weight i), recourse i))).model.Proper := by
  induction n with
  | zero => exact proper_ofMaster hm hown
  | succ n ih =>
    have hprefix := represents_build hm.coherent hown weight fun i (hi : i < n) =>
      ⟨(hsub i (by omega)).1.coherent, (hsub i (by omega)).2⟩
    have hlast := hsub n (by omega)
    rw [build_succ]
    exact hprefix.proper_addScenario hlast.2 (ih fun i hi => hsub i (by omega)) hlast.1 _

end ExtensiveForm

/-! ## The equivalent of a program -/

namespace Program

variable {σ : Type} {p : Program σ (Exact F)}

/-- The deterministic equivalent of a program that is built. -/
def equivalent (p : Program σ (Exact F)) : ExtensiveForm (Exact F) :=
  .build p.firstStage (p.probabilities.zip ((List.range p.scenarioCount).map p.recourse))

theorem equivalent_eq (hp : p.Coherent) : p.equivalent = .build p.firstStage
    ((List.range p.scenarioCount).map fun i => (.finite (p.weight i), p.recourse i)) := by
  have hprobabilities : p.probabilities =
      (List.range p.scenarioCount).map fun i => .finite (p.weight i) := by
    apply List.ext_getElem (by simp [length_probabilities])
    intro i h1 h2
    obtain ⟨s, hs, hprobability⟩ := List.mem_map.1 (List.getElem_mem h1)
    have hfinite : Scalar.isFinite p.probabilities[i] = true :=
      hprobability ▸ hp.probabilities s hs
    rw [List.getElem_map, List.getElem_range, weight, coord, List.getD_eq_getElem _ _ h1,
      Exact.finite_value hfinite]
  rw [equivalent, hprobabilities, List.zip_map']

theorem equivalent_represents (hp : p.Coherent) :
    p.equivalent.Represents p.firstStage p.scenarioCount p.weight p.recourse := by
  rw [equivalent_eq hp]
  exact ExtensiveForm.represents_build hp.first hp.own _ fun i hi =>
    ⟨hp.second i hi, hp.decisionCount_le hi⟩

theorem equivalent_proper (hp : p.Proper) : p.equivalent.model.Proper := by
  rw [equivalent_eq hp.coherent]
  exact ExtensiveForm.proper_build hp.first hp.own fun i hi =>
    ⟨hp.second i hi, hp.coherent.decisionCount_le hi⟩

/-- The loss of a point of the deterministic equivalent is that of its parts. -/
theorem lossAt_equivalent (hp : p.Coherent) (v : Nat → F) :
    p.lossAt v (fun i => p.equivalent.part i v) = p.equivalent.model.lossAt v := by
  have h := equivalent_represents hp
  rw [lossAt, Model.lossAt, h.goal, h.objective]
  rfl

/-- A point that fits the deterministic equivalent is a feasible plan of the same loss. -/
theorem feasible_of_equivalent (hp : p.Coherent) {v : Nat → F}
    (hv : p.equivalent.model.Fits v v) : p.Feasible v (fun i => p.equivalent.part i v) ∧
      p.lossAt v (fun i => p.equivalent.part i v) = p.equivalent.model.lossAt v := by
  obtain ⟨hfirst, hsecond⟩ := ((equivalent_represents hp).fits_iff v).1 hv
  exact ⟨⟨hfirst, hsecond⟩, lossAt_equivalent hp v⟩

/-- What a decision and the points for the scenarios mean depends on the columns there
are. -/
theorem feasible_congr (hp : p.Coherent) {x x' : Nat → F} {y y' : Nat → Nat → F}
    (hx : ∀ j < p.firstStage.columns.length, x j = x' j)
    (hy : ∀ i < p.scenarioCount, ∀ k < (p.recourse i).columns.length, y i k = y' i k)
    (h : p.Feasible x y) : p.Feasible x' y' :=
  ⟨hp.fits_congr hx h.first, fun i hi => (hp.second i hi).fits_congr
    (fun j hj => hx j (hj.trans_le (hp.decisionCount_le hi))) (hy i hi) (h.second i hi)⟩

theorem valueAt_congr (hp : p.Coherent) {x x' : Nat → F} {y y' : Nat → Nat → F}
    (hx : ∀ j < p.firstStage.columns.length, x j = x' j)
    (hy : ∀ i < p.scenarioCount, ∀ k < (p.recourse i).columns.length, y i k = y' i k) :
    p.valueAt x y = p.valueAt x' y' := by
  have hsum : ∀ i ∈ Finset.range p.scenarioCount,
      p.weight i * (p.recourse i).objectiveAt (y i) =
        p.weight i * (p.recourse i).objectiveAt (y' i) := fun i hi => by
    have hi := Finset.mem_range.1 hi
    rw [(hp.second i hi).objectiveAt_congr (hy i hi)]
  rw [valueAt, valueAt, Finset.sum_congr rfl hsum, hp.first.objectiveAt_congr hx]

/-- The placeholders of a feasible plan carry the decision. -/
theorem Feasible.placeholder (hp : p.Coherent) {x : Nat → F} {y : Nat → Nat → F}
    (h : p.Feasible x y) {i : Nat} (hi : i < p.scenarioCount) {k : Nat}
    (hk : k < (p.recourse i).columns.length) {j : Nat}
    (hj : (p.recourse i).columns[k].decision = some j) : y i k = x j := by
  have hadmits := (h.second i hi).columns _ (List.getElem_mem hk)
  rwa [Model.Admits, hj, (hp.second i hi).numbered k hk] at hadmits

/-- A feasible plan is a point of the deterministic equivalent with the same decision and of
the same loss. -/
theorem exists_equivalent (hp : p.Coherent) {x : Nat → F} {y : Nat → Nat → F}
    (hxy : p.Feasible x y) : ∃ v, (∀ j < p.firstStage.columns.length, v j = x j) ∧
      p.equivalent.model.Fits v v ∧ p.equivalent.model.lossAt v = p.lossAt x y := by
  have h := equivalent_represents hp
  obtain ⟨v, hv, hparts⟩ := h.reached x y fun i hi k hk j hj => hxy.placeholder hp hi hk hj
  have hfeasible : p.Feasible v fun i => p.equivalent.part i v :=
    feasible_congr hp (fun j hj => (hv j hj).symm) (fun i hi k hk => (hparts i hi k hk).symm) hxy
  refine ⟨v, hv, (h.fits_iff v).2 ⟨hfeasible.first, hfeasible.second⟩, ?_⟩
  rw [← lossAt_equivalent hp, lossAt, lossAt, valueAt_congr hp hv hparts]

end Program

end Recourse
