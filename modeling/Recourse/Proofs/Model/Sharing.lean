/-
  Proofs/Model/Sharing.lean --- rows that stand in a model, or in several, more than once.

  A row has one position, that of the last call that added it.  A `Shelf` holds several
  models; a row that is added to one of them is the same row in all of them.
  `Shelf.Stocked` relates a shelf to the calls that added rows, one case per call.  Every
  row is what the latest call for its identity made of it (`Shelf.Stocked.rows_eq`), so
  rows that were added once each stand at their positions, and then the matrix form and
  the terms of the decisions describe the rows in the order of the calls.  A row that was
  added to its model again has lost its position there.
-/
import Recourse.Proofs.Model.Compilation
import Mathlib.Data.List.Nodup

set_option autoImplicit false
set_option linter.unusedSectionVars false

namespace Recourse

variable {K : Type}

/-! ## Calls on a model -/

namespace Model

/-- The row that a call adds: it takes the next position, and the name if one is given. -/
def placed (m : Model K) (row : Row K) (name : Option String) : Row K :=
  { row with name := (givenName? name).or row.name, index := m.rowCount }

/-- A model once a row was placed: the rows of its identity are this row. -/
def renew (m : Model K) (row : Row K) : Model K :=
  { m with rows := m.rows.map fun r => if r.tag = row.tag then row else r }

theorem run_addRow (m : Model K) (row : Row K) (name : Option String) :
    (addRow row name).run m = (.ok (m.placed row name),
      { m with rows := (m.renew (m.placed row name)).rows ++ [m.placed row name] }) := rfl

theorem rows_addRow (m : Model K) (row : Row K) (name : Option String) :
    (m.after (addRow row name)).rows =
      (m.renew (m.placed row name)).rows ++ [m.placed row name] := rfl

variable [Scalar K]

/-- A call that adds no row, and what it makes of a model. -/
inductive Alters (m : Model K) : Model K → Prop where
  /-- A column. -/
  | column (lower upper : Numeral K) (name : Option String) :
      Alters m (m.after (addVariable lower upper name))
  /-- Several columns. -/
  | columns (count : Int) (lower upper : ColumnBounds K) (stem : String) :
      Alters m (m.after (addVariables count lower upper stem))
  /-- Placeholders. -/
  | decisions (handle : Decisions) : Alters m (m.after (addDecisions handle))
  /-- An objective. -/
  | objective (e : LinearExpr K) (goal : Goal) : Alters m (m.setObjective e goal)
  /-- A decision for later solves, or none. -/
  | fix {x : Option (List K)} {m' : Model K} (h : m.fixDecisions x = .ok m') : Alters m m'
  /-- A result. -/
  | load (r : SolveResult K) : Alters m (m.load r)
  /-- No result any more. -/
  | clear : Alters m m.clear

theorem rows_addVariable (m : Model K) (lower upper : Numeral K) (name : Option String) :
    (m.after (addVariable lower upper name)).rows = m.rows := by
  by_cases h : Scalar.less upper.value lower.value = true
  · rw [after, run_addVariable_of_less m lower upper name h]
  · rw [after, run_addVariable_of_not_less m lower upper name h]

theorem rows_addNumbered (m : Model K) (lower upper : ColumnBounds K) (stem : String)
    (is : List Nat) : (m.after (addNumbered lower upper stem is)).rows = m.rows := by
  induction is generalizing m with
  | nil => rfl
  | cons i rest ih =>
    rw [addNumbered, after_bind]
    by_cases h : Scalar.less (upper.at i) (lower.at i) = true
    · rw [run_addVariable_of_less m (.real (lower.at i)) (.real (upper.at i)) _ h]
    · rw [run_addVariable_of_not_less m (.real (lower.at i)) (.real (upper.at i)) _ h]
      simp only [after_map]
      exact ih _

theorem rows_addVariables (m : Model K) (count : Int) (lower upper : ColumnBounds K)
    (stem : String) : (m.after (addVariables count lower upper stem)).rows = m.rows := by
  unfold addVariables
  rw [after_ofExcept]
  cases lower.check "lb" count with
  | error f => rfl
  | ok _ =>
    simp only [after_ofExcept]
    cases upper.check "ub" count with
    | error f => rfl
    | ok _ =>
      by_cases hcount : count < 0
      · rw [if_pos hcount]
        rfl
      · rw [if_neg hcount]
        exact rows_addNumbered m lower upper stem _

theorem rows_addDecisions (m : Model K) (handle : Decisions) :
    (m.after (addDecisions handle)).rows = m.rows := by
  have hget : (get : ModelEdit K (Model K)).run m = (.ok m, m) := rfl
  rw [addDecisions, after_bind, hget]
  simp only
  by_cases hcount : m.decisionCount ≠ 0
  · rw [if_pos hcount]
    rfl
  · rw [if_neg hcount]
    rfl

theorem Alters.rows_eq {m m' : Model K} (h : m.Alters m') : m'.rows = m.rows := by
  cases h with
  | column lower upper name => exact rows_addVariable m lower upper name
  | columns count lower upper stem => exact rows_addVariables m count lower upper stem
  | decisions handle => exact rows_addDecisions m handle
  | objective e goal => rfl
  | fix h =>
    rename_i x
    cases x with
    | none => cases h; rfl
    | some x =>
      obtain ⟨_, -, h⟩ := bind_eq_ok_iff.1 h
      cases h
      rfl
  | load r => rfl
  | clear => rfl

end Model

/-! ## Models that share rows -/

/-- Several models by number.  A row may stand in more than one of them. -/
abbrev Shelf (K : Type) : Type := Nat → Model K

namespace Shelf

/-- Add a row to one of the models.  In the others, too, it is now this row. -/
def addRow (s : Shelf K) (k : Nat) (row : Row K) (name : Option String) : Shelf K :=
  Function.update (fun j => (s j).renew ((s k).placed row name)) k
    ((s k).after (Model.addRow row name))

variable [Scalar K]

/-- Add several rows to one of the models. -/
def addRows (s : Shelf K) (k : Nat) : List (Row K) → Shelf K
  | [] => s
  | r :: rs => (s.addRow k r none).addRows k rs

theorem addRow_self (s : Shelf K) (k : Nat) (row : Row K) (name : Option String) :
    s.addRow k row name k = (s k).after (Model.addRow row name) := Function.update_self ..

/-- The model itself is changed as the call for several rows changes it. -/
theorem addRows_self (s : Shelf K) (k : Nat) (rows : List (Row K)) :
    s.addRows k rows k = (s k).after (Model.addRows rows) := by
  induction rows generalizing s with
  | nil => rfl
  | cons r rs ih =>
    rw [addRows, ih, addRow_self, Model.addRows, Model.after_bind, Model.run_addRow]
    exact (Model.after_map _ (Model.addRows rs) _).symm

/-- The rows of every model are renewed, and the row is appended to the one it is added to. -/
theorem rows_addRow (s : Shelf K) (k : Nat) (row : Row K) (name : Option String) (j : Nat) :
    (s.addRow k row name j).rows =
      ((s j).renew ((s k).placed row name)).rows ++
        if k = j then [(s k).placed row name] else [] := by
  unfold addRow
  by_cases hj : j = k
  · subst hj
    rw [Function.update_self, if_pos rfl, Model.rows_addRow]
  · rw [Function.update_of_ne hj, if_neg (Ne.symm hj), List.append_nil]

/-- A call for a row leaves every row of another identity where and as it was, in every
model. -/
theorem getElem?_rows_addRow (s : Shelf K) (k : Nat) (row : Row K) (name : Option String)
    {j i : Nat} (hi : i < (s j).rows.length) (hrow : (s j).rows[i].tag ≠ row.tag) :
    (s.addRow k row name j).rows[i]? = some (s j).rows[i] := by
  rw [rows_addRow, List.getElem?_append_left (by simpa [Model.renew] using hi), Model.renew,
    List.getElem?_map, List.getElem?_eq_getElem hi]
  exact congrArg some (if_neg hrow)

/-! ## The calls that added rows -/

/-- A row that a call added, and the model it was added to. -/
structure Addition (K : Type) where
  /-- Number of the model. -/
  model : Nat
  /-- The row as it was placed. -/
  row : Row K

/-- The rows that were added to a model, as they were placed. -/
def rowsOf (calls : List (Addition K)) (k : Nat) : List (Row K) :=
  (calls.filter fun c => c.model = k).map (·.row)

/-- What became of a row: the latest call for its identity placed it. -/
def latest (calls : List (Addition K)) (r : Row K) : Row K :=
  (((calls.map (·.row)).filter fun c => c.tag = r.tag).getLast?).getD r

/-- A shelf and the calls that added rows to its models, call by call. -/
inductive Stocked : Shelf K → List (Addition K) → Prop where
  /-- New models. -/
  | empty (names : Nat → String) : Stocked (fun k => .empty (names k)) []
  /-- A call that adds no row. -/
  | alter {s : Shelf K} {calls : List (Addition K)} (h : Stocked s calls) {k : Nat}
      {m : Model K} (hm : (s k).Alters m) : Stocked (Function.update s k m) calls
  /-- A call for a row, which may stand in this model or in another one already. -/
  | row {s : Shelf K} {calls : List (Addition K)} (h : Stocked s calls) (k : Nat) (row : Row K)
      (name : Option String) :
      Stocked (s.addRow k row name) (calls ++ [⟨k, (s k).placed row name⟩])

/-- A call for several rows is a call for each of them. -/
theorem Stocked.rows {s : Shelf K} {calls : List (Addition K)} (h : Stocked s calls) (k : Nat)
    (rows : List (Row K)) : ∃ more, Stocked (s.addRows k rows) (calls ++ more) ∧
      more.map (fun c => (c.model, c.row.tag)) = rows.map fun r => (k, r.tag) := by
  induction rows generalizing s calls with
  | nil => exact ⟨[], by rwa [List.append_nil], rfl⟩
  | cons r rs ih =>
    obtain ⟨more, hmore, htags⟩ := ih (h.row k r none)
    rw [List.append_assoc] at hmore
    exact ⟨_ :: more, hmore, by rw [List.map_cons, htags]; rfl⟩

section Calls

variable {calls : List (Addition K)}

theorem rowsOf_append (calls more : List (Addition K)) (k : Nat) :
    rowsOf (calls ++ more) k = rowsOf calls k ++ rowsOf more k := by
  rw [rowsOf, List.filter_append, List.map_append]
  rfl

theorem rowsOf_singleton (k : Nat) (r : Row K) (j : Nat) :
    rowsOf [⟨k, r⟩] j = if k = j then [r] else [] := by
  by_cases h : k = j <;> simp [rowsOf, h]

theorem mem_rowsOf {k : Nat} {r : Row K} : r ∈ rowsOf calls k ↔ ⟨k, r⟩ ∈ calls := by
  rw [rowsOf, List.mem_map]
  constructor
  · rintro ⟨c, hc, rfl⟩
    obtain ⟨hc, hk⟩ := List.mem_filter.1 hc
    rw [← of_decide_eq_true hk]
    exact hc
  · exact fun h => ⟨_, List.mem_filter.2 ⟨h, decide_eq_true rfl⟩, rfl⟩

theorem latest_append (calls : List (Addition K)) (k : Nat) (p r : Row K) :
    latest (calls ++ [⟨k, p⟩]) r = if r.tag = p.tag then p else latest calls r := by
  unfold latest
  rw [List.map_append, List.filter_append]
  by_cases h : r.tag = p.tag
  · simp [h]
  · simp [h, Ne.symm h]

theorem tag_latest (calls : List (Addition K)) (r : Row K) : (latest calls r).tag = r.tag := by
  unfold latest
  cases h : ((calls.map (·.row)).filter fun c => c.tag = r.tag).getLast? with
  | none => rfl
  | some c =>
    obtain ⟨-, hc⟩ := List.mem_filter.1 (List.mem_of_getLast? h)
    exact of_decide_eq_true hc

/-- Rows of one identity became the same row. -/
theorem latest_eq {r r' : Row K} (h : r.tag = r'.tag) {k : Nat} (hr : r ∈ rowsOf calls k) :
    latest calls r = latest calls r' := by
  have hmem : r ∈ (calls.map (·.row)).filter fun c => c.tag = r.tag :=
    List.mem_filter.2 ⟨List.mem_map.2 ⟨_, mem_rowsOf.1 hr, rfl⟩, decide_eq_true rfl⟩
  unfold latest
  rw [← h]
  cases hlast : ((calls.map (·.row)).filter fun c => c.tag = r.tag).getLast? with
  | none => rw [List.getLast?_eq_none_iff.1 hlast] at hmem; cases hmem
  | some c => rfl

/-- A row is as it was placed if no later call was for its identity. -/
theorem latest_of_pairwise {k : Nat}
    (h : calls.Pairwise fun a b => a.model = k → a.row.tag ≠ b.row.tag) {r : Row K}
    (hr : r ∈ rowsOf calls k) : latest calls r = r := by
  obtain ⟨before, later, rfl⟩ := List.append_of_mem (mem_rowsOf.1 hr)
  have hlater : ∀ c ∈ later, c.row.tag ≠ r.tag := fun c hc =>
    ((List.pairwise_cons.1 (List.pairwise_append.1 h).2.1).1 c hc rfl).symm
  have hnone : (later.map (·.row)).filter (fun c => decide (c.tag = r.tag)) = [] := by
    rw [List.filter_eq_nil_iff]
    intro c hc
    obtain ⟨c', hc', rfl⟩ := List.mem_map.1 hc
    exact fun h => hlater c' hc' (of_decide_eq_true h)
  unfold latest
  rw [List.map_append, List.map_cons, List.filter_append, List.filter_cons_of_pos (by simp), hnone,
    List.getLast?_append_of_ne_nil _ (List.cons_ne_nil _ _)]
  rfl

end Calls

namespace Stocked

variable {s : Shelf K} {calls : List (Addition K)}

/-- Every row is what the latest call for its identity made of it. -/
theorem rows_eq (h : Stocked s calls) (k : Nat) :
    (s k).rows = (rowsOf calls k).map (latest calls) := by
  induction h with
  | empty names => rfl
  | @alter s calls h j m hm ih =>
    by_cases hk : k = j
    · subst hk
      rw [Function.update_self, hm.rows_eq, ih]
    · rw [Function.update_of_ne hk, ih]
  | @row s calls h j row name ih =>
    have hnew : latest (calls ++ [⟨j, (s j).placed row name⟩]) ((s j).placed row name) =
        (s j).placed row name := by rw [latest_append, if_pos rfl]
    rw [rows_addRow, rowsOf_append, rowsOf_singleton, List.map_append, Model.renew, ih,
      List.map_map]
    congr 1
    · refine List.map_congr_left fun r _ => ?_
      rw [latest_append, Function.comp_apply, tag_latest]
    · split
      · rw [List.map_singleton, hnew]
      · rfl

/-- A row is placed after the rows that were added to its model before it. -/
theorem index_eq (h : Stocked s calls) (k : Nat) {i : Nat} (hi : i < (rowsOf calls k).length) :
    (rowsOf calls k)[i].index = (i : Int) := by
  induction h with
  | empty names => exact absurd hi (Nat.not_lt_zero i)
  | alter h hm ih => exact ih hi
  | @row s calls h j row name ih =>
    simp only [rowsOf_append, rowsOf_singleton, List.getElem_append]
    split
    · exact ih _
    · rename_i hlt
      rw [rowsOf_append, rowsOf_singleton, List.length_append] at hi
      split at hi
      · rename_i hj
        subst hj
        have hcount : (s j).rowCount = (rowsOf calls j).length := by
          rw [Model.rowCount, h.rows_eq, List.length_map]
        rw [List.length_singleton] at hi
        obtain rfl : i = (rowsOf calls j).length := by omega
        simp [Model.placed, hcount]
      · exact absurd hi hlt

/-- Rows of one identity are one row, wherever they stand. -/
theorem row_ext (h : Stocked s calls) {j k : Nat} {r r' : Row K} (hr : r ∈ (s j).rows)
    (hr' : r' ∈ (s k).rows) (htag : r.tag = r'.tag) : r = r' := by
  rw [h.rows_eq] at hr hr'
  obtain ⟨c, hc, rfl⟩ := List.mem_map.1 hr
  obtain ⟨c', -, rfl⟩ := List.mem_map.1 hr'
  rw [tag_latest, tag_latest] at htag
  exact latest_eq htag hc

end Stocked

end Shelf

/-! ## Models that describe their rows -/

namespace Model

variable [Scalar K]

/-- The terms of a row that mention decisions: decision and coefficient. -/
def decisionTerms (m : Model K) (r : Row K) : List (Nat × K) :=
  r.expr.sortedTerms.filterMap fun t =>
    match m.position? t.1 with
    | some j => if Scalar.isZero t.2 then none else some (j, t.2)
    | none => none

/-- The terms of the decisions are listed row by row, under the position each row carries. -/
theorem masterTerms_eq (m : Model K) :
    m.masterTerms = m.rows.flatMap fun r => (m.decisionTerms r).map fun t => (r.index, t) := by
  refine List.flatMap_congr fun r _ => ?_
  rw [decisionTerms, List.map_filterMap]
  refine List.filterMap_congr fun t _ => ?_
  cases m.position? t.1 with
  | none => rfl
  | some j => cases Scalar.isZero t.2 <;> simp

/-- A model describes rows: the `i`-th one is its `i`-th row, in all its views. -/
structure Describes (m : Model K) (added : List (Row K)) : Prop where
  /-- It has these rows in this order. -/
  rows : m.rows = added
  /-- They carry their positions. -/
  positions : ∀ i (hi : i < m.rows.length), m.rows[i].index = (i : Int)
  /-- No two of them carry the same one. -/
  distinct : (m.rows.map (·.index)).Nodup
  /-- So does its matrix form at every decision. -/
  form : ∀ d f, m.standardForm d = .ok f → f.rows = added.map (·.expr.terms) ∧
    f.rightHandSide = added.map (fun r => r.bound - r.expr.constant) ∧
    f.relations = added.map (·.relation)
  /-- The terms of the decisions are listed row by row, under the positions of the rows. -/
  terms : m.masterTerms = added.zipIdx.flatMap fun p =>
    (m.decisionTerms p.1).map fun t => ((p.2 : Int), t)

/-- A model describes its rows if they carry their positions. -/
theorem describes_of_positions {m : Model K}
    (h : ∀ i (hi : i < m.rows.length), m.rows[i].index = (i : Int)) : m.Describes m.rows where
  rows := rfl
  positions := h
  distinct := by
    rw [List.nodup_iff_injective_get]
    intro i j hij
    have hi : i.1 < m.rows.length := by simpa using i.2
    have hj : j.1 < m.rows.length := by simpa using j.2
    simp only [List.get_eq_getElem, List.getElem_map, h i.1 hi, h j.1 hj] at hij
    exact Fin.ext (Int.ofNat_inj.1 hij)
  form := by
    intro d f hf
    obtain ⟨-, y, -, rfl⟩ := standardForm_eq_ok hf
    refine ⟨?_, rfl, rfl⟩
    show m.matrix = _
    rw [matrix, if_pos (isAligned_of_index h)]
  terms := by
    rw [masterTerms_eq]
    conv_lhs => rw [← List.zipIdx_map_fst 0 m.rows, List.flatMap_map]
    refine List.flatMap_congr fun p hp => ?_
    obtain ⟨hi, hp⟩ := List.getElem?_eq_some_iff.1 (List.mk_mem_zipIdx_iff_getElem?.1 hp)
    rw [← hp, h p.2 hi]

end Model

/-! ## What becomes of rows -/

variable [Scalar K]

/-- What a call for a row does to the others.  A row of another identity keeps its place, its
position and all it says, in whatever model it stands.  Every row of every model is what the
latest call for its identity made of it, so rows that were added to a model twice share one
position there; and a model none of whose rows was added again later, to it or to another
model, describes them in the order of the calls. -/
theorem Shelf.Stocked.rows_stand {s : Shelf K} {calls : List (Shelf.Addition K)}
    (h : Shelf.Stocked s calls) (k : Nat) :
    (∀ (j : Nat) (row : Row K) (name : Option String) (i : Nat) (hi : i < (s k).rows.length),
      (s k).rows[i].tag ≠ row.tag → (s.addRow j row name k).rows[i]? = some (s k).rows[i]) ∧
    (s k).rows = (Shelf.rowsOf calls k).map (Shelf.latest calls) ∧
    (((s k).rows.map (·.index)).Nodup → ((Shelf.rowsOf calls k).map (·.tag)).Nodup) ∧
    ((calls.Pairwise fun a b => a.model = k → a.row.tag ≠ b.row.tag) →
      (s k).Describes (Shelf.rowsOf calls k)) := by
  refine ⟨fun j row name i hi hrow => s.getElem?_rows_addRow j row name hi hrow, h.rows_eq k,
    fun hdistinct => ?repeated, fun hlast => ?described⟩
  case repeated =>
    have htags : (s k).rows.map (·.tag) = (Shelf.rowsOf calls k).map (·.tag) := by
      rw [h.rows_eq k, List.map_map]
      exact List.map_congr_left fun r _ => Shelf.tag_latest calls r
    rw [← htags, List.Nodup, List.pairwise_map]
    refine (List.pairwise_map.1 hdistinct).imp_of_mem fun hr hr' hindex htag => hindex ?_
    rw [h.row_ext hr hr' htag]
  case described =>
    have hrows : (s k).rows = Shelf.rowsOf calls k := by
      rw [h.rows_eq k]
      exact (List.map_congr_left fun r hr => Shelf.latest_of_pairwise hlast hr).trans
        (List.map_id _)
    rw [← hrows]
    refine Model.describes_of_positions fun i hi => ?_
    simp only [hrows]
    exact h.index_eq k (hrows ▸ hi)

namespace Shelf

/-- Drafts, the first of which has a placeholder. -/
def drafts : Shelf (Exact ℚ) :=
  Function.update (fun _ => .empty "draft") 0
    ((Model.empty "draft").after (Model.addDecisions ⟨["x"]⟩))

theorem stocked_drafts : Stocked drafts [] := (Stocked.empty fun _ => "draft").alter (.decisions _)

/-- A limit on the first column. -/
def limit (tag : Nat) (relation : Relation) (bound : ℚ) : Row (Exact ℚ) :=
  Row.compare tag ⟨[(0, .finite 1)], .finite 0, []⟩ relation ⟨[], .finite bound, []⟩

/-- Two limits in one draft and a third one in another stand where they were added. -/
theorem rows_stand_limits : ∃ (s : Shelf (Exact ℚ)) (calls : List (Addition (Exact ℚ))),
    Stocked s calls ∧ calls.map (fun c => (c.model, c.row.tag)) = [(0, 1), (1, 2), (0, 3)] ∧
    (s 0).Describes (rowsOf calls 0) := by
  have h := ((stocked_drafts.row 0 (limit 1 .atMost 10) none).row 1 (limit 2 .equal 4) none).row 0
    (limit 3 .atLeast 2) (some "least")
  exact ⟨_, _, h, by decide +kernel, (h.rows_stand 0).2.2.2 (by decide +kernel)⟩

/-- A limit that is added twice takes the position of the second time both times: the matrix
holds it doubled there and nothing at its first position, and the limits are still two.  A
limit that is added to another draft loses its position in the first one. -/
theorem limit_twice_disturbs :
    (∃ (s : Shelf (Exact ℚ)) (calls : List (Addition (Exact ℚ))), Stocked s calls ∧
      calls.map (fun c => (c.model, c.row.tag)) = [(0, 1), (0, 1)] ∧
      (s 0).rows.map (·.index) = [1, 1] ∧
      (s 0).masterTerms = [(1, 0, .finite 1), (1, 0, .finite 1)] ∧
      ∃ f, (s 0).standardForm (some [.finite 3]) = .ok f ∧ f.rows = [[], [(0, .finite 2)]] ∧
        f.rightHandSide = [.finite 10, .finite 10] ∧ f.relations = [.atMost, .atMost]) ∧
    ∃ (s : Shelf (Exact ℚ)) (calls : List (Addition (Exact ℚ))), Stocked s calls ∧
      calls.map (fun c => (c.model, c.row.tag)) = [(0, 1), (1, 2), (1, 1)] ∧
      (s 0).rows.map (·.index) = [1] := by
  have once := stocked_drafts.row 0 (limit 1 .atMost 10) none
  have twice := once.row 0 (limit 1 .atMost 10) none
  have elsewhere := (once.row 1 (limit 2 .equal 4) none).row 1 (limit 1 .atMost 10) none
  exact ⟨⟨_, _, twice, by decide +kernel, by decide +kernel, by decide +kernel, _, rfl,
    by decide +kernel, by decide +kernel, by decide +kernel⟩,
    _, _, elsewhere, by decide +kernel, by decide +kernel⟩

end Shelf

end Recourse
