/-
  Proofs/Model/Compilation.lean --- a model means what was written.

  `Written` records what a series of calls wrote down: the columns that were declared, the
  comparisons that were added and the objective.  `Built` relates a model to such a
  record, one case per call, refused calls included.  `Built.carries` says what the model
  holds of the record, and `Built.standardForm_means` that its matrix form at a decision
  has the same solutions: a point satisfies the form exactly if it keeps to the declared
  bounds, carries the decision at the placeholders and makes every comparison true, its
  sides worked out by ordinary arithmetic.
-/
import Recourse.Proofs.Model.Expression
import Recourse.Proofs.Model.Form
import Mathlib.Data.Rat.Floor

set_option autoImplicit false
set_option linter.unusedSectionVars false

namespace Recourse

/-! ## Comparisons as they are written -/

/-- How the sides of a comparison are related. -/
inductive Comparator where
  /-- At most. -/
  | atMost
  /-- At least. -/
  | atLeast
  /-- Equal. -/
  | equal
  deriving DecidableEq, Repr

/-- A comparison as it is written. -/
structure Comparison (K : Type) where
  /-- Left side. -/
  left : Term K
  /-- How the sides are related. -/
  comparator : Comparator
  /-- Right side. -/
  right : Term K

/-- Whether two numbers stand in a relation. -/
def Relation.compares {K : Type} [Scalar K] : Relation → K → K → Bool
  | .atMost, x, y => Scalar.atMost x y
  | .atLeast, x, y => Scalar.atMost y x
  | .equal, x, y => Scalar.same x y
  | .other _, _, _ => false

namespace Comparator

/-- The operator of the library. -/
def operator : Comparator → Operator
  | .atMost => .atMost
  | .atLeast => .atLeast
  | .equal => .equal

/-- The relation of numbers it stands for. -/
def relation : Comparator → Relation
  | .atMost => .atMost
  | .atLeast => .atLeast
  | .equal => .equal

/-- The comparator read from the right. -/
def turned : Comparator → Comparator
  | .atMost => .atLeast
  | .atLeast => .atMost
  | .equal => .equal

end Comparator

namespace Comparison

variable {K : Type} [Scalar K]

/-- Work a comparison out; a row where a side mentions a column. -/
def compile (tag : Nat) (c : Comparison K) : Except (Fault K) (Quantity K) := do
  c.comparator.operator.onQuantities tag (← c.left.compile) (← c.right.compile)

/-- Whether a comparison is true at a point. -/
def holds (c : Comparison K) (p : Nat → K) : Bool :=
  c.comparator.relation.compares (c.left.eval p) (c.right.eval p)

/-- The columns a comparison mentions. -/
def columns (c : Comparison K) : List (Variable K) := c.left.columns ++ c.right.columns

/-- Whether every number that is written is finite. -/
def isFinite (c : Comparison K) : Bool := c.left.isFinite && c.right.isFinite

end Comparison

/-! ## What was written -/

/-- What is declared of a column. -/
inductive Declaration (K : Type) where
  /-- It lies between two bounds. -/
  | between (lower upper : K)
  /-- It stands for a decision. -/
  | decision (j : Nat)

/-- What a series of calls wrote down. -/
structure Written (K : Type) where
  /-- The columns, in order. -/
  declarations : List (Declaration K)
  /-- The comparisons, in order. -/
  comparisons : List (Comparison K)
  /-- The objective, if one was set. -/
  objective : Option (Term K)
  /-- Its sense. -/
  goal : Goal

namespace Declaration

variable {K : Type} [Scalar K]

/-- Whether a number keeps to a declaration at a decision. -/
def admits (x : List K) (a : K) : Declaration K → Bool
  | .between lower upper => Scalar.atMost lower a && Scalar.atMost a upper
  | .decision j => Scalar.same a (x.getD j Scalar.undefined)

/-- Whether it stands for a decision. -/
def isDecision : Declaration K → Bool
  | .between _ _ => false
  | .decision _ => true

/-- A call for one column declares it, unless the bounds are crossed. -/
def ofVariable (lower upper : K) : List (Declaration K) :=
  if Scalar.less upper lower then [] else [.between lower upper]

/-- A call for several columns declares them up to the first whose bounds are crossed. -/
def ofNumbered (lower upper : Model.ColumnBounds K) : List Nat → List (Declaration K)
  | [] => []
  | i :: rest =>
      if Scalar.less (upper.at i) (lower.at i) then []
      else .between (lower.at i) (upper.at i) :: ofNumbered lower upper rest

/-- Whether bounds are there for as many columns. -/
def covers (count : Int) : Model.ColumnBounds K → Bool
  | .shared _ => true
  | .each xs => decide ((xs.length : Int) = count)

/-- A call for several columns needs as many bounds. -/
def ofVariables (count : Int) (lower upper : Model.ColumnBounds K) : List (Declaration K) :=
  if covers count lower && covers count upper && decide (0 ≤ count) then
    ofNumbered lower upper (List.range count.toNat)
  else []

/-- The first call for decisions declares them. -/
def ofDecisions (before : List (Declaration K)) (count : Nat) : List (Declaration K) :=
  if before.any isDecision then [] else (List.range count).map .decision

end Declaration

namespace Written

variable {K : Type} [Scalar K]

/-- Nothing. -/
def nothing : Written K := ⟨[], [], none, .minimize⟩

/-- Declare further columns. -/
def declare (w : Written K) (new : List (Declaration K)) : Written K :=
  { w with declarations := w.declarations ++ new }

theorem declare_declare (w : Written K) (new more : List (Declaration K)) :
    (w.declare new).declare more = w.declare (new ++ more) := by
  rw [declare, declare, declare, List.append_assoc]

/-- Add a comparison. -/
def compare (w : Written K) (c : Comparison K) : Written K :=
  { w with comparisons := w.comparisons ++ [c] }

/-- Set the objective. -/
def optimize (w : Written K) (t : Term K) (goal : Goal) : Written K :=
  { w with objective := some t, goal }

/-- The value of the objective at a point, zero where none was set. -/
def objectiveAt (w : Written K) (p : Nat → K) : K :=
  match w.objective with
  | some t => t.eval p
  | none => 0

/-- A point keeps to the declarations at a decision and makes every comparison true. -/
structure SatisfiedBy (w : Written K) (x : List K) (p : Nat → K) : Prop where
  /-- Every declaration. -/
  declarations : ∀ j (hj : j < w.declarations.length), w.declarations[j].admits x (p j) = true
  /-- Every comparison. -/
  comparisons : ∀ c ∈ w.comparisons, c.holds p = true

end Written

/-- The model after an edit, which may have been refused midway. -/
def Model.after {K α : Type} (m : Model K) (edit : ModelEdit K α) : Model K := (edit.run m).2

/-- A model and what was written to build it, call by call. -/
inductive Built {K : Type} [Scalar K] : Model K → Written K → Prop where
  /-- A new model. -/
  | empty (name : String) : Built (.empty name) .nothing
  /-- A column. -/
  | column {m : Model K} {w : Written K} (h : Built m w) (lower upper : Numeral K)
      (name : Option String) :
      Built (m.after (Model.addVariable lower upper name))
        (w.declare (Declaration.ofVariable lower.value upper.value))
  /-- Several columns. -/
  | columns {m : Model K} {w : Written K} (h : Built m w) (count : Int)
      (lower upper : Model.ColumnBounds K) (stem : String) :
      Built (m.after (Model.addVariables count lower upper stem))
        (w.declare (Declaration.ofVariables count lower upper))
  /-- Placeholders. -/
  | decisions {m : Model K} {w : Written K} (h : Built m w) (handle : Decisions) :
      Built (m.after (Model.addDecisions handle))
        (w.declare (Declaration.ofDecisions w.declarations handle.names.length))
  /-- A row from a comparison of its own, over the columns of the model. -/
  | row {m : Model K} {w : Written K} (h : Built m w) {c : Comparison K} {tag : Nat} {r : Row K}
      (hrow : c.compile tag = .ok (.row r)) (hcolumns : ∀ v ∈ c.columns, v ∈ m.columns)
      (hfresh : ∀ r' ∈ m.rows, r'.tag ≠ r.tag) (name : Option String) :
      Built (m.after (Model.addRow r name)) (w.compare c)
  /-- An objective over the columns of the model. -/
  | objective {m : Model K} {w : Written K} (h : Built m w) {t : Term K} {q : Quantity K}
      {e : LinearExpr K} (hq : t.compile = .ok q) (he : q.toLinear = .ok e)
      (hcolumns : ∀ v ∈ t.columns, v ∈ m.columns) (goal : Goal) :
      Built (m.setObjective e goal) (w.optimize t goal)

/-! ## What a model holds -/

section Carries

variable {K : Type} [Scalar K]

/-- What is declared of a column, read off the column. -/
def Declaration.ofColumn (c : Variable K) : Declaration K :=
  match c.decision with
  | some j => .decision j
  | none => .between c.lower c.upper

/-- A row that stands for a comparison over the first `n` columns. -/
structure Row.StandsFor (r : Row K) (c : Comparison K) (n : Nat) : Prop where
  /-- It is what the comparison compiles to, up to its name and its place. -/
  compiled : ∃ tag r', c.compile tag = .ok (.row r') ∧ r.expr = r'.expr ∧
    r.relation = r'.relation ∧ r.bound = r'.bound
  /-- The comparison mentions no other columns. -/
  columns : ∀ v ∈ c.columns, v.index < n

/-- A model holds what was written. -/
structure Model.Carries (m : Model K) (w : Written K) : Prop where
  /-- Columns stand at their positions. -/
  numbered : ∀ i (h : i < m.columns.length), m.columns[i].index = i
  /-- They are the declared ones. -/
  declarations : m.columns.map .ofColumn = w.declarations
  /-- The placeholders stand for the decisions in order. -/
  placeholders : m.columns.filterMap (·.decision) = List.range m.decisionCount
  /-- Rows stand at their positions. -/
  aligned : ∀ i (h : i < m.rows.length), m.rows[i].index = (i : Int)
  /-- They are the comparisons. -/
  rows : List.Forall₂ (fun r c => r.StandsFor c m.columns.length) m.rows w.comparisons
  /-- The objective is the one that was set. -/
  objective : ∀ e, m.objective? = some e → ∃ t q, w.objective = some t ∧ t.compile = .ok q ∧
    q.toLinear = .ok e ∧ ∀ v ∈ t.columns, v.index < m.columns.length
  /-- None was set where there is none. -/
  objective_none : m.objective? = none → w.objective = none
  /-- So is its sense. -/
  goal : m.goal = w.goal

/-! ### Columns -/

theorem Model.decisionCount_eq (m : Model K) :
    m.decisionCount = (m.columns.filterMap (·.decision)).length := by
  simp only [Model.decisionCount, Variable.isDecision]
  induction m.columns with
  | nil => rfl
  | cons c rest ih => cases hc : c.decision <;> simp [hc, ih]

namespace Model

variable {m : Model K} {w : Written K}

/-- A model with further columns holds what was written and their declarations. -/
theorem Carries.addColumns (h : m.Carries w) {new : List (Variable K)}
    (hnumbered : ∀ i (hi : i < new.length), new[i].index = m.columns.length + i)
    (hplaceholders : m.columns.filterMap (·.decision) ++ new.filterMap (·.decision) =
      List.range (m.decisionCount + (new.filterMap (·.decision)).length)) :
    ({ m with columns := m.columns ++ new } : Model K).Carries
      (w.declare (new.map .ofColumn)) where
  numbered := by
    intro i hi
    simp only [List.getElem_append]
    split
    · exact h.numbered i _
    · rw [hnumbered]
      omega
  declarations := by rw [Written.declare, List.map_append, h.declarations]
  placeholders := by
    rw [decisionCount_eq, List.filterMap_append, hplaceholders, List.length_range]
  aligned := h.aligned
  rows := by
    refine h.rows.imp fun r c hr => ⟨hr.compiled, fun v hv => ?_⟩
    rw [List.length_append]
    exact (hr.columns v hv).trans_le (Nat.le_add_right _ _)
  objective := by
    intro e he
    obtain ⟨t, q, ht, hq, he, hcolumns⟩ := h.objective e he
    refine ⟨t, q, ht, hq, he, fun v hv => ?_⟩
    rw [List.length_append]
    exact (hcolumns v hv).trans_le (Nat.le_add_right _ _)
  objective_none := h.objective_none
  goal := h.goal

/-- The column that is appended. -/
def column (m : Model K) (lower upper : K) (name : Option String) : Variable K :=
  { index := m.columns.length, lower, upper, name, decision := none }

/-- An edit is carried on where it was not refused. -/
theorem after_bind {α β : Type} (m : Model K) (edit : ModelEdit K α) (next : α → ModelEdit K β) :
    m.after (edit >>= next) =
      match edit.run m with
      | (.ok a, m') => m'.after (next a)
      | (.error _, m') => m' := by
  have hrun : (edit >>= next).run m = match edit.run m with
      | (.ok a, m') => (next a).run m'
      | (.error f, m') => (.error f, m') := by
    show (ExceptT.bindCont next (edit.run m).1).run (edit.run m).2 = _
    rcases edit.run m with ⟨_ | _, _⟩ <;> rfl
  rw [after, hrun]
  rcases edit.run m with ⟨_ | _, _⟩ <;> rfl

theorem after_map {α β : Type} (m : Model K) (edit : ModelEdit K α) (f : α → β) :
    m.after (do return f (← edit)) = m.after edit := by
  rw [after_bind, after]
  rcases edit.run m with ⟨_ | _, _⟩ <;> rfl

/-- A column whose bounds are crossed is refused. -/
theorem run_addVariable_of_less (m : Model K) (lower upper : Numeral K) (name : Option String)
    (h : Scalar.less upper.value lower.value = true) :
    (addVariable lower upper name).run m =
      (.error (.invalid (.variableBounds lower upper name)), m) := by
  unfold addVariable
  rw [if_pos h]
  rfl

/-- Any other column is appended. -/
theorem run_addVariable_of_not_less (m : Model K) (lower upper : Numeral K) (name : Option String)
    (h : ¬ Scalar.less upper.value lower.value = true) :
    (addVariable lower upper name).run m = (.ok (m.column lower.value upper.value name),
      { m with columns := m.columns ++ [m.column lower.value upper.value name] }) := by
  unfold addVariable
  rw [if_neg h]
  rfl

theorem Carries.addColumn (h : m.Carries w) (lower upper : K) (name : Option String) :
    ({ m with columns := m.columns ++ [m.column lower upper name] } : Model K).Carries
      (w.declare [.between lower upper]) := by
  refine h.addColumns ?_ ?_
  · intro i hi
    rw [List.length_singleton] at hi
    obtain rfl : i = 0 := by omega
    rfl
  · simp [column, h.placeholders]

theorem Carries.declare_nil (h : m.Carries w) : m.Carries (w.declare []) := by
  simpa [Written.declare] using h

theorem Carries.addVariable (h : m.Carries w) (lower upper : Numeral K) (name : Option String) :
    (m.after (Model.addVariable lower upper name)).Carries
      (w.declare (Declaration.ofVariable lower.value upper.value)) := by
  unfold Declaration.ofVariable
  split
  case isTrue hless =>
    rw [after, run_addVariable_of_less m lower upper name hless]
    exact h.declare_nil
  case isFalse hless =>
    rw [after, run_addVariable_of_not_less m lower upper name hless]
    exact h.addColumn lower.value upper.value name

theorem Carries.addNumbered (h : m.Carries w) (lower upper : ColumnBounds K) (stem : String)
    (is : List Nat) :
    (m.after (Model.addNumbered lower upper stem is)).Carries
      (w.declare (Declaration.ofNumbered lower upper is)) := by
  induction is generalizing m w with
  | nil => exact h.declare_nil
  | cons i rest ih =>
    rw [Model.addNumbered, after_bind, Declaration.ofNumbered]
    by_cases hless : Scalar.less (upper.at i) (lower.at i) = true
    · rw [run_addVariable_of_less m (.real (lower.at i)) (.real (upper.at i)) _ hless, if_pos hless]
      exact h.declare_nil
    · rw [run_addVariable_of_not_less m (.real (lower.at i)) (.real (upper.at i)) _ hless,
        if_neg hless]
      have hrest := ih (h.addColumn (lower.at i) (upper.at i) (some (stem ++ s!"_{i}")))
      rw [Written.declare_declare] at hrest
      simp only [after_map]
      exact hrest

theorem check_settles (label : String) (count : Int) (b : ColumnBounds K) :
    Settles (b.check label count) (fun _ => Declaration.covers count b = true)
      (fun _ => Declaration.covers count b = false) := by
  cases b with
  | shared x => rfl
  | each xs =>
    show Settles (if (xs.length : Int) = count then _ else _) _ _
    by_cases h : (xs.length : Int) = count
    · rw [if_pos h]
      exact decide_eq_true h
    · rw [if_neg h]
      exact decide_eq_false h

theorem after_ofExcept {α : Type} (m : Model K) (r : Except (Fault K) Unit) (next : ModelEdit K α) :
    m.after (do r; next) = match r with
      | .ok _ => m.after next
      | .error _ => m := by
  cases r <;> rfl

theorem Carries.addVariables (h : m.Carries w) (count : Int) (lower upper : ColumnBounds K)
    (stem : String) :
    (m.after (Model.addVariables count lower upper stem)).Carries
      (w.declare (Declaration.ofVariables count lower upper)) := by
  unfold Model.addVariables Declaration.ofVariables
  rw [after_ofExcept]
  cases hlower : lower.check "lb" count with
  | error f =>
    rw [(check_settles "lb" count lower).of_error hlower]
    exact h.declare_nil
  | ok _ =>
    rw [(check_settles "lb" count lower).of_ok hlower]
    simp only [after_ofExcept]
    cases hupper : upper.check "ub" count with
    | error f =>
      rw [(check_settles "ub" count upper).of_error hupper]
      exact h.declare_nil
    | ok _ =>
      rw [(check_settles "ub" count upper).of_ok hupper]
      by_cases hcount : count < 0
      · rw [if_pos hcount, decide_eq_false (not_le.2 hcount)]
        exact h.declare_nil
      · rw [if_neg hcount, decide_eq_true (not_lt.1 hcount)]
        exact h.addNumbered lower upper stem (List.range count.toNat)

/-- The placeholders a call appends. -/
def placeholderColumns (m : Model K) (names : List String) : List (Variable K) :=
  names.zipIdx.map fun p =>
    { index := m.columns.length + p.2, lower := Scalar.negInfinity, upper := Scalar.infinity
      name := some p.1, decision := some p.2 }

theorem filterMap_placeholderColumns (m : Model K) (names : List String) :
    (m.placeholderColumns names).filterMap (·.decision) = List.range names.length := by
  rw [placeholderColumns, List.filterMap_map]
  show names.zipIdx.filterMap (some ∘ Prod.snd) = _
  rw [List.filterMap_eq_map, List.zipIdx_map_snd, List.range_eq_range']

theorem map_ofColumn_placeholderColumns (m : Model K) (names : List String) :
    (m.placeholderColumns names).map .ofColumn =
      (List.range names.length).map Declaration.decision := by
  rw [placeholderColumns, List.map_map, List.range_eq_range', ← List.zipIdx_map_snd 0 names,
    List.map_map]
  rfl

theorem isDecision_ofColumn (c : Variable K) :
    (Declaration.ofColumn c).isDecision = c.isDecision := by
  unfold Declaration.ofColumn Variable.isDecision
  cases c.decision <;> rfl

/-- A decision was declared exactly if there are placeholders. -/
theorem Carries.any_isDecision (h : m.Carries w) :
    w.declarations.any Declaration.isDecision = decide (m.decisionCount ≠ 0) := by
  rw [← h.declarations, List.any_map, decisionCount, Bool.eq_iff_iff, List.any_eq_true,
    decide_eq_true_iff, Ne, List.length_eq_zero_iff, List.filter_eq_nil_iff]
  simp [isDecision_ofColumn]

theorem Carries.addDecisions (h : m.Carries w) (handle : Decisions) :
    (m.after (Model.addDecisions handle)).Carries
      (w.declare (Declaration.ofDecisions w.declarations handle.names.length)) := by
  have hafter : m.after (Model.addDecisions handle) =
      if m.decisionCount ≠ 0 then m
      else { m with columns := m.columns ++ m.placeholderColumns handle.names } := by
    have hget : (get : ModelEdit K (Model K)).run m = (.ok m, m) := rfl
    rw [Model.addDecisions, after_bind, hget]
    simp only
    by_cases hcount : m.decisionCount ≠ 0
    · rw [if_pos hcount, if_pos hcount]
      rfl
    · rw [if_neg hcount, if_neg hcount]
      rfl
  unfold Declaration.ofDecisions
  rw [hafter, h.any_isDecision]
  by_cases hcount : m.decisionCount ≠ 0
  · rw [if_pos hcount, decide_eq_true hcount]
    exact h.declare_nil
  · rw [if_neg hcount, decide_eq_false hcount, if_neg Bool.false_ne_true,
      ← map_ofColumn_placeholderColumns]
    have hzero : m.decisionCount = 0 := not_not.1 hcount
    refine h.addColumns ?_ ?_
    · intro i hi
      simp [placeholderColumns]
    · rw [h.placeholders, hzero, filterMap_placeholderColumns, List.length_range]
      simp

/-! ### Rows and the objective -/

theorem after_addRow (m : Model K) (r : Row K) (name : Option String)
    (hfresh : ∀ r' ∈ m.rows, r'.tag ≠ r.tag) :
    m.after (Model.addRow r name) = { m with rows := m.rows ++
      [{ r with name := (givenName? name).or r.name, index := m.rows.length }] } := by
  have hothers : ∀ placed : Row K,
      (m.rows.map fun r' => if r'.tag = r.tag then placed else r') = m.rows := fun placed =>
    (List.map_congr_left fun r' hr' => if_neg (hfresh r' hr')).trans (List.map_id' _)
  show ({ m with rows := (m.rows.map fun r' => if r'.tag = r.tag then _ else r') ++ [_] } : Model K)
    = _
  rw [hothers]
  rfl

/-- The columns of a model stand below its column count. -/
theorem Carries.index_lt (h : m.Carries w) {v : Variable K} (hv : v ∈ m.columns) :
    v.index < m.columns.length := by
  obtain ⟨i, hi, rfl⟩ := List.getElem_of_mem hv
  rw [h.numbered i hi]
  exact hi

theorem Carries.addRow (h : m.Carries w) {c : Comparison K} {tag : Nat} {r : Row K}
    (hrow : c.compile tag = .ok (.row r)) (hcolumns : ∀ v ∈ c.columns, v ∈ m.columns)
    (hfresh : ∀ r' ∈ m.rows, r'.tag ≠ r.tag) (name : Option String) :
    (m.after (Model.addRow r name)).Carries (w.compare c) := by
  rw [after_addRow m r name hfresh]
  refine ⟨h.numbered, h.declarations, h.placeholders, ?_, ?_, h.objective, h.objective_none,
    h.goal⟩
  · intro i hi
    simp only [List.getElem_append]
    split
    · exact h.aligned i _
    · rw [List.length_append, List.length_singleton] at hi
      simp only [List.getElem_singleton]
      omega
  · exact List.rel_append h.rows (.cons ⟨⟨tag, r, hrow, rfl, rfl, rfl⟩, fun v hv =>
      h.index_lt (hcolumns v hv)⟩ .nil)

theorem Carries.setObjective (h : m.Carries w) {t : Term K} {q : Quantity K} {e : LinearExpr K}
    (hq : t.compile = .ok q) (he : q.toLinear = .ok e) (hcolumns : ∀ v ∈ t.columns, v ∈ m.columns)
    (goal : Goal) : (m.setObjective e goal).Carries (w.optimize t goal) where
  numbered := h.numbered
  declarations := h.declarations
  placeholders := h.placeholders
  aligned := h.aligned
  rows := h.rows
  objective := by
    rintro _ ⟨⟩
    exact ⟨t, q, rfl, hq, he, fun v hv => h.index_lt (hcolumns v hv)⟩
  objective_none := fun h => (nomatch h)
  goal := rfl

end Model

/-- A model that was built holds what was written. -/
theorem Built.carries {m : Model K} {w : Written K} (h : Built m w) : m.Carries w := by
  induction h with
  | empty name =>
    exact ⟨fun _ hi => absurd hi (Nat.not_lt_zero _), rfl, rfl,
      fun _ hi => absurd hi (Nat.not_lt_zero _), .nil, fun _ he => (nomatch he), fun _ => rfl, rfl⟩
  | column _ lower upper name ih => exact ih.addVariable lower upper name
  | columns _ count lower upper stem ih => exact ih.addVariables count lower upper stem
  | decisions _ handle ih => exact ih.addDecisions handle
  | row _ hrow hcolumns hfresh name ih => exact ih.addRow hrow hcolumns hfresh name
  | objective _ hq he hcolumns goal ih => exact ih.setObjective hq he hcolumns goal

end Carries

/-! ## What a row says -/

variable {F : Type} [Field F] [LinearOrder F] [IsStrictOrderedRing F] [FloorRing F]

/-- A comparison can be sorted into columns on the left and numbers on the right: no column
is scaled by anything infinite, and the two sides are never the same infinity. -/
structure Comparison.IsTame (c : Comparison (Exact F)) : Prop where
  /-- The left side scales no column by anything infinite. -/
  left : c.left.isTame = true
  /-- Nor does the right one. -/
  right : c.right.isTame = true
  /-- The sides are not the same infinity. -/
  sides : ∀ v : Nat → F, ¬ (c.left.eval fun j => .finite (v j)).SameInfinity
    (c.right.eval fun j => .finite (v j))

/-- A row in matrix form, its constant on the right, holds where a condition does. -/
structure Row.States (r : Row (Exact F)) (n : Nat) (holds : (Nat → F) → Bool) : Prop where
  /-- Its coefficients are numbers, one for each of the first `n` columns at most. -/
  terms : LinearExpr.ProperTerms r.expr.terms n
  /-- It holds where the condition does. -/
  meaning : ∀ v, r.relation.compares (.finite (SparseRow.valueAt r.expr.terms v))
    (r.bound - r.expr.constant) = holds v

namespace Comparator

open LinearExpr

variable {n : Nat} {e e' : LinearExpr (Exact F)} {f g : (Nat → F) → Exact F}

theorem onLeft_eq {K : Type} [Scalar K] (c : Comparator) (tag : Nat) (e : LinearExpr K)
    (q : Quantity K) :
    c.operator.onLeft tag e q = do return .row (Row.compare tag e c.relation (← q.toLinear)) := by
  cases c <;> rfl

theorem onRight_eq {K : Type} [Scalar K] (c : Comparator) (tag : Nat) (q : Quantity K)
    (e : LinearExpr K) : c.operator.onRight tag q e = c.turned.operator.onLeft tag e q := by
  cases c <;> rfl

theorem compares_turned (c : Comparator) (x y : Exact F) :
    c.turned.relation.compares y x = c.relation.compares x y := by
  cases c with
  | equal => exact Exact.same_comm y x
  | _ => rfl

/-- The row that compares two expressions says how their values compare. -/
theorem states_compare (c : Comparator) (tag : Nat) (he : ProperTerms e.terms n)
    (hf : ∀ v, e.eval (fun j => .finite (v j)) = f v) (he' : ProperTerms e'.terms n)
    (hg : ∀ v, e'.eval (fun j => .finite (v j)) = g v) (hne : ∀ v, ¬ (f v).SameInfinity (g v)) :
    (Row.compare tag e c.relation e').States n fun v => c.relation.compares (f v) (g v) := by
  obtain ⟨hterms, hvalue⟩ := combine_spec he he' (-1)
  refine ⟨hterms, fun v => ?_⟩
  have hconstant : (0 : Exact F) - (e.combine e' (-1)).constant = e'.constant + -e.constant :=
    Exact.difference_sides e.constant e'.constant
  have hleft : f v = .finite (SparseRow.valueAt e.terms v) + e.constant := by
    rw [← hf, eval_eq he]
  have hright : g v = .finite (SparseRow.valueAt e'.terms v) + e'.constant := by
    rw [← hg, eval_eq he']
  have hsides := Exact.compare_sides (hleft ▸ hright ▸ hne v)
  rw [Row.compare]
  simp only
  rw [hconstant, Exact.neg_one_eq, hvalue, neg_one_mul, ← sub_eq_add_neg, hleft, hright]
  cases c with
  | atMost => exact hsides.1
  | atLeast => exact hsides.2.1
  | equal => exact hsides.2.2

end Comparator

/-- The row of a comparison says that the comparison is true. -/
theorem Comparison.compile_states {c : Comparison (Exact F)} {tag n : Nat} {r : Row (Exact F)}
    (h : c.compile tag = .ok (.row r)) (htame : c.IsTame) (hcolumns : ∀ v ∈ c.columns, v.index < n) :
    r.States n fun v => c.holds fun j => .finite (v j) := by
  unfold Comparison.compile at h
  obtain ⟨a, ha, h⟩ := bind_eq_ok_iff.1 h
  obtain ⟨b, hb, h⟩ := bind_eq_ok_iff.1 h
  have hleft := c.left.compile_denotes ha htame.left fun v hv =>
    hcolumns v (List.mem_append_left _ hv)
  have hright := c.right.compile_denotes hb htame.right fun v hv =>
    hcolumns v (List.mem_append_right _ hv)
  unfold Operator.onQuantities at h
  cases hla : a.linear? with
  | some e =>
    rw [hla] at h
    simp only [Comparator.onLeft_eq] at h
    obtain ⟨e', he'⟩ := (c.right.compile_settles.of_ok hb).2.toLinear
    rw [he'] at h
    cases h
    exact c.comparator.states_compare tag (hleft.expression e hla).1 (hleft.expression e hla).2
      (hright.toLinear he').1 (hright.toLinear he').2 htame.sides
  | none =>
    cases hlb : b.linear? with
    | some e =>
      rw [hla, hlb] at h
      simp only [Comparator.onRight_eq, Comparator.onLeft_eq] at h
      obtain ⟨e', he'⟩ := (c.left.compile_settles.of_ok ha).2.toLinear
      rw [he'] at h
      cases h
      have hstates := c.comparator.turned.states_compare tag (hright.expression e hlb).1
        (hright.expression e hlb).2 (hleft.toLinear he').1 (hleft.toLinear he').2
        fun v hv => htame.sides v hv.symm
      simp only [Comparator.compares_turned] at hstates
      exact hstates
    | none =>
      rw [hla, hlb] at h
      -- Two numbers compare to a truth value, which is no row.
      obtain ⟨x, -, h⟩ := bind_eq_ok_iff.1 h
      obtain ⟨y, -, h⟩ := bind_eq_ok_iff.1 h
      generalize c.comparator = comparator at h
      cases comparator <;> cases h

/-- Both sides of a comparison that can be worked out are linear. -/
theorem Comparison.isLinear_of_compile {K : Type} [Scalar K] {c : Comparison K} {tag : Nat}
    {q : Quantity K} (h : c.compile tag = .ok q) :
    c.left.isLinear = true ∧ c.right.isLinear = true := by
  unfold Comparison.compile at h
  obtain ⟨a, ha, h⟩ := bind_eq_ok_iff.1 h
  obtain ⟨b, hb, -⟩ := bind_eq_ok_iff.1 h
  exact ⟨(c.left.compile_settles.of_ok ha).1, (c.right.compile_settles.of_ok hb).1⟩

/-! ## The matrix form -/

namespace StandardForm

variable {K : Type} [Scalar K]

/-- Whether a point satisfies row `i`. -/
def rowHolds (f : StandardForm K) (i : Nat) (v : List K) : Bool :=
  (f.relations.getD i (.other "")).compares (SparseRow.apply (f.rows.getD i []) v)
    (f.rightHandSide.getD i Scalar.undefined)

/-- A point satisfies every row and every bound. -/
structure SatisfiedBy (f : StandardForm K) (v : List K) : Prop where
  /-- Every row. -/
  rows : ∀ i < f.rows.length, f.rowHolds i v = true
  /-- Every lower bound. -/
  lower : ∀ j < f.columns, Scalar.atMost (f.lower.getD j Scalar.undefined) (v.getD j 0) = true
  /-- Every upper bound. -/
  upper : ∀ j < f.columns, Scalar.atMost (v.getD j 0) (f.upper.getD j Scalar.undefined) = true

end StandardForm

/-- Everything written can be sorted into columns and numbers. -/
structure Written.IsTame (w : Written (Exact F)) : Prop where
  /-- Every comparison. -/
  comparisons : ∀ c ∈ w.comparisons, c.IsTame
  /-- The objective. -/
  objective : ∀ t, w.objective = some t → t.isTame = true

/-- Every number in the comparisons and the objective is finite. -/
structure Written.IsFinite (w : Written (Exact F)) : Prop where
  /-- In every comparison. -/
  comparisons : ∀ c ∈ w.comparisons, c.isFinite = true
  /-- In the objective. -/
  objective : ∀ t, w.objective = some t → t.isFinite = true

namespace Model.Carries

variable {m : Model (Exact F)} {w : Written (Exact F)}

/-- Every row states its comparison. -/
theorem states (h : m.Carries w) (hw : w.IsTame) {i : Nat} (hi : i < m.rows.length)
    (hi' : i < w.comparisons.length) :
    m.rows[i].States m.columns.length fun v => w.comparisons[i].holds fun j => .finite (v j) := by
  have hrow := h.rows.get hi hi'
  obtain ⟨⟨tag, r, hr, hexpr, hrelation, hbound⟩, hcolumns⟩ := hrow
  obtain ⟨hterms, hmeaning⟩ := Comparison.compile_states hr
    (hw.comparisons _ (List.getElem_mem hi')) hcolumns
  simp only [List.get_eq_getElem] at hexpr hrelation hbound
  refine ⟨hexpr ▸ hterms, fun v => ?_⟩
  rw [hexpr, hrelation, hbound]
  exact hmeaning v

/-- The objective has its ordinary value. -/
theorem objective_eval (h : m.Carries w) (hw : w.IsTame) :
    LinearExpr.ProperTerms m.objective.terms m.columns.length ∧
      ∀ v : Nat → F, m.objective.eval (fun j => .finite (v j)) =
        w.objectiveAt fun j => .finite (v j) := by
  unfold Model.objective Written.objectiveAt
  cases he : m.objective? with
  | none =>
    rw [h.objective_none he]
    exact ⟨LinearExpr.properTerms_ofNumber 0 _, fun v => LinearExpr.eval_ofNumber 0 _⟩
  | some e =>
    obtain ⟨t, q, ht, hq, he, hcolumns⟩ := h.objective e he
    rw [ht]
    exact (t.compile_denotes hq (hw.objective t ht) hcolumns).toLinear he

/-- What is written with finite numbers can be sorted. -/
theorem isTame_of_isFinite (h : m.Carries w) (hw : w.IsFinite) : w.IsTame := by
  constructor
  · intro c hc
    obtain ⟨i, hi', rfl⟩ := List.getElem_of_mem hc
    have hi : i < m.rows.length := h.rows.length_eq ▸ hi'
    obtain ⟨⟨tag, r, hr, -⟩, -⟩ := h.rows.get hi hi'
    have hfinite := hw.comparisons _ hc
    simp only [Comparison.isFinite, Bool.and_eq_true] at hfinite
    obtain ⟨hleft, hright⟩ := Comparison.isLinear_of_compile hr
    obtain ⟨htame, hvalue⟩ := Term.isTame_of_isFinite hleft hfinite.1
    exact ⟨htame, (Term.isTame_of_isFinite hright hfinite.2).1, fun v =>
      Exact.not_sameInfinity_of_isFinite (hvalue v) _⟩
  · intro t ht
    cases he : m.objective? with
    | none => rw [h.objective_none he] at ht; cases ht
    | some e =>
      obtain ⟨t', q, ht', hq, -⟩ := h.objective e he
      cases ht'.symm.trans ht
      exact (Term.isTame_of_isFinite (t.compile_settles.of_ok hq).1 (hw.objective _ ht)).1

/-- The matrix form at a decision. -/
theorem standardForm_eq (h : m.Carries w) (hw : w.IsTame) {x : List (Exact F)}
    (hx : m.decisionCount = 0 ∨ x.length = m.decisionCount) :
    ∃ y, (m.decisionCount = 0 ∨ y = x) ∧ m.standardForm (some x) = .ok (m.formAt y) := by
  have hrows : ∀ r ∈ m.rows, SparseRow.Within r.expr.terms m.columns.length := by
    intro r hr
    obtain ⟨i, hi, rfl⟩ := List.getElem_of_mem hr
    exact (h.states hw hi (h.rows.length_eq ▸ hi)).terms.within
  rw [standardForm_of_aligned h.aligned (h.objective_eval hw).1.within hrows, decisionFor]
  by_cases hcount : m.decisionCount = 0
  · rw [if_pos hcount]
    exact ⟨[], .inl hcount, rfl⟩
  · rw [if_neg hcount]
    refine ⟨x, .inr rfl, ?_⟩
    have hlength : x.length = m.decisionCount := hx.resolve_left hcount
    simp [checkDecision, hlength, bind, Except.bind, Except.map, pure, Except.pure]

/-- A row of the matrix form holds exactly where its comparison is true. -/
theorem rowHolds_formAt (h : m.Carries w) (hw : w.IsTame) (y : List (Exact F)) {i : Nat}
    (hi : i < w.comparisons.length) (v : List F) :
    (m.formAt y).rowHolds i (v.map .finite) =
      w.comparisons[i].holds fun j => .finite (v.getD j 0) := by
  have hi' : i < m.rows.length := h.rows.length_eq.symm ▸ hi
  obtain ⟨hterms, hmeaning⟩ := h.states hw hi' hi
  rw [← hmeaning, StandardForm.rowHolds]
  have hrow : SparseRow.apply ((m.formAt y).rows.getD i []) (v.map .finite) =
      .finite (SparseRow.valueAt m.rows[i].expr.terms fun j => v.getD j 0) := by
    rw [← SparseRow.eval_finite hterms.finite, SparseRow.apply, ← funext (getD_map_finite v)]
    simp [formAt, List.getD_eq_getElem?_getD, hi']
  rw [hrow]
  simp [formAt, List.getD_eq_getElem?_getD, hi']

/-- The bounds of a column in the matrix form admit what was declared of it. -/
theorem bounds_formAt (h : m.Carries w) {x y : List (Exact F)}
    (hx : m.decisionCount = 0 ∨ x.length = m.decisionCount) (hy : m.decisionCount = 0 ∨ y = x)
    {j : Nat} (hj : j < w.declarations.length) (a : F) :
    (Scalar.atMost ((m.formAt y).lower.getD j Scalar.undefined) (.finite a) = true ∧
      Scalar.atMost (.finite a) ((m.formAt y).upper.getD j Scalar.undefined) = true) ↔
      w.declarations[j].admits x (.finite a) = true := by
  have hj' : j < m.columns.length := by rwa [← h.declarations, List.length_map] at hj
  have hdeclared : w.declarations[j] = .ofColumn m.columns[j] := by
    simp only [← h.declarations, List.getElem_map]
  have hlower : (m.formAt y).lower.getD j Scalar.undefined = (boundsAt y m.columns[j]).1 := by
    simp [formAt, List.getD_eq_getElem?_getD, hj']
  have hupper : (m.formAt y).upper.getD j Scalar.undefined = (boundsAt y m.columns[j]).2 := by
    simp [formAt, List.getD_eq_getElem?_getD, hj']
  rw [hlower, hupper, hdeclared, boundsAt, Declaration.ofColumn]
  cases hd : m.columns[j].decision with
  | none => simp [Declaration.admits]
  | some k =>
    have hk : k ∈ m.columns.filterMap (·.decision) :=
      List.mem_filterMap.2 ⟨_, List.getElem_mem hj', hd⟩
    rw [h.placeholders, List.mem_range] at hk
    have hcount : m.decisionCount ≠ 0 := (Nat.zero_lt_of_lt hk).ne'
    obtain rfl := hy.resolve_left hcount
    have hlength : k < y.length := hx.resolve_left hcount ▸ hk
    simp only [Declaration.admits, List.getD_eq_getElem _ _ hlength]
    exact Exact.atMost_antisymm_iff a y[k]

end Model.Carries

/-- A matrix form means what was written, at a decision. -/
structure StandardForm.Means (f : StandardForm (Exact F)) (w : Written (Exact F))
    (x : List (Exact F)) : Prop where
  /-- It has the declared columns. -/
  columns : f.columns = w.declarations.length
  /-- It has a row for every comparison. -/
  height : f.rows.length = w.comparisons.length
  /-- Row `i` holds where comparison `i` is true. -/
  rows : ∀ i (hi : i < w.comparisons.length) (v : List F), f.rowHolds i (v.map .finite) =
    w.comparisons[i].holds fun j => .finite (v.getD j 0)
  /-- Its solutions keep to the declarations and make every comparison true, and no other
  points do. -/
  solutions : ∀ v : List F, f.SatisfiedBy (v.map .finite) ↔
    w.SatisfiedBy x fun j => .finite (v.getD j 0)
  /-- Its objective has its ordinary value. -/
  objective : ∀ v : List F, v.length = w.declarations.length →
    Scalar.dot f.cost (v.map .finite) + f.constant =
      w.objectiveAt fun j => .finite (v.getD j 0)
  /-- It has the sense of the objective. -/
  goal : f.goal = w.goal

/-- A model that was built has a matrix form at every decision, and it means what was
written.  The model works out the same objective itself.  What is written with finite
numbers can always be sorted (`Model.Carries.isTame_of_isFinite`). -/
theorem Built.standardForm_means {m : Model (Exact F)} {w : Written (Exact F)} (h : Built m w)
    (hw : w.IsTame) {x : List (Exact F)}
    (hx : m.decisionCount = 0 ∨ x.length = m.decisionCount) :
    (∃ f, m.standardForm (some x) = .ok f ∧ f.Means w x) ∧
      ∀ v : List F, v.length = w.declarations.length → m.evaluateObjective (v.map .finite) =
        .ok (w.objectiveAt fun j => .finite (v.getD j 0)) := by
  have hm := h.carries
  have hcolumns : m.columns.length = w.declarations.length := by
    rw [← hm.declarations, List.length_map]
  -- A decision for a model without placeholders is dropped; `y` is what is left of it.
  obtain ⟨y, hy, hform⟩ := hm.standardForm_eq hw hx
  obtain ⟨hterms, hobjective⟩ := hm.objective_eval hw
  have hwidth : (m.formAt y).columns = w.declarations.length := by
    simp [StandardForm.columns, Model.formAt, hcolumns]
  have hheight : (m.formAt y).rows.length = w.comparisons.length := by
    simp [Model.formAt, hm.rows.length_eq]
  have hrows : ∀ i (hi : i < w.comparisons.length) (v : List F),
      (m.formAt y).rowHolds i (v.map .finite) =
        w.comparisons[i].holds fun j => .finite (v.getD j 0) :=
    fun i hi v => hm.rowHolds_formAt hw y hi v
  refine ⟨⟨m.formAt y, hform, hwidth, hheight, hrows, fun v => ⟨fun hf => ⟨?_, ?_⟩,
    fun hf => ⟨?_, ?_, ?_⟩⟩, fun v hv => ?_, hm.goal⟩, fun v hv => ?_⟩
  · intro j hj
    refine (hm.bounds_formAt hx hy hj (v.getD j 0)).1 ?_
    rw [← getD_map_finite]
    exact ⟨hf.lower j (hwidth ▸ hj), hf.upper j (hwidth ▸ hj)⟩
  · intro c hc
    obtain ⟨i, hi, rfl⟩ := List.getElem_of_mem hc
    rw [← hrows i hi]
    exact hf.rows i (hheight ▸ hi)
  · intro i hi
    rw [hrows i (hheight ▸ hi)]
    exact hf.comparisons _ (List.getElem_mem _)
  · intro j hj
    rw [getD_map_finite]
    exact ((hm.bounds_formAt hx hy (hwidth ▸ hj) _).2 (hf.declarations j (hwidth ▸ hj))).1
  · intro j hj
    rw [getD_map_finite]
    exact ((hm.bounds_formAt hx hy (hwidth ▸ hj) _).2 (hf.declarations j (hwidth ▸ hj))).2
  · rw [← hobjective, LinearExpr.eval_eq hterms,
      ← LinearExpr.dot_coefficients hterms (hv.trans hcolumns.symm)]
    rfl
  · rw [Model.evaluateObjective_eq_eval hterms.within (by simp [hv, hcolumns]),
      funext (getD_map_finite v), hobjective]

/-! ## A model with placeholders -/

namespace Planning

/-- The columns of the plan: one of its own, two placeholders, two more of its own. -/
def columnsOnly : Model (Exact ℚ) :=
  (((Model.empty "plan").after (Model.addVariable (.whole 0) (.whole 4) (some "x"))).after
    (Model.addDecisions (.unnamed 2))).after
    (Model.addVariables 2 (.each [.finite 0, .finite (-1)]) (.shared Scalar.infinity) "y")

/-- A column of the plan. -/
def column (i : Nat) : Term (Exact ℚ) := .column (columnsOnly.columns.getD i default)

/-- `2 - x >= (y_0 + y_1 * 3) / 2 - x_1`. -/
def share : Comparison (Exact ℚ) :=
  ⟨.operation .subtract (.number (.whole 2)) (column 0), .atLeast,
    .operation .subtract (.operation .divide (.operation .add (column 3)
      (.operation .multiply (column 4) (.number (.whole 3)))) (.number (.whole 2))) (column 2)⟩

/-- `inf >= x + x`. -/
def spare : Comparison (Exact ℚ) :=
  ⟨.number (.real .plusInfinity), .atLeast, .operation .add (column 0) (column 0)⟩

/-- `-(3 * (x - y_1)) + 7`. -/
def profit : Term (Exact ℚ) :=
  .operation .add (.negative (.operation .multiply (.number (.whole 3))
    (.operation .subtract (column 0) (column 4)))) (.number (.whole 7))

/-- The row of a comparison. -/
def rowOf (c : Comparison (Exact ℚ)) (tag : Nat) : Row (Exact ℚ) :=
  match c.compile tag with
  | .ok (.row r) => r
  | _ => default

/-- The expression of a term. -/
def exprOf (t : Term (Exact ℚ)) : LinearExpr (Exact ℚ) :=
  match t.compile with
  | .ok (.expr e) => e
  | _ => default

/-- The plan. -/
def model : Model (Exact ℚ) :=
  ((columnsOnly.after (Model.addRow (rowOf share 0) (some "share"))).after
    (Model.addRow (rowOf spare 1) none)).setObjective (exprOf profit) .maximize

/-- What was written. -/
def written : Written (Exact ℚ) :=
  ⟨[.between (.finite 0) (.finite 4), .decision 0, .decision 1,
    .between (.finite 0) .plusInfinity, .between (.finite (-1)) .plusInfinity],
    [share, spare], some profit, .maximize⟩

theorem mem_columns {i : Nat} (hi : i < columnsOnly.columns.length) :
    columnsOnly.columns.getD i default ∈ columnsOnly.columns := by
  rw [List.getD_eq_getElem _ _ hi]
  exact List.getElem_mem hi

theorem built : Built model written := by
  have hcolumns : Built columnsOnly _ :=
    .columns (.decisions (.column (.empty "plan") _ _ _) _) _ _ _ _
  have hshareRow : share.compile 0 = .ok (.row (rowOf share 0)) := rfl
  have hspareRow : spare.compile 1 = .ok (.row (rowOf spare 1)) := rfl
  have hshare := Built.row hcolumns hshareRow
    (by
      intro v hv
      simp only [share, column, Comparison.columns, Term.columns, List.nil_append,
        List.append_nil, List.cons_append, List.mem_cons, List.not_mem_nil, or_false] at hv
      rcases hv with rfl | rfl | rfl | rfl <;> exact mem_columns (by decide))
    (fun _ h => absurd h List.not_mem_nil) (some "share")
  have hspare := Built.row hshare hspareRow
    (by
      intro v hv
      simp only [spare, column, Comparison.columns, Term.columns, List.nil_append,
        List.cons_append, List.mem_cons, List.not_mem_nil, or_false, or_self] at hv
      exact hv ▸ mem_columns (by decide))
    (fun _ h => (List.mem_singleton.1 h) ▸ by decide) none
  exact Built.objective hspare (t := profit) (q := .expr (exprOf profit)) rfl rfl
    (by
      intro v hv
      simp only [profit, column, Term.columns, List.nil_append, List.append_nil,
        List.cons_append, List.mem_cons, List.not_mem_nil, or_false] at hv
      rcases hv with rfl | rfl <;> exact mem_columns (by decide)) .maximize

theorem isTame : written.IsTame := by
  have hright : ∀ v : Nat → ℚ,
      Scalar.isFinite (spare.right.eval fun j => .finite (v j)) = true :=
    (Term.isTame_of_isFinite (t := spare.right) rfl rfl).2
  have hshare : share.IsTame :=
    ⟨rfl, (Term.isTame_of_isFinite (t := share.right) rfl rfl).1, fun v =>
      Exact.not_sameInfinity_of_isFinite
        ((Term.isTame_of_isFinite (t := share.left) rfl rfl).2 v) _⟩
  have hspare : spare.IsTame :=
    ⟨rfl, rfl, fun v h => Exact.not_sameInfinity_of_isFinite (hright v) _ h.symm⟩
  refine ⟨fun c hc => ?_, fun t ht => ?_⟩
  · rcases List.mem_cons.1 hc with rfl | hc
    · exact hshare
    · exact List.mem_singleton.1 hc ▸ hspare
  · exact Option.some.inj ht ▸ rfl

end Planning

theorem Planning.standardForm_means_written :
    Built Planning.model Planning.written ∧ Planning.written.IsTame ∧
      (Planning.model.decisionCount = 0 ∨
        [Exact.finite (1 : ℚ), .finite 2].length = Planning.model.decisionCount) ∧
      (∃ f, Planning.model.standardForm (some [.finite 1, .finite 2]) = .ok f ∧
        f.Means Planning.written [.finite 1, .finite 2]) ∧
      ∀ v : List ℚ, v.length = Planning.written.declarations.length →
        Planning.model.evaluateObjective (v.map .finite) =
          .ok (Planning.written.objectiveAt fun j => .finite (v.getD j 0)) :=
  have hcount : Planning.model.decisionCount = 0 ∨
      [Exact.finite (1 : ℚ), .finite 2].length = Planning.model.decisionCount := .inr (by decide)
  ⟨Planning.built, Planning.isTame, hcount,
    Planning.built.standardForm_means Planning.isTame hcount⟩

end Recourse
