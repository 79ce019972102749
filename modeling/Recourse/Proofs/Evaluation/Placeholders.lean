/-
  Proofs/Evaluation/Placeholders.lean --- what is done with a decision that is handed over.

  A model that is solved at a decision keeps it: its placeholders get the entries as both of
  their bounds, wherever they stand, and a point that an engine finds optimal has them
  (`Backend.optimize_kept`).  An undefined entry is refused.  An infinite one passes, but an
  infinite bound limits nothing, so that its column is free and is optimized like any other
  (`bounds_of_entryAt`).  All evaluations of a decision rest on such solves.
-/
import Recourse.Proofs.Evaluation.Reproduction
import Recourse.Proofs.Linear.Handover
import Recourse.Proofs.Program.Atomicity

set_option autoImplicit false
set_option linter.unusedSectionVars false

namespace Recourse

/-! ## Entries of placeholders -/

namespace Model

section Entries

variable {K : Type} {m : Model K} {x : List K} {k : Nat} {e : K}

/-- The column is a placeholder, and this is what it stands for. -/
def EntryAt (m : Model K) (x : List K) (k : Nat) (e : K) : Prop :=
  ∃ v j, m.columns[k]? = some v ∧ v.decision = some j ∧ x[j]? = some e

theorem EntryAt.lt (h : m.EntryAt x k e) : k < m.columns.length := by
  obtain ⟨v, -, hv, -⟩ := h
  exact (List.getElem?_eq_some_iff.1 hv).1

theorem EntryAt.decisionCount_ne_zero (h : m.EntryAt x k e) : m.decisionCount ≠ 0 := by
  obtain ⟨v, j, hv, hj, -⟩ := h
  have hmem : v ∈ m.columns.filter (·.isDecision) :=
    List.mem_filter.2 ⟨List.mem_of_getElem? hv, by simp [Variable.isDecision, hj]⟩
  exact (List.length_pos_of_mem hmem).ne'

variable [Scalar K] {d : Option (List K)}

/-- A placeholder has its entry as both bounds. -/
theorem bounds_eq_entry {form : StandardForm K} (h : m.standardForm d = .ok form)
    (hd : d.or m.fixed = some x) (he : m.EntryAt x k e) :
    form.lower[k]? = some e ∧ form.upper[k]? = some e := by
  obtain ⟨-, y, hy, rfl⟩ := standardForm_eq_ok h
  obtain rfl : x = y := Option.some.inj (hd ▸ (decisionFor_eq_ok hy he.decisionCount_ne_zero).1)
  obtain ⟨v, j, hv, hj, hx⟩ := he
  rw [List.getElem?_map, List.getElem?_map, hv]
  simp [boundsAt, hj, List.getD_eq_getElem?_getD, hx]

/-- An engine is handed the entry as bounds of the column, or none where it is infinite. -/
theorem bounds_of_entryAt {form : StandardForm K} (h : m.standardForm d = .ok form)
    (hd : d.or m.fixed = some x) (he : m.EntryAt x k e) (split : RowSplit K) :
    (split.handed form.toProgram).bounds[k]? =
      some (if Scalar.isInfinite e then (none, none) else (some e, some e)) := by
  obtain ⟨hlower, hupper⟩ := bounds_eq_entry h hd he
  show (List.map _ (form.lower.zip form.upper))[k]? = _
  have hzip : (form.lower.zip form.upper)[k]? = some (e, e) :=
    List.getElem?_zip_eq_some.2 ⟨hlower, hupper⟩
  rw [List.getElem?_map, hzip]
  simp only [Option.map_some, HandedProgram.bound?]
  split <;> rfl

end Entries

variable {F : Type} [Field F] [LinearOrder F] [IsStrictOrderedRing F] [FloorRing F]

/-- A result keeps a decision: it was read entry by entry, and an optimal point has its entries
in the columns of the placeholders, but for infinite ones. -/
structure KeptBy (m : Model (Exact F)) (x : List (Exact F)) (r : SolveResult (Exact F)) : Prop where
  /-- There is one entry for every placeholder. -/
  length : m.decisionCount = 0 ∨ x.length = m.decisionCount
  /-- No entry is undefined. -/
  defined : ∀ k, ¬ m.EntryAt x k .undefined
  /-- An optimal point has the entries. -/
  point : r.status = .optimal → ∀ k e, m.EntryAt x k e → Scalar.isInfinite e = false →
    r.point[k]? = some e

end Model

variable {F : Type} [Field F] [LinearOrder F] [IsStrictOrderedRing F] [FloorRing F] {σ : Type}
  [Host σ (Exact F)]

/-! ## Solving keeps a decision -/

/-- A program that is not refused passed the checks, and an optimal point is made of numbers
that keep to the bounds of their columns. -/
theorem LinearProgram.solve_bounded (host : Host.Sound σ F) (p : LinearProgram (Exact F))
    (params : Setting (Exact F)) :
    (p.solve params : Act σ (Exact F) _).Ensures (fun r => p.Checked ∧ (r.status = .optimal →
      r.point.length = p.cost.length ∧ AllFinite r.point ∧
        ∀ j < p.cost.length, p.ColumnHolds j (coord r.point))) fun _ => True := by
  rw [LinearProgram.solve_eq]
  cases haccepted : p.accepted params with
  | error f => exact Act.ensures_fail trivial
  | ok a =>
    obtain ⟨split, effort⟩ := a
    have hchecked := (check_settles p).of_ok (accepted_ok haccepted).1
    dsimp only
    rw [map_eq_pure_bind]
    refine Act.ensures_bind ((host.verdict _ effort).mono (fun v hv => ?_) fun _ _ => trivial)
    refine Act.ensures_pure ⟨hchecked, fun hstatus => ?_⟩
    cases v with
    | optimal o =>
      have hfeasible := (feasible_handed_iff_asRead haccepted (coord o.point)).1 hv.feasible
      exact ⟨hv.point_length, hv.point_finite, hfeasible.columns⟩
    | ended status =>
      obtain rfl : status = .optimal := hstatus
      exact hv.elim

namespace Backend

variable {b : Backend σ (Exact F)} {m : Model (Exact F)} {x : List (Exact F)}
  {d : Option (List (Exact F))}

/-- A number that keeps to a number as both bounds is that number. -/
theorem eq_of_columnHolds {p : LinearProgram (Exact F)} {v : Nat → F} {k : Nat} {a : F}
    (hlower : p.lower[k]? = some (.finite a)) (hupper : p.upper[k]? = some (.finite a))
    (h : p.ColumnHolds k v) : v k = a := by
  rw [LinearProgram.ColumnHolds, List.getD_eq_getElem?_getD, List.getD_eq_getElem?_getD, hlower,
    hupper] at h
  exact le_antisymm ((Exact.respectsUpper_finite _ _).1 h.2)
    ((Exact.respectsLower_finite _ _).1 h.1)

/-- Solving a model keeps the decision that it is solved at, given or stored. -/
theorem optimize_kept (host : Host.Sound σ F) (hb : b.Faithful) (hd : d.or m.fixed = some x) :
    (b.optimize m d).Ensures (m.KeptBy x) fun _ => True := by
  unfold optimize
  refine Act.ensures_lift_bind (fun form hform => ?_) fun _ => trivial
  refine Act.ensures_bind ((LinearProgram.solve_bounded host form.toProgram b.params).mono ?_
    fun _ h => h)
  rintro r ⟨hchecked, hoptimal⟩
  refine (hb _).mono ?_ fun _ _ => trivial
  rintro _ rfl
  obtain ⟨-, y, hy, hread⟩ := Model.standardForm_eq_ok hform
  refine ⟨?_, fun k hundefined => ?_, fun hstatus k e he hinfinite => ?_⟩
  · by_cases hm : m.decisionCount = 0
    · exact Or.inl hm
    · obtain ⟨hxy, hlength⟩ := Model.decisionFor_eq_ok hy hm
      rw [hd] at hxy
      exact Or.inr (Option.some.inj hxy ▸ hlength)
  · exact hchecked.bounds.1 (List.mem_of_getElem? (Model.bounds_eq_entry hform hd hundefined).1)
  · obtain ⟨hlength, hfinite, hcolumns⟩ := hoptimal hstatus
    obtain ⟨hlower, hupper⟩ := Model.bounds_eq_entry hform hd he
    have hk : k < form.toProgram.cost.length := by
      have hk := he.lt
      simpa [StandardForm.toProgram, Scalar.scale, hread] using hk
    have hundefined : e ≠ .undefined := by
      rintro rfl
      exact hchecked.bounds.1 (List.mem_of_getElem? hlower)
    obtain ⟨a, rfl⟩ : ∃ a, e = .finite a := by
      cases e with
      | finite a => exact ⟨a, rfl⟩
      | undefined => exact absurd rfl hundefined
      | plusInfinity | minusInfinity =>
        rw [Bool.eq_false_iff, ne_eq, Exact.isInfinite_iff] at hinfinite
        simp at hinfinite
    show r.point[k]? = _
    rw [List.getElem?_eq_getElem (hlength ▸ hk), ← List.getD_eq_getElem _ .undefined,
      hfinite.getD (hlength ▸ hk), eq_of_columnHolds hlower hupper (hcolumns k hk)]

end Backend

/-! ## Evaluating a decision -/

namespace Program

variable {p : Program σ (Exact F)} {b : Backend σ (Exact F)} {x : List (Exact F)}

/-- The value of a scenario comes from a solve of its subproblem at a decision, which the result
keeps. -/
def KeptAt (p : Program σ (Exact F)) (b : Backend σ (Exact F)) (x : List (Exact F)) (i : Nat)
    (value : Exact F) : Prop :=
  ∃ s m r, p.slots[i]? = some s ∧ s.model? = some m ∧ (b.optimize m (some x)).MayGive r ∧
    r.status = .optimal ∧ m.KeptBy x r ∧ value = r.objective

/-- Every subproblem is solved at the decision itself, in whatever state the program is. -/
theorem recourseValues_kept (host : Host.Sound σ F) (hb : b.Faithful) (p : Program σ (Exact F))
    (x : List (Exact F)) :
    (p.recourseValues x b).Ensures (List.Forall₂ (p.KeptAt b x) (List.range p.scenarioCount))
      fun _ => True := by
  refine collect_ensures_of_visit fun q _ hplaced => ?_
  unfold Partition.visit
  simp only [if_true]
  split
  · exact Act.ensures_bind (Act.ensures_fail trivial)
  refine Act.ensures_forEach _ fun s hs => ?_
  have hslot := hplaced s.2 s.1 (List.mk_mem_zipIdx_iff_getElem?.1 hs)
  cases hmodel : s.1.model? with
  | none => exact Act.ensures_bind (Act.ensures_fail trivial)
  | some m =>
    refine Act.ensures_bind (Act.ensures_pure ?_)
    refine Act.ensures_bind (((Backend.optimize_kept host hb (m := m) rfl).and
      (Act.ensures_mayGive _)).mono ?_ fun _ _ => trivial)
    rintro r ⟨hkept, hgives⟩
    split
    · exact Act.ensures_bind (Act.ensures_fail trivial)
    · rename_i hstatus
      exact Act.ensures_pure ⟨s.1, m, r, hslot, hmodel, hgives, not_not.1 hstatus, hkept, rfl⟩

/-- Building and weighing leave the solver of a program. -/
theorem generate_validate_solver (p : Program σ (Exact F)) :
    (do generate; validate none : Edit σ (Exact F) Unit).Ensures p
      (fun _ q => q.solver = p.solver) fun _ _ => True := by
  refine Change.ensures_bind ((generate_keeps p).mono (fun _ q hq => ?_) fun _ _ h => h)
  refine (validate_ensures_scaled none q).mono ?_ fun _ _ h => h
  rintro _ q' (rfl | ⟨-, factor, rfl, -⟩) <;> exact hq.solver

variable {solver : Option (Solver σ (Exact F))}

theorem valuesAt_kept (host : Host.Sound σ F) (hb : (p.backendFor solver).Faithful) :
    (valuesAt x solver).Ensures p (fun r p' => p' = p ∧
      List.Forall₂ (p.KeptAt (p.backendFor solver) x) (List.range p.scenarioCount) r.2)
      fun _ _ => True :=
  valuesAt_ensures_recourse (recourseValues_kept host hb p x)

/-- What a decision is worth is made of solves that keep it. -/
theorem evaluate_kept (host : Host.Sound σ F) (hb : (p.backendFor solver).Faithful) :
    (evaluate x solver).Ensures p (fun v p' => ∃ first values,
      v = first + Scalar.dot p'.probabilities values ∧
      List.Forall₂ (p'.KeptAt (p.backendFor solver) x) (List.range p'.scenarioCount) values)
      fun _ _ => True := by
  rw [evaluate_eq]
  refine Change.ensures_bind ((generate_validate_solver p).mono (fun _ q hq => ?_) fun _ _ h => h)
  have hbackend : q.backendFor solver = p.backendFor solver := by
    unfold backendFor
    rw [hq]
  rw [← hbackend] at hb ⊢
  refine Change.ensures_bind ((valuesAt_kept host hb).mono ?_ fun _ _ h => h)
  rintro ⟨first, values⟩ _ ⟨rfl, hvalues⟩
  exact Change.ensures_bind (Change.ensures_state (Change.ensures_pure
    ⟨first, values, rfl, hvalues⟩))

/-- A decision that a model is solved at is kept, whether it is handed over, stored in the model
or evaluated: every entry that is not infinite stands in the column of its placeholder, at any
position, and none is undefined.  The exact condition is in what is handed to the engine: the
column has the entry as both bounds, and none where the entry is infinite.  Then, and only then,
a solve also optimizes over the decision. -/
theorem decision_kept (host : Host.Sound σ F) (hb : b.Faithful) (x : List (Exact F)) :
    (∀ m : Model (Exact F),
      (b.optimize m (some x)).Ensures (m.KeptBy x) (fun _ => True) ∧
      (∀ m', m.fixDecisions (some x) = .ok m' →
        (b.optimize m' none).Ensures (m.KeptBy x) fun _ => True) ∧
      ∀ form, m.standardForm (some x) = .ok form → ∀ (split : RowSplit (Exact F)) (k : Nat) e,
        m.EntryAt x k e → (split.handed form.toProgram).bounds[k]? =
          some (if Scalar.isInfinite e then (none, none) else (some e, some e))) ∧
    ∀ (p : Program σ (Exact F)) (solver : Option (Solver σ (Exact F))), p.backendFor solver = b →
      (evaluate x solver).Ensures p (fun v p' => ∃ first values,
        v = first + Scalar.dot p'.probabilities values ∧
        List.Forall₂ (p'.KeptAt b x) (List.range p'.scenarioCount) values) fun _ _ => True := by
  refine ⟨fun m => ⟨Backend.optimize_kept host hb rfl, fun m' hm' => ?_, ?_⟩, ?_⟩
  · obtain ⟨_, -, hstored⟩ := bind_eq_ok_iff.1 hm'
    cases hstored
    refine (Backend.optimize_kept host hb (x := x) rfl).mono (fun r hr => ?_) fun _ h => h
    exact ⟨hr.length, hr.defined, hr.point⟩
  · exact fun form hform split k e he => Model.bounds_of_entryAt hform rfl he split
  · rintro p solver rfl
    exact evaluate_kept host hb

/-- A model solved at a decision on a transcript. -/
def solvedAt (m : Model (Exact ℚ)) (x : List (Exact ℚ)) (t : Transcript ℚ) :
    Option (SolveResult (Exact ℚ)) :=
  ((Backend.plain.optimize m (some x)).run.run ⟨t, [], 0⟩).1.toOption

/-- Three units are kept. -/
def threeKept : Transcript ℚ where
  findings := [.optimal ⟨[.finite 3, .finite 3], .finite 3, [-1], [], [1, 0], [0, 0], 0⟩]

/-- Three units that are reserved are kept, and so the reserve is worth six. -/
theorem upkeep_decision_kept :
    (solvedAt upkeep [.finite 3] threeKept).map (fun r => (r.status, r.point)) =
        some (.optimal, [.finite 3, .finite 3]) ∧
      (∀ r ∈ solvedAt upkeep [.finite 3] threeKept, upkeep.KeptBy [.finite 3] r) ∧
      evaluated (certain reserve upkeep) [.finite 3] threeKept = (some (.finite 6), none) := by
  refine ⟨by decide +kernel, fun r hr => ?_, by decide +kernel⟩
  exact (((decision_kept Transcript.sound Backend.plain_faithful [.finite 3]).1 upkeep).1
    ⟨threeKept, [], 0⟩).of_toOption hr

/-- As much as is reserved is kept, and what is missing of four units. -/
def doubleUpkeep : Model (Exact ℚ) :=
  { upkeep with
    rows := upkeep.rows ++ [⟨⟨[(0, 1), (1, 1)], .finite (-4), []⟩, .atLeast, 0, none, 1, 1⟩] }

/-- It is cheapest to reserve two units. -/
def twoKept : Transcript ℚ where
  findings := [.optimal ⟨[.finite 2, .finite 2], .finite 2, [.finite (-1 / 2), .finite (-1 / 2)],
    [], [0, 0], [0, 0], 0⟩]

/-- An infinite reserve cannot be kept.  The model is solved all the same, and the point that is
found optimal has another reserve, of two units. -/
theorem doubleUpkeep_decision_kept_false :
    doubleUpkeep.EntryAt [.plusInfinity] 0 .plusInfinity ∧
      (solvedAt doubleUpkeep [.plusInfinity] twoKept).map (fun r => (r.status, r.point)) =
        some (.optimal, [.finite 2, .finite 2]) :=
  ⟨⟨_, 0, rfl, rfl, rfl⟩, by decide +kernel⟩

end Program

end Recourse
