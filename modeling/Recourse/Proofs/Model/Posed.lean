/-
  Proofs/Model/Posed.lean --- which models a backend solves.

  A model is posed when it has a column and none of its limits is undefined; infinite
  limits are as good as any.  A backend solves no other proper models
  (`Backend.optimize_posed`), and these it refuses only where its engine or its report
  does (`Backend.optimize_answering`).
-/
import Recourse.Proofs.Model.Form

set_option autoImplicit false
set_option linter.unusedSectionVars false

namespace Recourse

variable {F : Type} [Field F] [LinearOrder F] [IsStrictOrderedRing F] [FloorRing F]

/-! ## Programs that can be handed over -/

theorem Exact.isFinite_of_isInfinite_eq_false {a : Exact F} (ha : a ≠ .undefined)
    (h : Scalar.isInfinite a = false) : Scalar.isFinite a = true := by
  rw [Bool.eq_false_iff, Ne, isInfinite_iff, not_or] at h
  rw [isFinite_iff]
  cases a with
  | finite x => exact ⟨x, rfl⟩
  | plusInfinity => exact absurd rfl h.1
  | minusInfinity => exact absurd rfl h.2
  | undefined => exact absurd rfl ha

/-- A program of numbers with a column and with limits that are defined is usable in the form
that is handed to an engine: rows with infinite limits are left out. -/
theorem RowSplit.isUsable_handed {p : LinearProgram (Exact F)} {lower upper : Nat → Exact F}
    (hcost : p.cost ≠ []) (hrows : ∀ r ∈ p.rows, ∀ t ∈ r, Scalar.isFinite t.2 = true)
    (hlimits : ∀ i < p.rows.length, lower i ≠ .undefined ∧ upper i ≠ .undefined) :
    ((ofSides lower upper p.rows.length).handed p).isUsable = true := by
  have hrow : ∀ i < p.rows.length, ∀ t ∈ p.rows.getD i [], Scalar.isFinite t.2 = true :=
    fun i hi => by
      rw [List.getD_eq_getElem _ _ hi]
      exact hrows _ (List.getElem_mem hi)
  have hneg : ∀ a : Exact F, Scalar.isFinite a = true → Scalar.isFinite (-a) = true := by
    intro a ha
    rw [← Exact.finite_value ha, Exact.neg_finite]
    exact Exact.isFinite_finite _
  rw [HandedProgram.isUsable, Bool.and_eq_true, Bool.and_eq_true, List.all_eq_true,
    List.all_eq_true]
  refine ⟨⟨by simpa [handed] using hcost, fun r hr => ?_⟩, fun r hr => ?_⟩ <;>
    rw [Bool.and_eq_true, List.all_eq_true]
  · rcases List.mem_append.1 hr with hr | hr
    · obtain ⟨s, hs, rfl⟩ := List.mem_map.1 hr
      obtain ⟨hi, ⟨-, hfinite⟩, hside⟩ := mem_upper.1 hs
      exact ⟨hside ▸ Exact.isFinite_of_isInfinite_eq_false (hlimits _ hi).2 hfinite, hrow _ hi⟩
    · obtain ⟨s, hs, rfl⟩ := List.mem_map.1 hr
      obtain ⟨hi, ⟨-, hfinite⟩, hside⟩ := mem_lower.1 hs
      refine ⟨hneg _ (hside ▸ Exact.isFinite_of_isInfinite_eq_false (hlimits _ hi).1 hfinite),
        fun t ht => ?_⟩
      obtain ⟨u, hu, rfl⟩ := List.mem_map.1 ht
      exact hneg _ (hrow _ hi u hu)
  · obtain ⟨s, hs, rfl⟩ := List.mem_map.1 hr
    obtain ⟨hi, hagree, hside⟩ := mem_equal.1 hs
    obtain ⟨a, -, ha, -⟩ := agree_finite hagree
    exact ⟨hside ▸ ha ▸ Exact.isFinite_finite a, hrow _ hi⟩

/-- A backend refuses only so: its options can be read, and its engine refuses usable programs
as is said, and its report what it is given. -/
structure Backend.Answering {σ : Type} [Host σ (Exact F)] (b : Backend σ (Exact F))
    (refusal : Fault (Exact F) → Prop) : Prop where
  /-- The options can be read. -/
  effort : ∃ e, Effort.ofParams b.params = .ok e
  /-- The engine gives a verdict on every usable program. -/
  verdict : ∀ (h : HandedProgram (Exact F)) (e : Effort (Exact F)), h.isUsable = true →
    (Host.optimize h e : Act σ (Exact F) _).Ensures (fun _ => True) refusal
  /-- What is found is handed out. -/
  report : ∀ r, (b.report r).Ensures (fun _ => True) refusal

/-- The backend without parameters on a sound engine refuses only where the engine breaks
down. -/
theorem Backend.plain_answering {σ : Type} [Host σ (Exact F)] (host : Host.Sound σ F) :
    (Backend.plain : Backend σ (Exact F)).Answering Fault.IsBreakdown where
  effort := ⟨_, rfl⟩
  verdict := fun h e _ => (host.verdict h e).mono (fun _ _ => trivial) fun _ h => h
  report := fun _ => Act.ensures_pure trivial

/-- On a sound engine every refusal of such a backend that does not come from its report is a
breakdown, too. -/
theorem Backend.Answering.breakdown {σ : Type} [Host σ (Exact F)] (host : Host.Sound σ F)
    {b : Backend σ (Exact F)} {refusal : Fault (Exact F) → Prop} (hb : b.Answering refusal) :
    ({ b with report := pure } : Backend σ (Exact F)).Answering
      fun f => f.IsBreakdown ∧ refusal f where
  effort := hb.effort
  verdict h e husable := ((host.verdict h e).and (hb.verdict h e husable)).mono
    (fun _ _ => trivial) fun _ h => h
  report _ := Act.ensures_pure trivial

namespace LinearProgram

variable {σ : Type} [Host σ (Exact F)] {p : LinearProgram (Exact F)}

/-- Only programs that pass the checks and have a column are solved. -/
theorem solve_checked (p : LinearProgram (Exact F)) (params : Setting (Exact F)) :
    (p.solve params : Act σ (Exact F) _).Ensures (fun _ => p.Checked ∧ p.cost ≠ [])
      fun _ => True := by
  unfold solve
  refine Act.ensures_bind (Act.ensures_lift ((check_settles p).mono ?_ fun _ _ => trivial))
  intro _ hchecked
  refine Act.ensures_lift_bind (fun l _ => ?_) fun _ => trivial
  refine Act.ensures_lift_bind (fun split _ => ?_) fun _ => trivial
  refine Act.ensures_lift_bind (fun effort _ => ?_) fun _ => trivial
  dsimp only
  split
  · exact Act.ensures_bind (Act.ensures_fail trivial)
  rename_i husable
  have hcost : p.cost ≠ [] := by
    rintro hnil
    simp [HandedProgram.isUsable, RowSplit.handed, hnil] at husable
  exact fun ledger => (Settles.self _).mono (fun _ _ => ⟨hchecked, hcost⟩) fun _ => id

/-- A program of numbers that passes the checks is refused by the engine only, or because it has
no column. -/
theorem solve_refuses {b : Backend σ (Exact F)} {refusal : Fault (Exact F) → Prop}
    (hb : b.Answering refusal) (hchecked : p.Checked)
    (hrows : ∀ r ∈ p.rows, ∀ t ∈ r, Scalar.isFinite t.2 = true)
    (hlimits : Settles p.rowLimits
      (fun l => l.1.length = p.rows.length ∧ l.2.length = p.rows.length ∧ ∀ i < p.rows.length,
        l.1.getD i .undefined ≠ .undefined ∧ l.2.getD i .undefined ≠ .undefined)
      fun _ => False) :
    (p.solve b.params : Act σ (Exact F) _).Ensures (fun _ => True)
      fun f => refusal f ∨ p.cost = [] ∧ f = .misuse .value := by
  obtain ⟨effort, heffort⟩ := hb.effort
  unfold solve
  rw [hchecked.check_eq, heffort]
  refine Act.ensures_bind (Act.ensures_pure (Act.ensures_bind (Act.ensures_lift
    (hlimits.mono ?_ fun _ h => h.elim))))
  rintro ⟨lower, upper⟩ ⟨hlower, hupper, hdefined⟩
  dsimp only at hlower hupper hdefined ⊢
  rw [RowSplit.ofLimits_eq hlower hupper]
  refine Act.ensures_bind (Act.ensures_pure (Act.ensures_bind (Act.ensures_pure ?_)))
  by_cases hcost : p.cost = []
  · have hunusable : ((RowSplit.ofSides (lower.getD · .undefined) (upper.getD · .undefined)
        p.rows.length).handed p).isUsable = false := by
      simp [HandedProgram.isUsable, RowSplit.handed, hcost]
    rw [hunusable, Bool.not_false, if_pos rfl]
    exact Act.ensures_bind (Act.ensures_fail (Or.inr ⟨hcost, rfl⟩))
  · have husable := RowSplit.isUsable_handed hcost hrows hdefined
    rw [husable, Bool.not_true, if_neg Bool.false_ne_true]
    refine Act.ensures_bind ((hb.verdict _ effort husable).mono (fun v _ => ?_) fun _ h => .inl h)
    cases v with
    | optimal o => exact Act.ensures_pure trivial
    | ended status => exact Act.ensures_pure trivial

/-- A program of numbers with a column is solved if it passes the checks. -/
theorem solve_answering {b : Backend σ (Exact F)} {refusal : Fault (Exact F) → Prop}
    (hb : b.Answering refusal) (hchecked : p.Checked) (hcost : p.cost ≠ [])
    (hrows : ∀ r ∈ p.rows, ∀ t ∈ r, Scalar.isFinite t.2 = true)
    (hlimits : Settles p.rowLimits
      (fun l => l.1.length = p.rows.length ∧ l.2.length = p.rows.length ∧ ∀ i < p.rows.length,
        l.1.getD i .undefined ≠ .undefined ∧ l.2.getD i .undefined ≠ .undefined)
      fun _ => False) :
    (p.solve b.params : Act σ (Exact F) _).Ensures (fun _ => True) refusal :=
  (solve_refuses hb hchecked hrows hlimits).mono (fun _ h => h)
    fun _ h => h.resolve_right fun h => hcost h.1

/-- Limits that a relation gives to a right-hand side that is defined are defined. -/
theorem ne_undefined_of_limitsOf {r : Relation} {b : Exact F} {l : Exact F × Exact F}
    (h : limitsOf r b = .ok l) (hb : b ≠ .undefined) : l.1 ≠ .undefined ∧ l.2 ≠ .undefined := by
  unfold limitsOf at h
  split at h <;> cases h <;> simp [hb]

end LinearProgram

/-! ## Models that can be solved -/

namespace Model

variable {m : Model (Exact F)} {x : List (Exact F)}

/-- No limit of a model is undefined. -/
structure Defined (m : Model (Exact F)) : Prop where
  /-- No right-hand side is. -/
  rows : ∀ r ∈ m.rows, r.side ≠ .undefined
  /-- No bound is, other than those of placeholders, which are not used. -/
  columns : ∀ c ∈ m.columns, c.decision = none → c.lower ≠ .undefined ∧ c.upper ≠ .undefined

/-- A model has a column, and no limit of it is undefined. -/
structure Posed (m : Model (Exact F)) : Prop extends m.Defined where
  /-- There is a column. -/
  nonempty : m.columns ≠ []

/-- The matrix form of a proper model passes the checks if and only if the limits of the model
are defined. -/
theorem checked_formAt_iff (hm : m.Proper) (hx : m.Suits x) :
    (m.formAt x).toProgram.Checked ↔ m.Defined := by
  constructor
  · intro h
    refine ⟨fun r hr hside => ?_, fun c hc hnone => ⟨fun hlower => ?_, fun hupper => ?_⟩⟩
    · exact h.rightHandSide _ rfl (List.mem_map.2 ⟨r, hr, hside⟩)
    · exact h.bounds.1 (List.mem_map.2 ⟨c, hc, by rw [boundsAt, hnone]; exact hlower⟩)
    · exact h.bounds.2 (List.mem_map.2 ⟨c, hc, by rw [boundsAt, hnone]; exact hupper⟩)
  · intro h
    have hbounds : ∀ c ∈ m.columns, (boundsAt x c).1 ≠ .undefined ∧
        (boundsAt x c).2 ≠ .undefined := by
      intro c hc
      -- A placeholder is held at its entry of the decision, which is a number.
      unfold boundsAt
      cases hd : c.decision with
      | none => exact h.columns c hc hd
      | some k =>
        simp only [hx.finite.getD_zero, ne_eq, reduceCtorEq, not_false_iff, and_self]
    have hsign : (m.formAt x).sign = .finite m.goal.factor := m.goal.sign_eq
    refine
      { columns := by simp [StandardForm.toProgram, StandardForm.columns, Scalar.scale]
        rightHandSide_length := ?_
        bounds_length := by simp [StandardForm.toProgram, formAt, Scalar.scale]
        cost := ?_
        rightHandSide := ?_
        rows := fun r hr t ht hundefined => ?_
        bounds := ⟨fun hmem => ?_, fun hmem => ?_⟩
        uncrossed := crossed_formAt hm hx }
    · rintro _ ⟨⟩
      simp [StandardForm.toProgram, formAt]
    · rw [StandardForm.toProgram, hsign]
      exact (allFinite_cost hm x).scale _
    · rintro _ ⟨⟩ hmem
      obtain ⟨r, hr, hside⟩ := List.mem_map.1 hmem
      exact h.rows r hr hside
    · obtain ⟨row, hrow, rfl⟩ := List.mem_map.1 hr
      have hfinite := (hm.rows row hrow).finite t ht
      rw [hundefined] at hfinite
      exact absurd hfinite (by simp [Scalar.isFinite, Scalar.isUndefined, Scalar.same, Exact.eq])
    · obtain ⟨c, hc, hundefined⟩ := List.mem_map.1 hmem
      exact (hbounds c hc).1 hundefined
    · obtain ⟨c, hc, hundefined⟩ := List.mem_map.1 hmem
      exact (hbounds c hc).2 hundefined

/-- The rows of the form of such a model have limits that are defined. -/
theorem rowLimits_formAt (hm : m.Proper) (h : m.Defined) :
    Settles (m.formAt x).toProgram.rowLimits
      (fun l => l.1.length = (m.formAt x).toProgram.rows.length ∧
        l.2.length = (m.formAt x).toProgram.rows.length ∧
        ∀ i < (m.formAt x).toProgram.rows.length,
          l.1.getD i .undefined ≠ .undefined ∧ l.2.getD i .undefined ≠ .undefined)
      fun _ => False := by
  refine (formAt_hasRelations m x).rowLimits_settles.mono ?_ ?_
  · rintro l ⟨hlower, hupper, hlimits⟩
    refine ⟨hlower, hupper, fun i hi => ?_⟩
    have hi' : i < m.rows.length := length_rows_formAt m x ▸ hi
    refine LinearProgram.ne_undefined_of_limitsOf (hlimits i hi) ?_
    simpa [List.getD_eq_getElem?_getD, hi', Row.side] using h.rows _ (List.getElem_mem hi')
  · rintro f ⟨⟨r, hr, hunknown⟩, -⟩
    exact hunknown (hm.isKnown r hr)

theorem cost_formAt_eq_nil_iff : (m.formAt x).toProgram.cost = [] ↔ m.columns = [] := by
  rw [← List.length_eq_zero_iff, length_cost_formAt, List.length_eq_zero_iff]

end Model

namespace Backend

variable {σ : Type} [Host σ (Exact F)] {b : Backend σ (Exact F)} {m : Model (Exact F)}
  {x : List (Exact F)}

/-- A proper model that a backend solved is posed. -/
theorem optimize_posed (b : Backend σ (Exact F)) (hm : m.Proper) (hx : AllFinite x)
    (hlength : m.decisionCount = 0 ∨ m.decisionCount = x.length) :
    (b.optimize m (some x)).Ensures (fun _ => m.Posed) fun _ => True := by
  unfold optimize
  rw [Model.standardForm_some hm hlength]
  refine Act.ensures_bind (Act.ensures_pure (Act.ensures_bind
    ((LinearProgram.solve_checked _ b.params).mono ?_ fun _ h => h)))
  rintro _ ⟨hchecked, hcost⟩ ledger
  have hdefined := (Model.checked_formAt_iff hm (Model.suits_of_length hx hlength)).1 hchecked
  exact (Settles.self _).mono
    (fun _ _ => ⟨hdefined, mt Model.cost_formAt_eq_nil_iff.2 hcost⟩) fun _ h => h

/-- A proper model that is posed is refused only where the engine or the report refuses. -/
theorem optimize_answering {refusal : Fault (Exact F) → Prop} (hb : b.Answering refusal)
    (hm : m.Proper) (hposed : m.Posed) (hx : AllFinite x)
    (hlength : m.decisionCount = 0 ∨ m.decisionCount = x.length) :
    (b.optimize m (some x)).Ensures (fun _ => True) refusal := by
  unfold optimize
  rw [Model.standardForm_some hm hlength]
  refine Act.ensures_bind (Act.ensures_pure (Act.ensures_bind ((LinearProgram.solve_answering hb
    ((Model.checked_formAt_iff hm (Model.suits_of_length hx hlength)).2 hposed.toDefined)
    (mt Model.cost_formAt_eq_nil_iff.1 hposed.nonempty) ?_
    (Model.rowLimits_formAt hm hposed.toDefined)).mono (fun r _ => hb.report _) fun _ h => h)))
  intro r hr
  obtain ⟨row, hrow, rfl⟩ := List.mem_map.1 hr
  exact (hm.rows row hrow).finite

end Backend

end Recourse
