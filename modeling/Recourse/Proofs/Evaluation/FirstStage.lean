/-
  Proofs/Evaluation/FirstStage.lean --- which decisions are evaluated.

  Before a decision is evaluated it is checked against the first stage.  The check looks for a
  violation of a bound or of a row, and undefined values violate nothing: it passes if and only
  if every comparison holds up to the tolerance or has an undefined side
  (`firstStageValue_ok_iff`).  Nothing is evaluated without the check, and in every state that
  a program gets to it is the check of the first stage that the program then has
  (`Attainable.evaluated_fits`).
-/
import Recourse.Proofs.Evaluation.Placeholders
import Recourse.Proofs.Program.Resumption

set_option autoImplicit false
set_option linter.unusedSectionVars false

namespace Recourse

/-! ## Comparisons up to a slack -/

section Slack

variable {F : Type} [Field F] [LinearOrder F] [IsStrictOrderedRing F] [FloorRing F]

namespace Exact

/-- One side is at most the other, as far as both are defined. -/
def Below (a b : Exact F) : Prop :=
  a ≠ .undefined → b ≠ .undefined → Scalar.atMost a b = true

/-- Only defined values are found to be less. -/
theorem less_eq_false_iff {a b : Exact F} : Scalar.less b a = false ↔ Below a b := by
  cases a <;> cases b <;> simp [Below, Scalar.less, Scalar.atMost, lt, eq, le_iff_lt_or_eq]

/-- A larger slack allows for more above, -/
theorem Below.add_slack {a b : Exact F} {s t : F} (h : Below a (b + .finite s)) (hst : s ≤ t) :
    Below a (b + .finite t) := by
  rw [← less_eq_false_iff] at h ⊢
  cases a with
  | finite a =>
    cases b with
    | finite b =>
      simp only [finite_add, less_finite, decide_eq_false_iff_not, not_lt] at h ⊢
      linarith
    | _ => exact h
  | _ => cases b <;> exact h

/-- and for more below. -/
theorem Below.sub_slack {a b : Exact F} {s t : F} (h : Below (b - .finite s) a) (hst : s ≤ t) :
    Below (b - .finite t) a := by
  rw [← less_eq_false_iff] at h ⊢
  cases a with
  | finite a =>
    cases b with
    | finite b =>
      simp only [finite_sub, less_finite, decide_eq_false_iff_not, not_lt] at h ⊢
      linarith
    | _ => exact h
  | _ => cases b <;> exact h

/-- A difference is within a slack if and only if either side is at most the other up to it.
Two infinities of one sign leave no difference, and nothing is less than that. -/
theorem less_abs_sub_iff {a b : Exact F} {t : F} :
    Scalar.less (.finite t) (Scalar.abs (a - b)) = false ↔
      Below (b - .finite t) a ∧ Below a (b + .finite t) := by
  rw [← less_eq_false_iff, ← less_eq_false_iff]
  have htrue : ¬true = false := Bool.false_ne_true ∘ Eq.symm
  cases a with
  | finite a =>
    cases b with
    | finite b =>
      simp only [finite_sub, finite_add, abs_finite, less_finite, decide_eq_false_iff_not, not_lt,
        abs_le]
      constructor <;> intro h <;> constructor <;> linarith [h.1, h.2]
    | undefined => exact iff_of_true rfl ⟨rfl, rfl⟩
    | plusInfinity => exact iff_of_false htrue fun h => htrue h.1
    | minusInfinity => exact iff_of_false htrue fun h => htrue h.2
  | undefined => cases b <;> exact iff_of_true rfl ⟨rfl, rfl⟩
  | plusInfinity =>
    cases b with
    | undefined | plusInfinity => exact iff_of_true rfl ⟨rfl, rfl⟩
    | _ => exact iff_of_false htrue fun h => htrue h.2
  | minusInfinity =>
    cases b with
    | undefined | minusInfinity => exact iff_of_true rfl ⟨rfl, rfl⟩
    | _ => exact iff_of_false htrue fun h => htrue h.1

end Exact

/-- A relation holds up to a slack, as far as both sides are defined. -/
def Relation.HoldsWithin (slack : F) (r : Relation) (left bound : Exact F) : Prop :=
  match r with
  | .atMost => left.Below (bound + .finite slack)
  | .atLeast => (bound - .finite slack).Below left
  | .equal => (bound - .finite slack).Below left ∧ left.Below (bound + .finite slack)
  | .other _ => True

theorem Relation.HoldsWithin.mono {r : Relation} {left bound : Exact F} {s t : F}
    (h : r.HoldsWithin s left bound) (hst : s ≤ t) : r.HoldsWithin t left bound := by
  cases r with
  | atMost => exact h.add_slack hst
  | atLeast => exact h.sub_slack hst
  | equal => exact ⟨h.1.sub_slack hst, h.2.add_slack hst⟩
  | other => trivial

/-- A point fits the bounds and the rows of a model up to a slack, as far as they and what they
are compared with are defined. -/
structure Model.FitsWithin (m : Model (Exact F)) (slack : F) (x : List (Exact F)) : Prop where
  /-- The bounds. -/
  columns : ∀ (k : Nat) v e, m.columns[k]? = some v → x[k]? = some e →
    (v.lower - .finite slack).Below e ∧ e.Below (v.upper + .finite slack)
  /-- The rows.  What stands at a position of the matrix is the row there, unless some row was
  added twice. -/
  rows : ∀ (i : Nat) r row, m.rows[i]? = some r → m.matrix[i]? = some row →
    r.relation.HoldsWithin slack (row.apply x) (r.bound - r.expr.constant)

theorem Model.FitsWithin.mono {m : Model (Exact F)} {x : List (Exact F)} {s t : F}
    (h : m.FitsWithin s x) (hst : s ≤ t) : m.FitsWithin t x where
  columns k v e hv he := ((h.columns k v e hv he).imp (·.sub_slack hst) (·.add_slack hst))
  rows i r row hr hrow := (h.rows i r row hr hrow).mono hst

end Slack

namespace Program

/-! ## The check -/

section Check

variable {K : Type} [Scalar K] {m : Model K} {x : List K}

/-- A property of all pairs is one of the entries at every position. -/
theorem forall_mem_zip_iff {α β : Type} {P : α × β → Prop} {as : List α} {bs : List β} :
    (∀ p ∈ as.zip bs, P p) ↔ ∀ (i : Nat) a b, as[i]? = some a → bs[i]? = some b → P (a, b) := by
  constructor
  · intro h i a b ha hb
    have hzip : (as.zip bs)[i]? = some (a, b) := List.getElem?_zip_eq_some.2 ⟨ha, hb⟩
    exact h _ (List.mem_of_getElem? hzip)
  · rintro h ⟨a, b⟩ hp
    obtain ⟨i, hi⟩ := List.mem_iff_getElem?.1 hp
    obtain ⟨ha, hb⟩ := List.getElem?_zip_eq_some.1 hi
    exact h i a b ha hb

theorem violatedRows_eq_nil_iff {f : StandardForm K} : violatedRows f x = [] ↔
    ∀ r ∈ f.rows.zip (f.relations.zip f.rightHandSide),
      violates r.2.1 (r.1.apply x) r.2.2 = false := by
  rw [violatedRows, List.map_eq_nil_iff, List.filter_eq_nil_iff]
  constructor
  · intro h r hr
    obtain ⟨i, hi⟩ := List.mem_iff_getElem?.1 hr
    simpa using h (r, i) (List.mk_mem_zipIdx_iff_getElem?.2 hi)
  · rintro h ⟨r, i⟩ hr
    simpa using h r (List.mem_of_getElem? (List.mk_mem_zipIdx_iff_getElem?.1 hr))

/-- A decision with a first-stage value passed the check and has an objective, and conversely. -/
theorem firstStageValue_eq_ok_iff {v : K} : firstStageValue m x = .ok v ↔
    ∃ form, m.standardForm none = .ok form ∧
      (∀ b ∈ x.zip (form.lower.zip form.upper), outsideBounds b.1 b.2.1 b.2.2 = false) ∧
      violatedRows form x = [] ∧ m.evaluateObjective x = .ok v := by
  unfold firstStageValue
  rw [bind_eq_ok_iff]
  refine exists_congr fun form => and_congr_right fun _ => ?_
  cases hbounds : (x.zip (form.lower.zip form.upper)).any
      (fun b => outsideBounds b.1 b.2.1 b.2.2) with
  | true =>
    obtain ⟨b, hb, houtside⟩ := List.any_eq_true.1 hbounds
    simp only [if_true]
    exact ⟨fun h => (nomatch h), fun h => absurd (h.1 b hb) (by simp [houtside])⟩
  | false =>
    have hinside : ∀ b ∈ x.zip (form.lower.zip form.upper),
        outsideBounds b.1 b.2.1 b.2.2 = false := by simpa using hbounds
    simp only [Bool.false_eq_true, if_false]
    cases hrows : violatedRows form x with
    | nil => exact ⟨fun h => ⟨hinside, rfl, h⟩, fun h => h.2.2⟩
    | cons row rest => exact ⟨fun h => (nomatch h), fun h => (nomatch h.2.1)⟩

/-- A point with one entry for every column has an objective. -/
theorem exists_evaluateObjective (hlength : x.length = m.columns.length)
    (hwithin : ∀ t ∈ m.objective.terms, t.1 < m.columns.length) :
    ∃ v, m.evaluateObjective x = .ok v := by
  have hterms : m.objective.terms.mapM (fun t => do
      return t.2 * (← SolveResult.entry x t.1) : Nat × K → Except (Fault K) K) =
      .ok (m.objective.terms.map fun t => t.2 * x.getD t.1 0) := by
    refine mapM_eq_ok _ fun t ht => ?_
    have ht : t.1 < x.length := hlength ▸ hwithin t ht
    rw [SolveResult.entry, List.getElem?_eq_getElem ht]
    simp [bind, Except.bind, pure, Except.pure, List.getD_eq_getElem?_getD, ht]
  unfold Model.evaluateObjective
  rw [if_neg (not_not.2 (show x.length = m.variableCount from hlength)), hterms]
  exact ⟨_, rfl⟩

theorem length_of_evaluateObjective {v : K} (h : m.evaluateObjective x = .ok v) :
    x.length = m.columns.length := by
  unfold Model.evaluateObjective at h
  split at h
  · cases h
  · exact not_not.1 ‹_›

end Check

section Tolerance

variable {F : Type} [Field F] [LinearOrder F] [IsStrictOrderedRing F] [FloorRing F]
  {m : Model (Exact F)} {x : List (Exact F)}

theorem feasibilityTolerance_eq : (feasibilityTolerance : Exact F) = .finite (1 / 10 ^ 6) := by
  simp [feasibilityTolerance, Scalar.decimal]

theorem outsideBounds_eq_false_iff {e lower upper : Exact F} :
    outsideBounds e lower upper = false ↔
      (lower - .finite (1 / 10 ^ 6)).Below e ∧ e.Below (upper + .finite (1 / 10 ^ 6)) := by
  rw [outsideBounds, Bool.or_eq_false_iff, Exact.less_eq_false_iff, Exact.less_eq_false_iff,
    feasibilityTolerance_eq]

/-- A row is not violated if and only if it holds up to the tolerance. -/
theorem violates_eq_false_iff {r : Relation} {left bound : Exact F} :
    violates r left bound = false ↔ r.HoldsWithin (1 / 10 ^ 6) left bound := by
  cases r with
  | atMost => rw [violates, Exact.less_eq_false_iff, feasibilityTolerance_eq]; rfl
  | atLeast => rw [violates, Exact.less_eq_false_iff, feasibilityTolerance_eq]; rfl
  | other => simp [violates, Relation.HoldsWithin]
  | equal => rw [violates, feasibilityTolerance_eq, Exact.less_abs_sub_iff]; rfl

/-- A column that is no placeholder keeps its own bounds in a matrix form. -/
theorem boundsAt_of_decisionCount (hm : m.decisionCount = 0) (y : List (Exact F))
    {v : Variable (Exact F)} (hv : v ∈ m.columns) : Model.boundsAt y v = (v.lower, v.upper) := by
  have hnone : v.decision = none := by
    by_contra hsome
    have hmem : v ∈ m.columns.filter (·.isDecision) :=
      List.mem_filter.2 ⟨hv, by simpa [Variable.isDecision, Option.isSome_iff_ne_none] using hsome⟩
    exact (List.length_pos_of_mem hmem).ne' hm
  rw [Model.boundsAt, hnone]

/-- The check of the bounds looks at every entry together with its column. -/
theorem inside_iff (hm : m.decisionCount = 0) (y : List (Exact F)) :
    (∀ b ∈ x.zip ((m.columns.map fun v => (Model.boundsAt y v).1).zip
        (m.columns.map fun v => (Model.boundsAt y v).2)), outsideBounds b.1 b.2.1 b.2.2 = false) ↔
      ∀ (k : Nat) v e, m.columns[k]? = some v → x[k]? = some e →
        (v.lower - .finite (1 / 10 ^ 6)).Below e ∧ e.Below (v.upper + .finite (1 / 10 ^ 6)) := by
  have hlower : (m.columns.map fun v => (Model.boundsAt y v).1) = m.columns.map (·.lower) :=
    List.map_congr_left fun v hv => by rw [boundsAt_of_decisionCount hm y hv]
  have hupper : (m.columns.map fun v => (Model.boundsAt y v).2) = m.columns.map (·.upper) :=
    List.map_congr_left fun v hv => by rw [boundsAt_of_decisionCount hm y hv]
  rw [hlower, hupper, List.zip_map', forall_mem_zip_iff]
  constructor
  · intro h k v e hv he
    exact outsideBounds_eq_false_iff.1 (h k e _ he (by rw [List.getElem?_map, hv]; rfl))
  · intro h k e b he hb
    rw [List.getElem?_map] at hb
    obtain ⟨v, hv, rfl⟩ := Option.map_eq_some_iff.1 hb
    exact outsideBounds_eq_false_iff.2 (h k v e hv he)

/-- The check of the rows looks at every row of the matrix together with what it stands for. -/
theorem unviolated_iff {f : StandardForm (Exact F)} (hrows : f.rows = m.matrix)
    (hrelations : f.relations = m.rows.map (·.relation))
    (hright : f.rightHandSide = m.rows.map fun r => r.bound - r.expr.constant) :
    violatedRows f x = [] ↔ ∀ (i : Nat) r row, m.rows[i]? = some r → m.matrix[i]? = some row →
      r.relation.HoldsWithin (1 / 10 ^ 6) (row.apply x) (r.bound - r.expr.constant) := by
  rw [violatedRows_eq_nil_iff, hrows, hrelations, hright, List.zip_map', forall_mem_zip_iff]
  constructor
  · intro h i r row hr hrow
    exact violates_eq_false_iff.1 (h i row _ hrow (by rw [List.getElem?_map, hr]; rfl))
  · intro h i row b hrow hb
    rw [List.getElem?_map] at hb
    obtain ⟨r, hr, rfl⟩ := Option.map_eq_some_iff.1 hb
    exact violates_eq_false_iff.2 (h i r row hr hrow)

/-- The check passes, with a value, if and only if there is one entry for every column and the
decision fits up to the tolerance. -/
theorem firstStageValue_ok_iff (hm : m.decisionCount = 0) {form : StandardForm (Exact F)}
    (hform : m.standardForm none = .ok form) : (∃ v, firstStageValue m x = .ok v) ↔
      x.length = m.columns.length ∧ m.FitsWithin (1 / 10 ^ 6) x := by
  obtain ⟨hwithin, y, -, rfl⟩ := Model.standardForm_eq_ok hform
  constructor
  · rintro ⟨v, hv⟩
    obtain ⟨_, hform', hbounds, hrows, hvalue⟩ := firstStageValue_eq_ok_iff.1 hv
    obtain rfl := Except.ok.inj (hform.symm.trans hform')
    exact ⟨length_of_evaluateObjective hvalue, (inside_iff hm y).1 hbounds,
      (unviolated_iff rfl rfl rfl).1 hrows⟩
  · rintro ⟨hlength, hfits⟩
    obtain ⟨v, hv⟩ := exists_evaluateObjective hlength hwithin
    exact ⟨v, firstStageValue_eq_ok_iff.2 ⟨_, hform, (inside_iff hm y).2 hfits.columns,
      (unviolated_iff rfl rfl rfl).2 hfits.rows, hv⟩⟩

end Tolerance

/-! ## First stages without placeholders -/

section Own

variable {σ K : Type}

/-- A first-stage model that was built refers to no decisions but its own columns. -/
def Grounded (p : Program σ K) : Prop := ∀ m e, p.master = some (m, e) → m.decisionCount = 0

theorem Grounded.congr {p p' : Program σ K} (hp : p.Grounded) (h : p'.master = p.master) :
    p'.Grounded := fun m e hm => hp m e (h ▸ hm)

variable [Scalar K]

theorem generate_sustains_grounded : Sustains Grounded (generate : Edit σ K Unit) := by
  refine .generate (fun p m _ hm => ?_) (fun _ _ hp _ => hp.congr rfl) fun _ hp => hp.congr rfl
  rintro m' e hm'
  cases hm'
  exact hm

variable [Host σ K]

theorem create_grounded (s : Setup σ K) : (create s).Ensures Grounded fun _ => True := by
  refine (create_empty s).mono (fun p hp m e hm => ?_) fun _ h => h
  rw [hp.2.1] at hm
  cases hm

/-- A loaded result leaves a model without placeholders. -/
theorem Grounded.install {p : Program σ K} (hp : p.Grounded) (solution : Solution K)
    (results : List (SolveResult K)) (master : Option (SolveResult K)) :
    (p.install solution results master).Grounded := by
  cases master with
  | none => exact hp.congr rfl
  | some r =>
    intro m e hm
    obtain ⟨⟨m', e'⟩, hm', hload⟩ := Option.map_eq_some_iff.1 hm
    cases hload
    exact hp m' e' hm'

/-- The first stage stays without placeholders through whatever is done to a program. -/
theorem grounded_lasting : Lasting (Grounded : Program σ K → Prop) where
  created := create_grounded
  data stage _ := .update fun p hp => by cases stage <;> exact hp.congr rfl
  recipe r := .update fun p hp => by cases r <;> exact hp.congr rfl
  generated := generate_sustains_grounded
  extended hp _ _ _ _ _ _ := hp.congr rfl
  rescaled factor := .of_ensures (rescale_reweighs factor)
    (fun _ _ _ hp h => hp.congr (by rw [h.rest])) fun _ _ _ hp h => hp.congr (by rw [h.rest])
  regrouped hp _ _ := hp.congr rfl
  installed hp := hp.install
  configured hp _ _ _ := hp.congr rfl

theorem Attainable.grounded {p : Program σ K} (h : p.Attainable) : p.Grounded :=
  grounded_lasting.attainable h

end Own

/-! ## Whatever is evaluated was checked -/

section Evaluations

variable {σ K α β : Type} [Scalar K] {p : Program σ K} {x : List K}

/-- A decision has the right length and a first-stage value. -/
def Passed (p : Program σ K) (x : List K) : Prop :=
  p.checkDecision x = .ok () ∧ ∃ m v, p.stageOneModel = .ok m ∧ firstStageValue m x = .ok v

/-- What holds after the last step of a change, wherever the first one leads to. -/
theorem ensures_then {c : Edit σ K α} {f : α → Edit σ K β} {Q : β → Program σ K → Prop}
    (h : ∀ a p', (f a).Ensures p' Q fun _ _ => True) (p : Program σ K) :
    (c >>= f).Ensures p Q fun _ _ => True :=
  Change.ensures_bind fun _ => (Settles.self _).mono (fun a _ => h a _) fun _ _ => trivial

/-- The three steps of the check, in front of what comes after. -/
theorem ensures_checked {f : K → Edit σ K α} {Q : α → Program σ K → Prop}
    (h : ∀ first, p.Passed x → (f first).Ensures p Q fun _ _ => True) :
    (do
      p.checkDecision x
      let first ← firstStageValue (← p.stageOneModel) x
      f first : Edit σ K α).Ensures p Q fun _ _ => True := by
  refine Change.ensures_lift_bind (fun _ hcheck => ?_) fun _ => trivial
  refine Change.ensures_lift_bind (fun m hm => ?_) fun _ => trivial
  refine Change.ensures_lift_bind (fun v hv => ?_) fun _ => trivial
  exact h v ⟨hcheck, m, v, hm, hv⟩

variable [Host σ K]

theorem valuesAt_passed (x : List K) (solver : Option (Solver σ K)) (p : Program σ K) :
    (valuesAt x solver).Ensures p (fun _ p' => p'.Passed x) fun _ _ => True := by
  unfold valuesAt
  refine Change.ensures_bind (Change.ensures_state (ensures_checked fun first hp => ?_))
  exact Change.ensures_ofAct_bind (fun _ => Change.ensures_pure hp) fun _ => trivial

/-- What comes after the values may look at the program. -/
theorem valued_passed {f : K × List K → Edit σ K α}
    (hf : ∀ r p', p'.Passed x → (f r).Ensures p' (fun _ p'' => p''.Passed x) fun _ _ => True)
    (solver : Option (Solver σ K)) (p : Program σ K) :
    (do
      generate
      validate none
      let r ← valuesAt x solver
      f r : Edit σ K α).Ensures p (fun _ p' => p'.Passed x) fun _ _ => True :=
  ensures_then (fun _ p₁ => ensures_then (fun _ p₂ => Change.ensures_bind
    ((valuesAt_passed x solver p₂).mono (fun r p' hp => hf r p' hp) fun _ _ h => h)) p₁) p

theorem evaluate_passed (x : List K) (solver : Option (Solver σ K)) (p : Program σ K) :
    (evaluate x solver).Ensures p (fun _ p' => p'.Passed x) fun _ _ => True := by
  unfold evaluate
  exact valued_passed (fun _ _ hp =>
    Change.ensures_bind (Change.ensures_state (Change.ensures_pure hp))) solver p

theorem evaluateFully_passed (x : List K) (solver : Option (Solver σ K)) (p : Program σ K) :
    (evaluateFully x solver).Ensures p (fun _ p' => p'.Passed x) fun _ _ => True := by
  unfold evaluateFully
  exact valued_passed (fun _ _ hp =>
    Change.ensures_bind (Change.ensures_state (Change.ensures_pure hp))) solver p

theorem outcomes_passed (x : List K) (solver : Option (Solver σ K)) (p : Program σ K) :
    (outcomes x solver).Ensures p (fun _ p' => p'.Passed x) fun _ _ => True := by
  unfold outcomes
  refine ensures_then (fun _ p₁ => ?_) p
  exact Change.ensures_bind ((valuesAt_passed x solver p₁).mono (fun _ _ hp =>
    Change.ensures_pure hp) fun _ _ h => h)

theorem evaluateScenario_passed (ref : ScenarioRef K) (x : List K) (solver : Option (Solver σ K))
    (p : Program σ K) :
    (evaluateScenario ref x solver).Ensures p (fun _ p' => p'.Passed x) fun _ _ => True := by
  unfold evaluateScenario
  refine ensures_then (fun m p₁ => ?_) p
  refine Change.ensures_bind (Change.ensures_state (ensures_checked fun first hp => ?_))
  refine Change.ensures_ofAct_bind (fun r => ?_) fun _ => trivial
  dsimp only
  split
  · exact Change.ensures_bind (Change.ensures_fail trivial)
  · exact Change.ensures_pure hp

end Evaluations

section Fitting

variable {F : Type} [Field F] [LinearOrder F] [IsStrictOrderedRing F] [FloorRing F] {σ : Type}
  {p : Program σ (Exact F)} {x : List (Exact F)}

/-- The first stage is built, and a decision fits it up to a slack. -/
def FitsFirstStage (p : Program σ (Exact F)) (slack : F) (x : List (Exact F)) : Prop :=
  ∃ m, p.stageOneModel = .ok m ∧ x.length = m.columns.length ∧ m.FitsWithin slack x

theorem master_of_stageOneModel {m : Model (Exact F)} (h : p.stageOneModel = .ok m) :
    p.master = some (m, p.firstEpoch) := by
  unfold stageOneModel at h
  split at h
  · cases h
    exact currentMaster?_eq_some.1 ‹_›
  · cases h

theorem Passed.fitsFirstStage (hp : p.Grounded) (h : p.Passed x) :
    p.FitsFirstStage (1 / 10 ^ 6) x := by
  obtain ⟨-, m, v, hm, hv⟩ := h
  obtain ⟨form, hform, -⟩ := firstStageValue_eq_ok_iff.1 hv
  exact ⟨m, hm, (firstStageValue_ok_iff (hp m _ (master_of_stageOneModel hm)) hform).1 ⟨v, hv⟩⟩

/-- A first stage that was built has a decision for every column. -/
theorem checkDecision_eq_ok (hp : p.Dated) {m : Model (Exact F)} (hm : p.stageOneModel = .ok m)
    (hlength : x.length = m.columns.length) : p.checkDecision x = .ok () := by
  have hdecisions : p.decisions = some m.decisions := by
    rw [hp.handle, master_of_stageOneModel hm]
    rfl
  have hcount : p.decisionCount = .ok x.length := by
    rw [decisionCount, currentDecisions, hdecisions, hlength]
    simp [Except.map, Model.decisions]
  rw [checkDecision, hcount]
  simp [bind, Except.bind, pure, Except.pure]

theorem passed_iff (hdated : p.Dated) (hp : p.Grounded) {m : Model (Exact F)}
    (hm : p.stageOneModel = .ok m) {form : StandardForm (Exact F)}
    (hform : m.standardForm none = .ok form) :
    p.Passed x ↔ x.length = m.columns.length ∧ m.FitsWithin (1 / 10 ^ 6) x := by
  rw [← firstStageValue_ok_iff (hp m _ (master_of_stageOneModel hm)) hform]
  constructor
  · rintro ⟨-, m', v, hm', hv⟩
    obtain rfl := Except.ok.inj (hm.symm.trans hm')
    exact ⟨v, hv⟩
  · rintro ⟨v, hv⟩
    obtain ⟨_, -, -, -, hvalue⟩ := firstStageValue_eq_ok_iff.1 hv
    exact ⟨checkDecision_eq_ok hdated hm (length_of_evaluateObjective hvalue), m, v, hm, hv⟩

variable [Host σ (Exact F)]

/-- Only decisions that fit the first stage are evaluated.  In every state that a program gets
to, a decision with a value, fully evaluated or not, in a scenario or in all of them, has one
entry for every column and fits the bounds and rows of the first stage up to the tolerance, but
for comparisons with an undefined side: these count as met.  That is the exact condition of the
check, and a decision that fits without any slack passes. -/
theorem Attainable.evaluated_fits (hp : p.Attainable) (x : List (Exact F))
    (solver : Option (Solver σ (Exact F))) (ref : ScenarioRef (Exact F)) :
    (evaluate x solver).Ensures p (fun _ p' => p'.FitsFirstStage (1 / 10 ^ 6) x) (fun _ _ => True) ∧
    (evaluateFully x solver).Ensures p (fun _ p' => p'.FitsFirstStage (1 / 10 ^ 6) x)
      (fun _ _ => True) ∧
    (evaluateScenario ref x solver).Ensures p (fun _ p' => p'.FitsFirstStage (1 / 10 ^ 6) x)
      (fun _ _ => True) ∧
    (outcomes x solver).Ensures p (fun _ p' => p'.FitsFirstStage (1 / 10 ^ 6) x) (fun _ _ => True) ∧
    ∀ m form, p.stageOneModel = .ok m → m.standardForm none = .ok form →
      (p.Passed x ↔ x.length = m.columns.length ∧ m.FitsWithin (1 / 10 ^ 6) x) ∧
      (x.length = m.columns.length → m.FitsWithin 0 x → p.Passed x) := by
  have hchecked : ∀ {α : Type} {c : Edit σ (Exact F) α}, Sustains Grounded c →
      c.Ensures p (fun _ p' => p'.Passed x) (fun _ _ => True) →
      c.Ensures p (fun _ p' => p'.FitsFirstStage (1 / 10 ^ 6) x) fun _ _ => True :=
    fun hground hpassed => ((hground p hp.grounded).and hpassed).mono
      (fun _ _ h => h.2.fitsFirstStage h.1) fun _ _ _ => trivial
  refine ⟨hchecked (grounded_lasting.evaluate x solver) (evaluate_passed x solver p),
    hchecked (grounded_lasting.evaluateFully x solver) (evaluateFully_passed x solver p),
    hchecked (grounded_lasting.evaluateScenario ref x solver)
      (evaluateScenario_passed ref x solver p), hchecked ?_ (outcomes_passed x solver p),
    fun m form hm hform => ?_⟩
  · unfold outcomes
    exact .bind generate_sustains_grounded fun _ =>
      .bind (.of_reads (valuesAt_reads x solver)) fun _ => .pure _
  · have hiff := passed_iff (x := x) hp.dated hp.grounded hm hform
    exact ⟨hiff, fun hlength hfits => hiff.2 ⟨hlength, hfits.mono (by positivity)⟩⟩

/-- Hardly less than one unit is kept. -/
def almostKept : Transcript ℚ where
  findings := [.optimal ⟨[.finite (1 - 1 / 10 ^ 6), .finite (1 - 1 / 10 ^ 6)],
    .finite (1 - 1 / 10 ^ 6), [-1], [], [1, 0], [0, 0], 0⟩]

/-- A reserve of one unit may fall short of it by the tolerance. -/
theorem reserve_evaluated_fits :
    let p := certain reserve upkeep
    p.Attainable ∧
      (evaluate [.finite (1 - 1 / 10 ^ 6)] none).Ensures p
        (fun _ p' => p'.FitsFirstStage (1 / 10 ^ 6) [.finite (1 - 1 / 10 ^ 6)]) (fun _ _ => True) ∧
      evaluated p [.finite (1 - 1 / 10 ^ 6)] almostKept =
        (some (.finite (2 - 2 / 10 ^ 6)), none) ∧
      evaluated p [.finite (1 - 2 / 10 ^ 6)] almostKept = (none, some (.infeasible, none)) := by
  intro p
  have hp : p.Attainable := (certain_reachable reserve upkeep).attainable
  exact ⟨hp, (hp.evaluated_fits _ none (.index .null)).1, by decide +kernel, by decide +kernel⟩

/-- A reserve with a spare of five units at most, which costs nothing. -/
def spareReserve : Model (Exact ℚ) :=
  { reserve with columns := reserve.columns ++ [⟨1, 0, .finite 5, some "z", none⟩] }

/-- A spare that is undefined is not at most five.  It is not refused all the same, and the
decision is worth as much as any other one with this reserve. -/
theorem spareReserve_evaluated_fits_false :
    (certain spareReserve reserve).Attainable ∧
      evaluated (certain spareReserve reserve) [1, .undefined] oneReserve =
        (some (.finite 2), none) ∧
      spareReserve.columns[1]?.map (·.upper) = some (.finite 5) ∧
      Scalar.atMost (.undefined : Exact ℚ) (.finite 5 + feasibilityTolerance) = false :=
  ⟨(certain_reachable spareReserve reserve).attainable, by decide +kernel, rfl, by decide +kernel⟩

end Fitting

end Program

end Recourse
