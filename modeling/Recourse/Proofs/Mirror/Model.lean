/-
  Proofs/Mirror/Model.lean --- models with their sense turned.

  The mirror image of a model has the opposite objective and the other sense.  Its
  matrix form is the mirror image of that of the model, and the linear program of both
  is the same: a sign that turns with the sense undoes the exchange.  What a backend
  reports of the image is the image of what it reports of the model, so the duals of
  both give opposite gradients, and the phase-one problem knows no sense at all.
-/
import Recourse.Proofs.Mirror.Alike
import Recourse.Proofs.Mirror.Arithmetic
import Recourse.Solver.PhaseOne

set_option autoImplicit false
set_option linter.unusedSectionVars false

namespace Recourse

variable {σ K : Type} [Scalar K]

/-! ## Mirror images -/

/-- The other sense. -/
def Goal.flip : Goal → Goal
  | .minimize => .maximize
  | .maximize => .minimize

theorem Goal.flip_inj (g g' : Goal) : g.flip = g'.flip ↔ g = g' := by
  cases g <;> cases g' <;> decide

/-- The opposite expression. -/
def LinearExpr.mirror (e : LinearExpr K) : LinearExpr K :=
  { e with terms := e.terms.map fun t => (t.1, -t.2), constant := -e.constant }

/-- A result with the numbers of the objective's sense exchanged with their opposites. -/
def SolveResult.mirror (r : SolveResult K) : SolveResult K :=
  { r with
    objective := -r.objective
    duals := Scalar.negated r.duals
    reducedCosts := r.reducedCosts.map Scalar.negated }

/-- A model with the opposite objective and the other sense. -/
def Model.mirror (m : Model K) : Model K :=
  { m with
    objective? := m.objective?.map LinearExpr.mirror
    goal := m.goal.flip
    result := m.result.map SolveResult.mirror }

/-- A matrix form with the opposite objective and the other sense. -/
def StandardForm.mirror (f : StandardForm K) : StandardForm K :=
  { f with cost := Scalar.negated f.cost, constant := -f.constant, goal := f.goal.flip }

/-- A backend that treats a result and its mirror image alike.  One that hands out what the
host found does, and so does every backend that is made from parameters. -/
def Backend.Even (b : Backend σ K) : Prop :=
  ∀ r : SolveResult K, (b.report r).Alike (b.report r.mirror) fun a a' => a' = a.mirror

theorem Backend.even_of_report {b : Backend σ K} (h : b.report = pure) : b.Even := by
  intro r
  rw [h]
  exact Act.alike_pure rfl

theorem Backend.plain_even : (Backend.plain : Backend σ K).Even := even_of_report rfl

theorem Backend.even_of_ofParams {params : Setting K} {b : Backend σ K}
    (h : Backend.ofParams params = .ok b) : b.Even := by
  unfold Backend.ofParams at h
  obtain ⟨entries, -, h⟩ := bind_eq_ok_iff.1 h
  exact even_of_report (congrArg Backend.report (Except.ok.inj h)).symm

theorem Backend.Even.withParam {b : Backend σ K} (h : b.Even) (key : String) (value : Setting K) :
    (b.withParam key value).Even := by
  unfold Backend.withParam
  split
  · exact h
  · exact h

variable [Scalar.Symmetric K]

/-! ## Objectives -/

@[simp] theorem Goal.sign_flip (g : Goal) : (g.flip.sign : K) = -g.sign := by
  cases g with
  | minimize => rfl
  | maximize => exact (Scalar.Symmetric.neg_neg 1).symm

theorem Table.find?_mirror (terms : Table Nat K) (i : Nat) :
    Table.find? (terms.map fun t => (t.1, -t.2)) i = (Table.find? terms i).map (-·) := by
  induction terms with
  | nil => rfl
  | cons t terms ih =>
    rw [List.map_cons, Table.find?, Table.find?, ih]
    split <;> rfl

@[simp] theorem LinearExpr.coefficient_mirror (e : LinearExpr K) (i : Nat) :
    e.mirror.coefficient i = -e.coefficient i := by
  show (Table.find? (e.terms.map fun t => (t.1, -t.2)) i).getD 0 = _
  rw [Table.find?_mirror, LinearExpr.coefficient]
  cases Table.find? e.terms i with
  | none => exact Scalar.Symmetric.neg_zero.symm
  | some c => rfl

namespace Model

@[simp] theorem objective_mirror (m : Model K) : m.mirror.objective = m.objective.mirror := by
  unfold Model.objective Model.mirror
  cases m.objective? with
  | none => exact congrArg (LinearExpr.mk [] · []) Scalar.Symmetric.neg_zero.symm
  | some e => rfl

/-- The value of the objective of the mirror image. -/
theorem evaluateObjective_mirror (m : Model K) (point : List K) :
    m.mirror.evaluateObjective point = (m.evaluateObjective point).map (-·) := by
  have hcolumns : m.mirror.variableCount = m.variableCount := rfl
  have hterms : (m.objective.terms.map fun t => (t.1, -t.2)).mapM (fun t : Nat × K => do
        return t.2 * (← SolveResult.entry point t.1)) =
      (m.objective.terms.mapM fun t : Nat × K => do
        return t.2 * (← SolveResult.entry point t.1)).map (List.map (-·)) := by
    refine mapM_map_eq m.objective.terms fun t _ => ?_
    cases SolveResult.entry point t.1 with
    | error f => rfl
    | ok x => exact congrArg Except.ok (Scalar.Symmetric.neg_mul t.2 x)
  unfold Model.evaluateObjective
  dsimp only
  rw [objective_mirror, LinearExpr.mirror, hcolumns, hterms]
  split
  · rfl
  · cases List.mapM (m := Except (Fault K)) _ m.objective.terms with
    | error f => rfl
    | ok terms =>
      show Except.ok (Scalar.sum (Scalar.negated terms) + -m.objective.constant) = _
      rw [Scalar.sum_negated, Scalar.Symmetric.neg_add_neg]
      rfl

/-! ## Matrix forms -/

theorem standardForm_mirror (m : Model K) (decision : Option (List K)) :
    m.mirror.standardForm decision = (m.standardForm decision).map StandardForm.mirror := by
  have hterms : (m.mirror.objective.terms.any fun t => decide (m.variableCount ≤ t.1)) =
      m.objective.terms.any fun t => decide (m.variableCount ≤ t.1) := by
    rw [objective_mirror, LinearExpr.mirror, List.any_map]
    rfl
  have hcost : (List.range m.variableCount).map m.mirror.objective.coefficient =
      Scalar.negated ((List.range m.variableCount).map m.objective.coefficient) := by
    rw [Scalar.negated, List.map_map, objective_mirror]
    exact congrArg (List.map · _) (funext m.objective.coefficient_mirror)
  have hcolumns : m.mirror.variableCount = m.variableCount := rfl
  have hrows : m.mirror.rows = m.rows := rfl
  have hdecision : m.mirror.decisionFor decision = m.decisionFor decision := rfl
  unfold Model.standardForm
  dsimp only
  rw [hcolumns, hterms, hcost, hrows, hdecision]
  split
  · rfl
  · cases m.decisionFor decision with
    | error f => rfl
    | ok x =>
      dsimp only [bind, Except.bind]
      split
      · rfl
      · rw [objective_mirror]
        rfl

end Model

theorem StandardForm.toProgram_mirror (f : StandardForm K) : f.mirror.toProgram = f.toProgram := by
  have hcost : Scalar.scale f.mirror.sign f.mirror.cost = Scalar.scale f.sign f.cost := by
    show Scalar.scale f.goal.flip.sign (Scalar.negated f.cost) = _
    rw [Goal.sign_flip, Scalar.scale_neg, Scalar.scale_negated, Scalar.negated_negated,
      StandardForm.sign]
  have hcolumns : f.mirror.columns = f.columns := Scalar.length_negated f.cost
  unfold StandardForm.toProgram
  rw [hcost, hcolumns]
  rfl

theorem SolveResult.inSense_mirror (r : SolveResult K) (sign constant : K) :
    r.inSense (-sign) (-constant) = (r.inSense sign constant).mirror := by
  unfold SolveResult.inSense SolveResult.mirror
  rw [Scalar.Symmetric.neg_mul, Scalar.Symmetric.neg_add_neg, Scalar.scale_neg, Option.map_map]
  exact congrArg (fun d => { r with
    objective := -(sign * r.objective + constant)
    duals := Scalar.negated (Scalar.scale sign r.duals)
    reducedCosts := r.reducedCosts.map d }) (funext (Scalar.scale_neg sign))

/-! ## Backends -/

/-- Both images are solved as the same linear program, with opposite results. -/
theorem Backend.optimize_mirror [Host σ K] {b : Backend σ K} (hb : b.Even) (m : Model K)
    (decision : Option (List K)) :
    (b.optimize m decision).Alike (b.optimize m.mirror decision) fun r r' => r' = r.mirror := by
  unfold Backend.optimize
  refine Act.alike_bind_map (Act.alike_lift (.of_eq (m.standardForm_mirror decision)))
    fun form => ?_
  rw [form.toProgram_mirror]
  refine Act.alike_bind_map (Act.Alike.refl _) fun r => ?_
  show (b.report (r.inSense form.sign form.constant)).Alike
    (b.report (r.inSense form.goal.flip.sign (-form.constant))) _
  rw [Goal.sign_flip, SolveResult.inSense_mirror]
  exact hb _

/-! ## Gradients -/

theorem SolveResult.entry_negated (xs : List K) (i : Nat) :
    SolveResult.entry (Scalar.negated xs) i = (SolveResult.entry xs i).map (-·) := by
  rw [SolveResult.entry, SolveResult.entry, Scalar.getElem?_negated]
  cases xs[i]? <;> rfl

theorem subtractAt_negated (g : List K) (j : Nat) (x : K) :
    subtractAt (Scalar.negated g) j (-x) = (subtractAt g j x).map Scalar.negated := by
  have hentries : (Scalar.negated g).modify j (· - -x) = Scalar.negated (g.modify j (· - x)) :=
    modify_map_eq (fun y => Scalar.sub_neg_neg y x) g j
  unfold subtractAt
  rw [Scalar.length_negated, hentries]
  split <;> rfl

namespace Model

theorem subtractDuals_mirror (m : Model K) (duals g : List K) :
    m.mirror.subtractDuals (Scalar.negated duals) (Scalar.negated g) =
      (m.subtractDuals duals g).map Scalar.negated := by
  refine foldlM_map_eq (fun g t => ?_) g m.masterTerms
  rw [Scalar.length_negated, SolveResult.entry_negated]
  split
  · rfl
  · cases SolveResult.entry duals t.1.toNat with
    | error f => rfl
    | ok d =>
      show subtractAt (Scalar.negated g) t.2.1 (-d * t.2.2) = _
      rw [Scalar.Symmetric.neg_mul, subtractAt_negated]
      rfl

@[simp] theorem decisionObjective_mirror (m : Model K) :
    m.mirror.decisionObjective = Scalar.negated m.decisionObjective := by
  unfold Model.decisionObjective
  rw [objective_mirror, Scalar.negated, List.map_map]
  exact congrArg (List.map · m.placeholders)
    (funext fun p => m.objective.coefficient_mirror p.2.index)

theorem addDecisionObjective_mirror (m : Model K) (g : List K) :
    m.mirror.addDecisionObjective (Scalar.negated g) =
      (m.addDecisionObjective g).map Scalar.negated := by
  unfold Model.addDecisionObjective
  rw [decisionObjective_mirror]
  rcases m.decisionObjective with _ | ⟨c, _ | ⟨d, cs⟩⟩
  · rfl
  · refine congrArg Except.ok ?_
    rw [Scalar.negated, Scalar.negated, List.map_map, List.map_map]
    exact congrArg (List.map · g) (funext fun x => Scalar.Symmetric.neg_add_neg x c)
  · dsimp only [Scalar.negated_cons]
    rw [← Scalar.negated_cons, ← Scalar.negated_cons, Scalar.length_negated,
      Scalar.length_negated, Scalar.zipWith_add_negated]
    split <;> rfl

/-- Opposite duals give the opposite gradient. -/
theorem recourseGradient_mirror (m : Model K) (r : SolveResult K) (dims : Nat) :
    m.mirror.recourseGradient r.mirror dims =
      (m.recourseGradient r dims).map Scalar.negated := by
  have hobjective := m.addDecisionObjective_mirror (Scalar.zeros dims)
  rw [Scalar.negated_zeros] at hobjective
  unfold Model.recourseGradient
  rw [hobjective]
  cases m.addDecisionObjective (Scalar.zeros dims) with
  | error f => rfl
  | ok g => exact m.subtractDuals_mirror r.duals g

/-- How far a model is from feasible has no sense. -/
theorem phaseOne_mirror [Host σ K] (m : Model K) (decision : List K) (dims : Nat)
    (params : Setting K) : (m.mirror.phaseOne decision dims params : Act σ K (K × List K)) =
      m.phaseOne decision dims params := by
  have hproblem (f : StandardForm K) : PhaseOne.problem f.mirror = PhaseOne.problem f := by
    have hcolumns : f.mirror.columns = f.columns := Scalar.length_negated f.cost
    unfold PhaseOne.problem
    rw [hcolumns]
    rfl
  unfold Model.phaseOne
  rw [standardForm_mirror]
  cases m.standardForm (some decision) with
  | error f => rfl
  | ok f =>
    show (PhaseOne.problem f.mirror).solve params >>= _ = _
    rw [hproblem]
    rfl

end Model

end Recourse
