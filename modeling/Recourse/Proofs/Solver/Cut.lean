/-
  Proofs/Solver/Cut.lean --- cuts are valid.

  An optimality cut supports the expected loss of its scenarios: it is below it at
  every decision and touches it at its own (`optimalityCut_supports`).  A feasibility
  cut separates its decision from those at which its scenario is feasible
  (`feasibilityCut_separates`).
-/
import Recourse.LShaped.Step
import Recourse.Proofs.Solver.PhaseOne
import Recourse.Proofs.Solver.Round

set_option autoImplicit false
set_option linter.unusedSectionVars false

open scoped BigOperators

namespace Recourse

variable {F : Type} [Field F] [LinearOrder F] [IsStrictOrderedRing F] [FloorRing F]

/-! ## Vectors of numbers -/

theorem sum_eq_of_allFinite {xs : List (Exact F)} (h : AllFinite xs) :
    Scalar.sum xs = .finite (xs.map Exact.value).sum := by
  conv_lhs => rw [h.eq_map]
  rw [Exact.sum_finite]

theorem costAt_sub (xs : List (Exact F)) (u v : Nat → F) :
    (costAt xs fun j => u j - v j) = costAt xs u - costAt xs v := by
  rw [costAt, costAt, costAt, ← Finset.sum_sub_distrib]
  exact Finset.sum_congr rfl fun j _ => mul_sub _ _ _

@[simp] theorem costAt_zero (xs : List (Exact F)) : (costAt xs fun _ => 0) = 0 :=
  Finset.sum_eq_zero fun _ _ => mul_zero _

/-- Vectors are added entry by entry. -/
theorem zipWith_add_spec {xs ys : List (Exact F)} (hx : AllFinite xs) (hy : AllFinite ys)
    (h : ys.length = xs.length) :
    (List.zipWith (· + ·) xs ys).length = xs.length ∧ AllFinite (List.zipWith (· + ·) xs ys) ∧
      ∀ v, costAt (List.zipWith (· + ·) xs ys) v = costAt xs v + costAt ys v := by
  have hlength : (List.zipWith (· + ·) xs ys).length = xs.length := by simp [h]
  have hget : ∀ j (hj : j < (List.zipWith (· + ·) xs ys).length),
      (List.zipWith (· + ·) xs ys)[j] = .finite (coord xs j + coord ys j) := by
    intro j hj
    have hjx : j < xs.length := hlength ▸ hj
    have hjy : j < ys.length := h ▸ hjx
    rw [List.getElem_zipWith, ← List.getD_eq_getElem xs .undefined hjx,
      ← List.getD_eq_getElem ys .undefined hjy, hx.getD hjx, hy.getD hjy, Exact.finite_add]
  refine ⟨hlength, ?_, ?_⟩
  · intro a ha
    obtain ⟨j, hj, rfl⟩ := List.getElem_of_mem ha
    rw [hget j hj]
    exact Exact.isFinite_finite _
  · intro v
    rw [costAt, costAt, costAt, hlength, h, ← Finset.sum_add_distrib]
    apply Finset.sum_congr rfl
    intro j hj
    have hj : j < (List.zipWith (· + ·) xs ys).length := hlength ▸ Finset.mem_range.1 hj
    rw [coord, List.getD_eq_getElem _ _ hj, hget j hj, Exact.value_finite, add_mul]

/-- Several vectors are added one after the other. -/
theorem foldl_add_spec (gs : List (List (Exact F))) {g : List (Exact F)} (hg : AllFinite g)
    (hgs : ∀ h ∈ gs, AllFinite h ∧ h.length = g.length) :
    (gs.foldl (List.zipWith (· + ·)) g).length = g.length ∧
      AllFinite (gs.foldl (List.zipWith (· + ·)) g) ∧
      ∀ v, costAt (gs.foldl (List.zipWith (· + ·)) g) v =
        costAt g v + (gs.map fun h => costAt h v).sum := by
  induction gs generalizing g with
  | nil => exact ⟨rfl, hg, fun v => by simp⟩
  | cons h gs ih =>
    obtain ⟨hh, hlength⟩ := hgs h List.mem_cons_self
    obtain ⟨hsum, hfinite, hcost⟩ := zipWith_add_spec hg hh hlength
    obtain ⟨hl, hf, hc⟩ := ih hfinite fun h' hh' => by
      rw [hsum]
      exact hgs h' (List.mem_cons_of_mem _ hh')
    refine ⟨hl.trans hsum, hf, ?_⟩
    intro v
    rw [List.foldl_cons, hc v, hcost v, List.map_cons, List.sum_cons, add_assoc]

/-! ## Values of cuts -/

namespace Cut

/-- The number a cut takes at a decision. -/
def valueAt (c : Cut (Exact F)) (x : Nat → F) : F :=
  c.value.value + costAt c.gradient fun k => x k - coord c.decision k

/-- A cut in `n` decisions, made of numbers. -/
structure Shaped (c : Cut (Exact F)) (n : Nat) : Prop where
  /-- One slope per decision. -/
  gradient_length : c.gradient.length = n
  /-- One entry per decision. -/
  decision_length : c.decision.length = n
  /-- The slopes are numbers. -/
  gradient : AllFinite c.gradient
  /-- The decision is made of numbers. -/
  decision : AllFinite c.decision
  /-- The value is a number. -/
  value : Scalar.isFinite c.value = true

variable {c : Cut (Exact F)} {n : Nat}

theorem valueAt_eq (c : Cut (Exact F)) (x : Nat → F) :
    c.valueAt x = c.valueAt (fun _ => 0) + costAt c.gradient x := by
  rw [valueAt, valueAt, costAt_sub, costAt_sub, costAt_zero]
  ring

theorem valueAt_decision (c : Cut (Exact F)) : c.valueAt (coord c.decision) = c.value.value := by
  simp [valueAt]

theorem constant_eq (h : c.Shaped n) : c.constant = .finite (c.valueAt fun _ => 0) := by
  rw [constant, dot_eq h.gradient h.decision (h.gradient_length.trans h.decision_length.symm),
    ← Exact.finite_value h.value, Exact.finite_sub, valueAt, costAt_sub, costAt_zero, zero_sub,
    sub_eq_add_neg]

/-- The library's own evaluation of a cut agrees. -/
theorem evaluate_eq (h : c.Shaped n) {x : List (Exact F)} (hx : AllFinite x)
    (hlength : x.length = n) : c.evaluate x = .finite (c.valueAt (coord x)) := by
  rw [evaluate, constant_eq h, dot_eq h.gradient hx (h.gradient_length.trans hlength.symm),
    Exact.finite_add, valueAt_eq c (coord x)]

end Cut

/-! ## What cuts say -/

section Validity

variable {σ : Type}

/-- The loss that some scenarios contribute to a plan. -/
def Program.shareAt (p : Program σ (Exact F)) (is : List Nat) (y : Nat → Nat → F) : F :=
  (is.map fun i => p.weight i * (p.recourse i).lossAt (y i)).sum

/-- An optimality cut is below the loss of its scenarios and touches it at its own
decision. -/
structure Cut.Supports (c : Cut (Exact F)) (p : Program σ (Exact F)) (is : List Nat) : Prop where
  /-- It is an optimality cut. -/
  kind : c.kind = .optimality
  /-- It is made of numbers. -/
  shaped : c.Shaped p.firstStage.columns.length
  /-- It covers the scenarios. -/
  scenarios : c.scenarios = is.map Int.ofNat
  /-- It is below their loss. -/
  below : ∀ (x : Nat → F) (y : Nat → Nat → F), (∀ i ∈ is, (p.recourse i).Fits x (y i)) →
    c.valueAt x ≤ p.shareAt is y
  /-- It touches their loss where it was derived. -/
  attained : ∃ y : Nat → Nat → F, (∀ i ∈ is, (p.recourse i).Solves (coord c.decision) (y i)) ∧
    c.value = .finite (p.shareAt is y)

/-- A feasibility cut is at most zero where its scenario is feasible, and positive where
it was derived. -/
structure Cut.Separates (c : Cut (Exact F)) (p : Program σ (Exact F)) (i : Nat) : Prop where
  /-- It is a feasibility cut. -/
  kind : c.kind = .feasibility
  /-- It is made of numbers. -/
  shaped : c.Shaped p.firstStage.columns.length
  /-- It covers the scenario. -/
  scenarios : c.scenarios = [Int.ofNat i]
  /-- It is at most zero where something fits. -/
  below : ∀ x v : Nat → F, (p.recourse i).Fits x v → c.valueAt x ≤ 0
  /-- It is positive at its own decision. -/
  violated : 0 < c.value.value

end Validity

section Derivation

variable {σ : Type} {p : Program σ (Exact F)} {x : List (Exact F)}

/-- What the outcome of a scenario says: its value is optimal, and its gradient bounds
the loss at other decisions. -/
theorem Program.Solved.spec (hp : p.Proper) {i : Nat} (hi : i < p.scenarioCount)
    (hx : AllFinite x) (hlength : x.length = p.firstStage.columns.length)
    {o : Outcome (Exact F)} (h : p.Solved x i o) {v : Nat → F}
    (hv : (p.recourse i).Solves (coord x) v) :
    o.objective = .finite ((p.recourse i).objectiveAt v) ∧ o.gradient.length = x.length ∧
      AllFinite o.gradient ∧ ∀ x' v' : Nat → F, (p.recourse i).Fits x' v' →
        (p.recourse i).lossAt v + (p.recourse i).goal.factor *
          costAt o.gradient (fun k => x' k - coord x k) ≤ (p.recourse i).lossAt v' := by
  have hm := hp.second i hi
  have hcount : (p.recourse i).decisionCount = 0 ∨ (p.recourse i).decisionCount = x.length :=
    hlength ▸ hp.placeholders i hi
  have hsuits := Model.suits_of_length hx hcount
  have hduals := h.reports.duals_finite h.optimal
  have hgradient := (Model.recourseGradient_settles hm hduals.1 hduals.2 hcount).of_ok h.gradient
  have hsolves := h.reports.solves hm hsuits h.optimal
  have hvalue : (p.recourse i).objectiveAt (coord o.result.point) =
      (p.recourse i).objectiveAt v :=
    Model.HasValue.unique ⟨_, hsolves, rfl⟩ ⟨v, hv, rfl⟩
  refine ⟨?_, hgradient.1, hgradient.2.1, ?_⟩
  · rw [h.objective, h.reports.objective hm h.optimal, hvalue]
  · intro x' v' hv'
    have hle := h.reports.loss_ge hm hsuits h.optimal h.gradient hcount hv'
    rw [hvalue] at hle
    rw [Model.lossAt, ← mul_add]
    exact hle

/-- A scenario that was solved has an optimum. -/
theorem Program.Solved.exists_solves (hp : p.Proper) {i : Nat} (hi : i < p.scenarioCount)
    (hx : AllFinite x) (hlength : x.length = p.firstStage.columns.length)
    {o : Outcome (Exact F)} (h : p.Solved x i o) : ∃ v, (p.recourse i).Solves (coord x) v :=
  ⟨_, h.reports.solves (hp.second i hi)
    (Model.suits_of_length hx (hlength ▸ hp.placeholders i hi)) h.optimal⟩

/-- A member on the right of related lists is related to one on the left. -/
theorem exists_mem_of_forall₂ {α β : Type} {R : α → β → Prop} {xs : List α} {ys : List β}
    (h : List.Forall₂ R xs ys) {b : β} (hb : b ∈ ys) : ∃ a ∈ xs, R a b := by
  induction h with
  | nil => cases hb
  | cons hr _ ih =>
    rcases List.mem_cons.1 hb with rfl | hb
    · exact ⟨_, List.mem_cons_self, hr⟩
    · obtain ⟨a, ha, hab⟩ := ih hb
      exact ⟨a, List.mem_cons_of_mem _ ha, hab⟩

/-- Solved scenarios have optima. -/
theorem exists_solutions (hp : p.Proper) (hx : AllFinite x)
    (hlength : x.length = p.firstStage.columns.length) {is : List Nat}
    (his : ∀ i ∈ is, i < p.scenarioCount) {os : List (Outcome (Exact F))}
    (h : List.Forall₂ (p.Solved x) is os) :
    ∃ y : Nat → Nat → F, ∀ i ∈ is, (p.recourse i).Solves (coord x) (y i) := by
  have hall : ∀ i ∈ is, ∃ v, (p.recourse i).Solves (coord x) v := by
    induction h with
    | nil => exact fun i hi => absurd hi List.not_mem_nil
    | cons ho _ ih =>
      intro j hj
      rcases List.mem_cons.1 hj with rfl | hj
      · exact ho.exists_solves hp (his _ List.mem_cons_self) hx hlength
      · exact ih (fun i hi => his i (List.mem_cons_of_mem _ hi)) j hj
  classical
  refine ⟨fun i => if h : ∃ v, (p.recourse i).Solves (coord x) v then h.choose else 0, ?_⟩
  intro i hi
  simp only [dif_pos (hall i hi)]
  exact (hall i hi).choose_spec

variable {is : List Nat} {os : List (Outcome (Exact F))} {y : Nat → Nat → F}

/-- The weighed values of solved scenarios are numbers; turned into minimization they
sum up to the loss of the scenarios. -/
theorem sum_values (hp : p.Proper) (hs : p.Solvable) (hx : AllFinite x)
    (hlength : x.length = p.firstStage.columns.length) (his : ∀ i ∈ is, i < p.scenarioCount)
    (h : List.Forall₂ (p.Solved x) is os)
    (hy : ∀ i ∈ is, (p.recourse i).Solves (coord x) (y i)) :
    p.firstStage.goal.sign * Scalar.sum (os.map fun o => o.probability * o.objective) =
      .finite (p.shareAt is y) := by
  have hsum : AllFinite (os.map fun o => o.probability * o.objective) ∧
      p.firstStage.goal.factor *
        ((os.map fun o => o.probability * o.objective).map Exact.value).sum = p.shareAt is y := by
    induction h with
    | nil => exact ⟨allFinite_nil, by simp [Program.shareAt]⟩
    | @cons i o is os ho _ ih =>
      have hi := his i List.mem_cons_self
      obtain ⟨hfinite, hshare⟩ := ih (fun i hi => his i (List.mem_cons_of_mem _ hi))
        fun i hi => hy i (List.mem_cons_of_mem _ hi)
      have hvalue : o.probability * o.objective =
          .finite (p.weight i * (p.recourse i).objectiveAt (y i)) := by
        rw [ho.probability, (ho.spec hp hi hx hlength (hy i List.mem_cons_self)).1,
          Exact.finite_mul]
      constructor
      · intro a ha
        rcases List.mem_cons.1 ha with ha | ha
        · rw [ha]
          simp only [hvalue, Exact.isFinite_finite]
        · exact hfinite a ha
      · rw [List.map_cons, List.map_cons, List.sum_cons, hvalue, mul_add, hshare,
          Program.shareAt, Program.shareAt, List.map_cons, List.sum_cons, Model.lossAt, hs.goals i hi,
          Exact.value_finite]
        ring
  rw [sum_eq_of_allFinite hsum.1, Goal.sign_eq, Exact.finite_mul, hsum.2]

/-- The weighed gradients of solved scenarios bound their loss at other decisions. -/
theorem sum_slopes (hp : p.Proper) (hs : p.Solvable) (hx : AllFinite x)
    (hlength : x.length = p.firstStage.columns.length) (his : ∀ i ∈ is, i < p.scenarioCount)
    (h : List.Forall₂ (p.Solved x) is os)
    (hy : ∀ i ∈ is, (p.recourse i).Solves (coord x) (y i)) {x' : Nat → F} {y' : Nat → Nat → F}
    (hy' : ∀ i ∈ is, (p.recourse i).Fits x' (y' i)) :
    p.shareAt is y + p.firstStage.goal.factor *
      (os.map fun o => o.probability.value * costAt o.gradient fun k => x' k - coord x k).sum ≤
      p.shareAt is y' := by
  induction h with
  | nil => simp [Program.shareAt]
  | @cons i o is os ho _ ih =>
    have hi := his i List.mem_cons_self
    have hrest := ih (fun i hi => his i (List.mem_cons_of_mem _ hi))
      (fun i hi => hy i (List.mem_cons_of_mem _ hi)) fun i hi => hy' i (List.mem_cons_of_mem _ hi)
    have hone := (ho.spec hp hi hx hlength (hy i List.mem_cons_self)).2.2.2 x' (y' i)
      (hy' i List.mem_cons_self)
    have hweighed := mul_le_mul_of_nonneg_left hone (hp.weight_nonneg i)
    rw [hs.goals i hi] at hweighed
    rw [List.map_cons, List.sum_cons, ho.probability, Exact.value_finite]
    simp only [Program.shareAt, List.map_cons, List.sum_cons] at hrest ⊢
    linarith

/-- The cut of solved scenarios supports their loss. -/
theorem optimalityCut_supports (hp : p.Proper) (hs : p.Solvable) (hx : AllFinite x)
    (hlength : x.length = p.firstStage.columns.length) (his : ∀ i ∈ is, i < p.scenarioCount)
    (h : List.Forall₂ (p.Solved x) is os) :
    (LShaped.optimalityCut p.firstStage.goal.sign x os).Supports p is := by
  obtain ⟨y, hy⟩ := exists_solutions hp hx hlength his h
  have hvalue := sum_values hp hs hx hlength his h hy
  have hsum : ∀ g ∈ os.map fun o => Scalar.scale o.probability o.gradient,
      AllFinite g ∧ g.length = (Scalar.zeros x.length : List (Exact F)).length := by
    intro g hg
    obtain ⟨o, ho, rfl⟩ := List.mem_map.1 hg
    obtain ⟨i, hi, hsolved⟩ := exists_mem_of_forall₂ h ho
    have hspec := hsolved.spec hp (his i hi) hx hlength (hy i hi)
    rw [hsolved.probability]
    exact ⟨hspec.2.2.1.scale _, by simp [Scalar.scale, Scalar.zeros, hspec.2.1]⟩
  -- The gradient of the cut is a sum over the scenarios, and its slope the sum of theirs.
  obtain ⟨hgradient, hfinite, hcost⟩ := foldl_add_spec _ (allFinite_zeros x.length) hsum
  have hzeros : (Scalar.zeros x.length : List (Exact F)).length = x.length := by
    simp [Scalar.zeros]
  have hscenarios : os.map (·.index) = is.map Int.ofNat := by
    clear hcost hsum hgradient hfinite hvalue hy his
    induction h with
    | nil => rfl
    | cons ho _ ih => rw [List.map_cons, List.map_cons, ih, ho.index]; rfl
  refine ⟨rfl, ⟨?_, hlength, ?_, hx, ?_⟩, hscenarios, ?_, y, hy, hvalue⟩
  · simp only [LShaped.optimalityCut, Scalar.scale, List.length_map]
    exact (hgradient.trans hzeros).trans hlength
  · simp only [LShaped.optimalityCut, Goal.sign_eq]
    exact hfinite.scale _
  · simp only [LShaped.optimalityCut]
    rw [hvalue]
    exact Exact.isFinite_finite _
  · intro x' y' hy'
    have hle := sum_slopes hp hs hx hlength his h hy hy'
    have hslopes : ((os.map fun o => Scalar.scale o.probability o.gradient).map fun g =>
        costAt g fun k => x' k - coord x k) =
        os.map fun o => o.probability.value * costAt o.gradient fun k => x' k - coord x k := by
      rw [List.map_map]
      apply List.map_congr_left
      intro o ho
      obtain ⟨i, hi, hsolved⟩ := exists_mem_of_forall₂ h ho
      have hspec := hsolved.spec hp (his i hi) hx hlength (hy i hi)
      rw [Function.comp_apply, hsolved.probability, costAt_scale _ hspec.2.2.1,
        Exact.value_finite]
    simp only [Cut.valueAt, LShaped.optimalityCut]
    rw [hvalue, Exact.value_finite, Goal.sign_eq, costAt_scale _ hfinite, hcost, costAt_zeros,
      zero_add, hslopes]
    exact hle

/-- The cut of phase one separates its decision. -/
theorem feasibilityCut_separates {i : Nat} (hx : AllFinite x)
    (hlength : x.length = p.firstStage.columns.length) {value : Exact F} {g : List (Exact F)}
    (hvalue : Scalar.isFinite value = true) (hg : g.length = x.length) (hfinite : AllFinite g)
    (hbelow : ∀ x' v : Nat → F, (p.recourse i).Fits x' v →
      value.value + costAt g (fun k => x' k - coord x k) ≤ 0)
    (hleast : Scalar.atMost value (LShaped.leastViolation : Exact F) = false) :
    Cut.Separates { kind := .feasibility, gradient := g, value, decision := x,
                    scenarios := [(i : Int)] } p i := by
  refine ⟨rfl, ⟨hg.trans hlength, hlength, hfinite, hx, hvalue⟩, rfl, hbelow, ?_⟩
  have hviolation : (LShaped.leastViolation : Exact F) = .finite (1 / 10 ^ 9) := by
    simp [LShaped.leastViolation, Scalar.decimal]
  rw [← Exact.finite_value hvalue, hviolation, Exact.atMost_finite, decide_eq_false_iff_not,
    not_le] at hleast
  exact lt_trans (by positivity) hleast

end Derivation

end Recourse
