/-
  Proofs/Sampled/Worth.lean --- what a decision is worth on a sample.

  Evaluating a decision and estimating it solve the same subproblems (`Program.appraise`).
  On a sample, where the scenarios share the probability, the expectation over the scenarios is
  the mean of the outcomes (`Program.On.exists_mean`).  So there is an estimate where there is a
  value, and the value is its middle (`Study.Reads.exists_estimate_iff`,
  `Study.Reads.midpoint_estimate`).
-/
import Recourse.Proofs.Evaluation.Values
import Recourse.Proofs.Sampled.Selection
import Recourse.Proofs.Sampled.Tape
import Recourse.Proofs.Solver.Results

set_option autoImplicit false
set_option linter.unusedSectionVars false

namespace Recourse

variable {F : Type} [Field F] [LinearOrder F] [IsStrictOrderedRing F] [FloorRing F] {σ : Type}

/-! ## Means as expectations -/

namespace Exact

/-- A sum is a number only where both summands are. -/
theorem add_eq_finite {x y : Exact F} {z : F} (h : x + y = .finite z) :
    ∃ a b, x = .finite a ∧ y = .finite b ∧ a + b = z := by
  cases x with
  | finite a =>
    cases y with
    | finite b => exact ⟨a, b, rfl, rfl, Exact.finite.inj h⟩
    | _ => cases h
  | _ => cases y <;> cases h

/-- A multiple is a number only of a number. -/
theorem finite_mul_eq_finite {a : F} {x : Exact F} {z : F} (h : finite a * x = .finite z) :
    ∃ b, x = .finite b := by
  cases x with
  | finite b => exact ⟨b, rfl⟩
  | undefined => cases h
  | plusInfinity | minusInfinity =>
    simp only [mul_eq, Exact.mul, amplify, Exact.neg] at h
    split_ifs at h

theorem sum_eq_finite {xs : List (Exact F)} {z : F} (h : Scalar.sum xs = .finite z) :
    ∃ ys : List F, xs = ys.map .finite ∧ ys.sum = z := by
  induction xs generalizing z with
  | nil => exact ⟨[], rfl, Exact.finite.inj h⟩
  | cons x xs ih =>
    rw [sum_cons] at h
    obtain ⟨a, b, rfl, hb, rfl⟩ := add_eq_finite h
    obtain ⟨ys, rfl, rfl⟩ := ih hb
    exact ⟨a :: ys, rfl, List.sum_cons⟩

/-- Equal weights can be taken out of an expectation. -/
theorem dot_replicate (q : F) (xs : List (Exact F)) :
    Scalar.dot (List.replicate xs.length (.finite q)) xs = .finite q * Scalar.sum xs := by
  rw [finite_mul_sum, Scalar.dot]
  congr 1
  induction xs with
  | nil => rfl
  | cons x xs ih => rw [List.length_cons, List.replicate_succ, List.zipWith_cons_cons, ih,
      List.map_cons]

/-- With equal weights a number plus the expectation of others is the mean of the sums. -/
theorem exists_mean_of_expectation {x : Exact F} {xs : List (Exact F)} (hne : xs ≠ []) {z : F}
    (h : x + Scalar.dot (List.replicate xs.length (.finite (1 / xs.length))) xs = .finite z) :
    ∃ ys : List F, xs.map (x + ·) = ys.map .finite ∧ ys.sum / ys.length = z := by
  have hlength : (xs.length : F) ≠ 0 := Nat.cast_ne_zero.2 (mt List.length_eq_zero_iff.1 hne)
  rw [dot_replicate] at h
  obtain ⟨a, b, rfl, hb, rfl⟩ := add_eq_finite h
  obtain ⟨c, hc⟩ := finite_mul_eq_finite hb
  obtain ⟨ys, rfl, rfl⟩ := sum_eq_finite hc
  rw [sum_finite, finite_mul] at hb
  refine ⟨ys.map (a + ·), ?_, ?_⟩
  · rw [List.map_map, List.map_map]
    rfl
  · rw [List.length_map] at hlength hb
    rw [← Exact.finite.inj hb, List.length_map, List.sum_map_add, List.map_const',
      List.sum_replicate, nsmul_eq_mul, List.map_id']
    field_simp

end Exact

/-! ## Appraising a decision -/

namespace Program

section Scalar

variable {K : Type} [Scalar K] [Host σ K] {x : List K} {solver : Option (Solver σ K)}
  {p p' : Program σ K} {ledger ledger' : Ledger σ K}

/-- Build what is missing, and look up the first-stage value of a decision and the values of the
subproblems at it. -/
def appraise (x : List K) (solver : Option (Solver σ K)) : Edit σ K (K × List K) := do
  generate
  valuesAt x solver

/-- The outcomes come from what is looked up. -/
theorem outcomes_ok_iff {values : List K} :
    (outcomes x solver).run.run (p, ledger) = (.ok values, p', ledger') ↔
      ∃ first recourse,
        (appraise x solver).run.run (p, ledger) = (.ok (first, recourse), p', ledger') ∧
        values = recourse.map (first + ·) := by
  have hsteps : outcomes x solver = appraise x solver >>= fun a => pure (a.2.map (a.1 + ·)) := by
    rw [appraise, bind_assoc]
    rfl
  rw [hsteps, Change.run_bind_eq_ok_iff]
  constructor
  · rintro ⟨⟨first, recourse⟩, _, _, hlooked, hvalues⟩
    cases hvalues
    exact ⟨first, recourse, hlooked, rfl⟩
  · rintro ⟨first, recourse, hlooked, rfl⟩
    exact ⟨(first, recourse), p', ledger', hlooked, rfl⟩

/-- What is looked up is there for every scenario. -/
theorem valuesAt_length (x : List K) (solver : Option (Solver σ K)) (p : Program σ K) :
    (valuesAt x solver).Ensures p (fun a p' => p' = p ∧ a.2.length = p.scenarioCount)
      fun _ _ => True :=
  valuesAt_ensures_recourse (collect_length p true _)

end Scalar

variable [Host σ (Exact F)] {x : List (Exact F)} {solver : Option (Solver σ (Exact F))}
  {p p' : Program σ (Exact F)} {t : Tape (Exact F)} {n : Nat} {ledger ledger' : Ledger σ (Exact F)}

theorem On.of_placement (h : p.On t n) (hp : p'.placement = p.placement) : p'.On t n := by
  have hholds : p'.Holds p.scenarios := Holds.of_placement ⟨h.workers, rfl⟩ hp
  exact ⟨hholds.workers, hholds.scenarios_eq.symm ▸ h.fills⟩

/-- On a sample there is nothing to normalize. -/
theorem On.validate_run (h : p.On t n) (hn : n ≠ 0) (normalize : Option Bool)
    (ledger : Ledger σ (Exact F)) :
    (validate normalize : Edit σ (Exact F) Unit).run.run (p, ledger) = (.ok (), p, ledger) := by
  have hcount : p.scenarioCount ≠ 0 := h.scenarioCount_eq.symm ▸ hn
  exact validate_run_of_total (h.equally.totalProbability_eq hcount) hcount (by simp) normalize
    ledger

theorem On.probabilities_eq (h : p.On t n) :
    p.probabilities = List.replicate n (.finite (1 / n)) := by
  rw [probabilities, List.eq_replicate_iff, List.length_map]
  exact ⟨h.fills.length_eq, List.forall_mem_map.2 h.fills.share⟩

/-- Looking up the values of a decision leaves the sample, and there is one for each entry. -/
theorem On.appraise_ensures (h : p.On t n) (x : List (Exact F))
    (solver : Option (Solver σ (Exact F))) :
    (appraise x solver).Ensures p (fun a p' => p'.On t n ∧ a.2.length = n) fun _ _ => True := by
  refine Change.ensures_bind ((generate_preserves_placement p).mono (fun _ p₁ hplaced => ?_)
    fun _ _ _ => trivial)
  have h₁ := h.of_placement hplaced
  refine (valuesAt_length x solver p₁).mono ?_ fun _ _ _ => trivial
  rintro a p' ⟨rfl, hlength⟩
  exact ⟨h₁, hlength.trans h₁.scenarioCount_eq⟩

/-- The value of a decision comes from the same values, weighed equally. -/
theorem On.evaluate_ok_iff (h : p.On t n) (hn : n ≠ 0) {v : Exact F} :
    (evaluate x solver).run.run (p, ledger) = (.ok v, p', ledger') ↔
      ∃ first recourse,
        (appraise x solver).run.run (p, ledger) = (.ok (first, recourse), p', ledger') ∧
        v = first + Scalar.dot (List.replicate n (.finite (1 / n))) recourse := by
  have hsteps : (evaluate x solver).run.run (p, ledger) = (appraise x solver >>= fun a => do
      return a.1 + Scalar.dot (← Change.state).probabilities a.2).run.run (p, ledger) := by
    rw [appraise, bind_assoc, evaluate, Change.run_bind, Change.run_bind]
    have hplaced := generate_preserves_placement p ledger
    generalize (generate : Edit σ (Exact F) Unit).run.run (p, ledger) = after at hplaced ⊢
    obtain ⟨r, p₁, l⟩ := after
    cases r with
    | error f => rfl
    | ok u =>
      dsimp only
      rw [Change.run_bind, (h.of_placement hplaced).validate_run hn]
  rw [hsteps, Change.run_bind_eq_ok_iff]
  have hsample {first : Exact F} {recourse : List (Exact F)} {p₁ : Program σ (Exact F)}
      {l : Ledger σ (Exact F)}
      (hlooked : (appraise x solver).run.run (p, ledger) = (.ok (first, recourse), p₁, l)) :
      p₁.probabilities = List.replicate n (.finite (1 / n)) := by
    have hlater := h.appraise_ensures x solver ledger
    rw [hlooked] at hlater
    exact hlater.1.probabilities_eq
  constructor
  · rintro ⟨⟨first, recourse⟩, p₁, _, hlooked, hvalue⟩
    rw [Change.run_state_bind] at hvalue
    cases hvalue
    exact ⟨first, recourse, hlooked, by rw [hsample hlooked]⟩
  · rintro ⟨first, recourse, hlooked, rfl⟩
    refine ⟨(first, recourse), p', ledger', hlooked, ?_⟩
    rw [Change.run_state_bind, hsample hlooked]
    rfl

/-- A decision has a value exactly where it has outcomes. -/
theorem On.exists_evaluate_iff (h : p.On t n) (hn : n ≠ 0) :
    (∃ v, (evaluate x solver).run.run (p, ledger) = (.ok v, p', ledger')) ↔
      ∃ values, (outcomes x solver).run.run (p, ledger) = (.ok values, p', ledger') := by
  constructor
  · rintro ⟨v, hv⟩
    obtain ⟨first, recourse, hlooked, -⟩ := (h.evaluate_ok_iff hn).1 hv
    exact ⟨_, outcomes_ok_iff.2 ⟨first, recourse, hlooked, rfl⟩⟩
  · rintro ⟨values, hvalues⟩
    obtain ⟨first, recourse, hlooked, -⟩ := outcomes_ok_iff.1 hvalues
    exact ⟨_, (h.evaluate_ok_iff hn).2 ⟨first, recourse, hlooked, rfl⟩⟩

/-- The value of a decision is the mean of its outcomes. -/
theorem On.exists_mean (h : p.On t n) (hn : n ≠ 0) {values : List (Exact F)} {v : F}
    (houtcomes : (outcomes x solver).run.run (p, ledger) = (.ok values, p', ledger'))
    (hevaluate : (evaluate x solver).run.run (p, ledger) = (.ok (.finite v), p', ledger')) :
    ∃ ys : List F, values = ys.map .finite ∧ ys ≠ [] ∧ ys.sum / ys.length = v := by
  obtain ⟨first, recourse, hlooked, rfl⟩ := outcomes_ok_iff.1 houtcomes
  obtain ⟨first', recourse', hlooked', hvalue⟩ := (h.evaluate_ok_iff hn).1 hevaluate
  have hlength := h.appraise_ensures x solver ledger
  rw [hlooked] at hlooked' hlength
  cases hlooked'
  obtain ⟨-, rfl : recourse.length = n⟩ := hlength
  have hne : recourse ≠ [] := mt List.length_eq_zero_iff.2 hn
  obtain ⟨ys, hys, hmean⟩ := Exact.exists_mean_of_expectation hne hvalue.symm
  refine ⟨ys, hys, ?_, hmean⟩
  rintro rfl
  exact hne (List.map_eq_nil_iff.1 hys)

end Program

/-! ## Estimates -/

namespace Study

/-- From a ledger to a ledger, a program is drawn and a decision evaluated on it. -/
def Evaluates {K : Type} [Scalar K] [Host σ K] (s : Study σ K) (n : Int)
    (solver : Option (Solver σ K)) (x : List K) (p : Program σ K) (v : K)
    (ledger ledger' : Ledger σ K) : Prop :=
  ∃ drawn p', (s.sampled (.ofInt n)).run.run ledger = (.ok p, drawn) ∧
    (Program.evaluate x solver).run.run (p, drawn) = (.ok v, p', ledger')

variable [Host σ (Exact F)] {s : Study σ (Exact F)} {n : Int}
  {solver : Option (Solver σ (Exact F))} {x : List (Exact F)} {c : Exact F}
  {ledger ledger' : Ledger σ (Exact F)}

section Tape

variable {tape : σ → Tape (Exact F)} {g : Goal} (h : s.Reads solver tape g)

include h

/-- An evaluation uses up the next block. -/
theorem Evaluates.block {p : Program σ (Exact F)} {v : Exact F}
    (hv : s.Evaluates n solver x p v ledger ledger') :
    p.On (tape ledger.env) n.toNat ∧ tape ledger'.env = (tape ledger.env).advance n.toNat := by
  obtain ⟨drawn, p', hsampled, hevaluate⟩ := hv
  obtain ⟨hon, hposes, hdrawn⟩ := h.sampled_on hsampled
  have hpositive := toNat_ne_zero_of_sampled hsampled
  obtain ⟨values, houtcomes⟩ := (hon.exists_evaluate_iff hpositive).1 ⟨v, hevaluate⟩
  have hkept := (hposes.outcomes_keeps h.host x h.solver drawn).1
  rw [houtcomes] at hkept
  exact ⟨hon, hkept.trans hdrawn⟩

end Tape

variable [Curves F]

/-- An estimate takes the outcomes on a fresh sample. -/
theorem estimate_ok_iff {i : Interval (Exact F)} :
    (s.estimate x (.ofInt n) (.number (.real c)) solver).run.run ledger = (.ok i, ledger') ↔
      (∃ d : F, c = .finite d ∧ 0 < d ∧ d < 1) ∧ ∃ p drawn p' values,
        (s.sampled (.ofInt n)).run.run ledger = (.ok p, drawn) ∧
        (Program.outcomes x solver).run.run (p, drawn) = (.ok values, p', ledger') ∧
        i = Interval.ofValues values c .normal := by
  unfold estimate
  rw [Act.run_lift_bind_eq_ok_iff]
  constructor
  · rintro ⟨level, hlevel, hestimate⟩
    obtain ⟨rfl, hconfidence⟩ := Interval.readConfidence_eq_ok_iff.1 hlevel
    obtain ⟨p, drawn, hsampled, hvalues⟩ := Act.run_bind_eq_ok_iff.1 hestimate
    obtain ⟨⟨values, p'⟩, last, happly, hinterval⟩ := Act.run_bind_eq_ok_iff.1 hvalues
    cases hinterval
    exact ⟨hconfidence, p, drawn, p', values, hsampled, Change.run_apply_eq_ok_iff.1 happly, rfl⟩
  · rintro ⟨hconfidence, p, drawn, p', values, hsampled, houtcomes, rfl⟩
    refine ⟨c, Interval.readConfidence_eq_ok_iff.2 ⟨rfl, hconfidence⟩, ?_⟩
    refine Act.run_bind_eq_ok_iff.2 ⟨p, drawn, hsampled, ?_⟩
    have happly := Change.run_apply_eq_ok_iff.2 houtcomes
    exact Act.run_bind_eq_ok_iff.2 ⟨(values, p'), ledger', happly, rfl⟩

variable {tape : σ → Tape (Exact F)} {g : Goal}

/-- There is an estimate exactly where there is a value. -/
theorem Reads.exists_estimate_iff (h : s.Reads solver tape g) :
    (∃ i, (s.estimate x (.ofInt n) (.number (.real c)) solver).run.run ledger = (.ok i, ledger')) ↔
      (∃ d : F, c = .finite d ∧ 0 < d ∧ d < 1) ∧
        ∃ p v, s.Evaluates n solver x p v ledger ledger' := by
  constructor
  · rintro ⟨i, hi⟩
    obtain ⟨hconfidence, p, drawn, p', values, hsampled, houtcomes, -⟩ := estimate_ok_iff.1 hi
    have hpositive := toNat_ne_zero_of_sampled hsampled
    obtain ⟨hon, -⟩ := h.sampled_on hsampled
    obtain ⟨v, hv⟩ := (hon.exists_evaluate_iff hpositive).2 ⟨values, houtcomes⟩
    exact ⟨hconfidence, p, v, drawn, p', hsampled, hv⟩
  · rintro ⟨hconfidence, p, v, drawn, p', hsampled, hv⟩
    have hpositive := toNat_ne_zero_of_sampled hsampled
    obtain ⟨hon, -⟩ := h.sampled_on hsampled
    obtain ⟨values, houtcomes⟩ := (hon.exists_evaluate_iff hpositive).1 ⟨v, hv⟩
    exact ⟨_, estimate_ok_iff.2 ⟨hconfidence, p, drawn, p', values, hsampled, houtcomes, rfl⟩⟩

/-- The middle of an estimate is the value. -/
theorem Reads.midpoint_estimate (h : s.Reads solver tape g) {i : Interval (Exact F)}
    (hi : (s.estimate x (.ofInt n) (.number (.real c)) solver).run.run ledger = (.ok i, ledger'))
    {p : Program σ (Exact F)} {v : Exact F} (hv : s.Evaluates n solver x p v ledger ledger')
    (hnumber : Scalar.isFinite v = true) : i.midpoint = v := by
  obtain ⟨⟨d, rfl, h0, h1⟩, p, drawn, p', values, hsampled, houtcomes, rfl⟩ := estimate_ok_iff.1 hi
  obtain ⟨drawn', p'', hsampled', hevaluate⟩ := hv
  rw [hsampled] at hsampled'
  cases hsampled'
  have hpositive := toNat_ne_zero_of_sampled hsampled
  obtain ⟨hon, -⟩ := h.sampled_on hsampled
  obtain ⟨u, rfl⟩ := (Exact.isFinite_iff v).1 hnumber
  obtain ⟨v', hv'⟩ := (hon.exists_evaluate_iff hpositive).2 ⟨values, houtcomes⟩
  rw [hevaluate] at hv'
  cases hv'
  obtain ⟨ys, rfl, hne, rfl⟩ := hon.exists_mean hpositive houtcomes hevaluate
  exact Interval.midpoint_ofValues hne h0 h1 .normal

end Study

end Recourse
