/-
  Proofs/Mirror/Study.lean --- objectives with their sense turned, from end to end.

  On the same draws a study of the image of a template picks the same decision.  Its
  bounds change sides: the interval of the values of the replications and that of the
  decision are turned around, and so is which of them is the lower one.  The interval
  that combines both is turned around too, unless one of its ends is undefined: of two
  ends, the first is taken where they do not compare.
-/
import Recourse.Proofs.Mirror.Values
import Recourse.Sampled.Study

set_option autoImplicit false
set_option linter.unusedSectionVars false

namespace Recourse

/-! ## Mirror images -/

section Images

variable {σ K : Type} [Scalar K]

/-- An interval turned around. -/
def Interval.mirror (i : Interval K) : Interval K := ⟨-i.upper, -i.lower, i.confidence⟩

/-- A study of the image of a template, on the same draws. -/
def Study.mirror (s : Study σ K) : Study σ K := { s with template := s.template.mirror }

/-- What a replication gives, with the sense turned. -/
def Study.Replicate.mirror (r : Study.Replicate K) : Study.Replicate K :=
  { r with value := -r.value, sign := -r.sign }

/-- The outcomes of a study and of its image. -/
structure Estimate.Opposite (e e' : Estimate K) : Prop where
  decision : e'.decision = e.decision
  objective : e'.objective = -e.objective
  lowerBound : e'.lowerBound = -e.upperBound
  upperBound : e'.upperBound = -e.lowerBound
  gap : e'.gap = e.gap
  /-- Where no end is undefined, the combined interval is turned around. -/
  interval : Scalar.isUndefined e.intervalLower = false →
    Scalar.isUndefined e'.intervalLower = false →
    e'.intervalLower = -e.intervalUpper ∧ e'.intervalUpper = -e.intervalLower
  confidence : e'.confidence = e.confidence
  samples : e'.samples = e.samples
  replications : e'.replications = e.replications

end Images

/-! ## Intervals -/

section Intervals

variable {K : Type} [Analytic K] [Scalar.Symmetric K]

namespace Interval

theorem sampleVariance_negated (values : List K) :
    sampleVariance (Scalar.negated values) = sampleVariance values := by
  have hsquare (x : K) : Scalar.square (-x - -Scalar.mean values) =
      Scalar.square (x - Scalar.mean values) := by
    rw [Scalar.sub_neg_neg, Scalar.square_neg]
  unfold sampleVariance
  rw [Scalar.mean_negated, Scalar.length_negated]
  dsimp only [Scalar.negated]
  rw [List.map_map]
  exact congrArg (fun f => Scalar.sum (values.map f) / Scalar.ofInt (values.length - 1))
    (funext hsquare)

/-- The interval around the mean of the opposite values is turned around. -/
theorem ofValues_negated (values : List K) (confidence : K) (c : CriticalValue) :
    ofValues (Scalar.negated values) confidence c = (ofValues values confidence c).mirror := by
  unfold ofValues
  rw [Scalar.mean_negated, Scalar.length_negated, sampleVariance_negated]
  dsimp only
  split
  · rfl
  · rw [Scalar.neg_sub_eq, Scalar.neg_add_eq]
    rfl

theorem midpoint_mirror (i : Interval K) : i.mirror.midpoint = -i.midpoint := by
  show Scalar.decimal 5 1 * (-i.upper + -i.lower) = -(Scalar.decimal 5 1 * (i.lower + i.upper))
  rw [Scalar.Symmetric.neg_add_neg, Scalar.Symmetric.mul_neg, Scalar.Symmetric.add_comm]

end Interval

namespace Plan

variable {σ : Type} [Host σ K]

theorem factor_mirror {rs : List (Study.Replicate K)} (h : rs ≠ []) :
    factor (rs.map Study.Replicate.mirror) = -factor rs := by
  unfold factor
  rw [List.getLast?_map, List.getLast?_eq_some_getLast h]
  rfl

theorem best_mirror (x : K) (rs : List (Study.Replicate K)) :
    best (-x) (rs.map Study.Replicate.mirror) = (best x rs).map Study.Replicate.mirror := by
  have hvalue (r : Study.Replicate K) : -x * r.mirror.value = x * r.value := by
    show -x * -r.value = _
    rw [Scalar.Symmetric.neg_mul, Scalar.Symmetric.mul_neg, Scalar.Symmetric.neg_neg]
  have hbefore (r r' : Study.Replicate K) :
      goesBefore (-x) r.mirror r'.mirror = goesBefore x r r' := by
    unfold goesBefore
    rw [hvalue, hvalue]
  induction rs with
  | nil => rfl
  | cons r rs ih =>
    rw [List.map_cons, best, best, ih]
    cases best x rs with
    | none => rfl
    | some b =>
      dsimp only [Option.map_some]
      rw [hbefore]
      split <;> rfl

/-- The outcome with an interval on the good side and one on the other. -/
def between (p : Plan σ K) (best : Study.Replicate K) (good other : Interval K) : Estimate K where
  decision := best.decision
  objective := best.value
  lowerBound := good.midpoint
  upperBound := other.midpoint
  gap := other.midpoint - good.midpoint
  intervalLower := Scalar.smaller good.lower other.upper
  intervalUpper := Scalar.larger good.lower other.upper
  confidence := p.confidence
  samples := p.samples
  replications := p.replications

theorem conclude_eq (p : Plan σ K) (x : K) (best : Study.Replicate K)
    (bound estimate : Interval K) : p.conclude x best bound estimate =
      if Scalar.less 0 x then p.between best bound estimate
      else p.between best estimate bound := by
  unfold conclude
  by_cases h : Scalar.less 0 x = true
  · rw [if_pos h, if_pos h]
    rfl
  · rw [if_neg h, if_neg h]
    rfl

/-- The two sides change places. -/
theorem between_opposite (p : Plan σ K) (best : Study.Replicate K) (good other : Interval K) :
    (p.between best good other).Opposite (p.between best.mirror other.mirror good.mirror) where
  decision := rfl
  objective := rfl
  lowerBound := other.midpoint_mirror
  upperBound := good.midpoint_mirror
  gap := by
    show good.mirror.midpoint - other.mirror.midpoint = other.midpoint - good.midpoint
    rw [Interval.midpoint_mirror, Interval.midpoint_mirror, Scalar.neg_sub_neg]
  interval := by
    intro hlower hlower'
    have hgood : Scalar.isUndefined good.lower = false := Scalar.isUndefined_of_smaller hlower
    have hother : Scalar.isUndefined other.upper = false :=
      Scalar.isUndefined_neg other.upper ▸ Scalar.isUndefined_of_smaller hlower'
    exact ⟨Scalar.smaller_neg_neg hgood hother, Scalar.larger_neg_neg hgood hother⟩
  confidence := rfl
  samples := rfl
  replications := rfl

/-- What a study concludes from opposite values and intervals turned around. -/
theorem conclude_opposite (p : Plan σ K) (g : Goal) (best : Study.Replicate K)
    (bound estimate : Interval K) : (p.conclude g.sign best bound estimate).Opposite
      (p.conclude (-g.sign) best.mirror bound.mirror estimate.mirror) := by
  have hminimize : Scalar.less (0 : K) (Goal.minimize.sign) = true :=
    Scalar.Symmetric.zero_less_one
  have hmaximize : ¬ Scalar.less (0 : K) (Goal.maximize.sign) = true := by
    have h := Scalar.Symmetric.less_asymm (0 : K) 1 Scalar.Symmetric.zero_less_one
    rw [← Scalar.Symmetric.less_neg_neg, Scalar.Symmetric.neg_zero] at h
    exact ne_true_of_eq_false h
  rw [← Goal.sign_flip, conclude_eq, conclude_eq]
  cases g with
  | minimize =>
    rw [if_pos hminimize, Goal.flip, if_neg hmaximize]
    exact p.between_opposite best bound estimate
  | maximize =>
    rw [if_neg hmaximize, Goal.flip, if_pos hminimize]
    exact p.between_opposite best estimate bound

end Plan

end Intervals

/-! ## Sampled programs -/

namespace Study

section Scalar

variable {σ K : Type} [Scalar K]

/-- A program on the same draws is the image. -/
theorem sampled_alike (t : Study σ K) (n : Setting K) :
    (t.sampled n).Alike (t.mirror.sampled n) fun p p' => p' = p.mirror := by
  unfold sampled
  refine Act.alike_bind_map (Act.alike_lift (.refl _)) fun size => ?_
  dsimp only
  split
  · exact Act.alike_fail (.refl _)
  · refine Act.alike_bind_map (Act.Alike.refl _) fun scenarios => ?_
    exact t.template.instantiate_alike t.setup scenarios t.defer

variable [Scalar.Symmetric K] [Host σ K] {s : StructuredSolver σ K} (hs : s.backend.Even)

include hs

/-- A replication of the image gives the image of the replication, and its factor is that of
a sense. -/
theorem replicate_alike (t : Study σ K) (n : Setting K) (number : Nat) :
    (t.replicate n (some (.structured s)) number).Alike
      (t.mirror.replicate n (some (.structured s)) number)
      fun r r' => (∃ g : Goal, r.sign = g.sign) ∧ r' = r.mirror := by
  have hsign (p : Program σ K) : Matches p.sign p.mirror.sign
      fun a b => (∃ g : Goal, a = g.sign) ∧ b = -a := by
    rw [Program.sign_mirror]
    unfold Program.sign
    cases p.goal with
    | error f => exact Fault.Alike.refl f
    | ok g => exact ⟨⟨g, rfl⟩, rfl⟩
  unfold replicate
  refine Act.alike_bind_map (t.sampled_alike n) fun p => ?_
  refine Change.alike_apply_bind (R := fun r r' => (∃ g : Goal, r.sign = g.sign) ∧ r' = r.mirror)
    ?_ p fun _ _ _ hr => Act.alike_pure hr
  refine Change.alike_bind_map (Program.optimize_even hs) fun status => ?_
  dsimp only
  split
  · exact Change.alike_fail (.refl _)
  · refine Change.alike_bind_map Change.alike_state fun p => ?_
    refine Change.alike_bind_map (Change.alike_lift (.of_eq p.committed_mirror)) fun solution => ?_
    refine Change.alike_bind (Change.alike_lift (hsign p)) ?_
    rintro sign _ ⟨hgoal, rfl⟩
    exact Change.alike_pure ⟨hgoal, rfl⟩

theorem replications_alike (t : Study σ K) (n count : Setting K) :
    (t.replications n count (some (.structured s))).Alike
      (t.mirror.replications n count (some (.structured s)))
      fun rs rs' => (∀ r ∈ rs, ∃ g : Goal, r.sign = g.sign) ∧ rs' = rs.map Replicate.mirror := by
  unfold replications
  refine Act.alike_bind_map (Act.alike_lift (.refl _)) fun size => ?_
  dsimp only
  split
  · exact Act.alike_fail (.refl _)
  · have hrun := Act.alike_forEach (List.forall₂_same.mpr fun number
      (_ : number ∈ List.range size.toNat) => replicate_alike hs t n number)
    refine hrun.mono fun rs rs' h => ?_
    obtain ⟨hsigns, hmirror⟩ := List.forall₂_and_left _ _ |>.mp h
    exact ⟨hsigns, eq_map_of_forall₂ hmirror⟩

end Scalar

variable {σ K : Type} [Analytic K] [Scalar.Symmetric K] [Host σ K] {s : StructuredSolver σ K}
  (hs : s.backend.Even)

include hs

/-- What a decision is worth on a fresh sample, as an interval. -/
theorem estimate_alike (t : Study σ K) (x : List K) (n confidence : Setting K) :
    (t.estimate x n confidence (some (.structured s))).Alike
      (t.mirror.estimate x n confidence (some (.structured s))) fun i i' => i' = i.mirror := by
  unfold estimate
  refine Act.alike_bind_map (Act.alike_lift (.refl _)) fun level => ?_
  refine Act.alike_bind_map (t.sampled_alike n) fun p => ?_
  refine Change.alike_apply_bind (Program.outcomes_alike hs x) p ?_
  rintro values _ q rfl
  exact Act.alike_pure (Interval.ofValues_negated values level .normal)

end Study

namespace Plan

variable {σ K : Type} [Analytic K] [Scalar.Symmetric K] [Host σ K] {s : StructuredSolver σ K}
  (hs : s.backend.Even)

include hs

/-- A study of a template and of its image come to opposite outcomes. -/
theorem run_alike (plan : Plan σ K) (t : Study σ K) :
    (({ plan with solver := some (.structured s) } : Plan σ K).run t).Alike
      (({ plan with solver := some (.structured s) } : Plan σ K).run t.mirror)
      Estimate.Opposite := by
  unfold run
  dsimp only
  cases plan.seed
  on_goal 2 => refine Act.alike_bind_map (Act.Alike.refl _) fun _ => ?_
  -- With a seed and without one, the replications follow.
  all_goals
    refine Act.alike_bind (Study.replications_alike hs t _ _) ?_
    rintro rs _ ⟨hsigns, rfl⟩
    have hvalues : (rs.map Study.Replicate.mirror).map (·.value) =
        Scalar.negated (rs.map (·.value)) := by
      rw [Scalar.negated, List.map_map, List.map_map]
      rfl
    cases rs with
    | nil => exact Act.alike_fail (.refl _)
    | cons r rs =>
      obtain ⟨g, hg⟩ := hsigns _ (List.getLast_mem (List.cons_ne_nil r rs))
      have hfactor : factor (r :: rs) = g.sign := by
        rw [← hg, factor, List.getLast?_eq_some_getLast (List.cons_ne_nil r rs)]
        rfl
      rw [factor_mirror (List.cons_ne_nil r rs), best_mirror, hfactor]
      cases best g.sign (r :: rs) with
      | none => exact Act.alike_fail (.refl _)
      | some b =>
        dsimp only [Option.map_some]
        rw [hvalues, Interval.ofValues_negated]
        refine Act.alike_bind_map (Study.estimate_alike hs t _ _ _) fun estimate => ?_
        exact Act.alike_pure (conclude_opposite plan g b _ estimate)

end Plan

end Recourse
