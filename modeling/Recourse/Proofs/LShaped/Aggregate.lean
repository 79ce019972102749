/-
  Proofs/LShaped/Aggregate.lean --- what becomes of a round.

  Cuts are added one by one, and each of them is valid, so that the invariant holds
  after any number of them.  A round without failures also gives a value for the
  candidate.  When no cut was added, or the gap is small, the incumbent is nearly
  optimal (`nearly_of_satisfied`, `nearly_of_gap`).
-/
import Recourse.Proofs.LShaped.Phase

set_option autoImplicit false
set_option linter.unusedSectionVars false

open scoped BigOperators

namespace Recourse

variable {F : Type} [Field F] [LinearOrder F] [IsStrictOrderedRing F] [FloorRing F] {σ : Type}

namespace LShaped

namespace State

variable {s s' s₀ : State (Exact F)} {p : Program σ (Exact F)} {m : LShaped σ (Exact F)}

/-- A state that differs in its cuts only. -/
def Grown (s s' : State (Exact F)) : Prop :=
  ∃ (active : List Bool) (cuts : List (AddedCut (Exact F))), s' = { s with active, cuts }

theorem Grown.refl (s : State (Exact F)) : s.Grown s := ⟨s.active, s.cuts, rfl⟩

theorem Grown.trans {s'' : State (Exact F)} (h : s.Grown s') (h' : s'.Grown s'') :
    s.Grown s'' := by
  obtain ⟨active, cuts, rfl⟩ := h
  obtain ⟨active', cuts', rfl⟩ := h'
  exact ⟨active', cuts', rfl⟩

theorem grown_addCut (cut : Cut (Exact F)) (group : Option Nat) : s.Grown (s.addCut cut group) :=
  ⟨_, _, rfl⟩

/-- More cuts leave the bounds alone. -/
theorem Grown.tightens (h : s.Grown s') (ht : s₀.Tightens s) : s₀.Tightens s' := by
  obtain ⟨active, cuts, rfl⟩ := h
  exact ⟨ht.lower, ht.upper⟩

/-! ## Failures -/

section Failures

variable {x : List (Exact F)}

/-- A state between the phases of a round: the round is taken, the run goes on. -/
structure Between (s : State (Exact F)) (p : Program σ (Exact F)) (m : LShaped σ (Exact F)) :
    Prop extends Core s p m where
  /-- The phase. -/
  phase : s.phase = .aggregate
  /-- The round was taken. -/
  taken : s.round = none
  /-- The run goes on. -/
  running : s.status = .unsolved

theorem Between.grown (h : s.Between p m) (hs' : s.Grown s') (hcore : s'.Core p m) :
    s'.Between p m := by
  obtain ⟨active, cuts, rfl⟩ := hs'
  exact ⟨hcore, h.phase, h.taken, h.running⟩

/-- A refusal in between. -/
theorem Between.refused (h : s.Between p m) (ht : s₀.Tightens s) {f : Fault (Exact F)}
    (hf : ¬ f.IsCrossed) : Refused p m s₀ f s := by
  refine Core.refused h.toCore ?_ h.running ht fun hcrossed => absurd hcrossed hf
  unfold PhaseHolds
  rw [h.phase]
  intro round hround
  rw [h.taken] at hround
  cases hround

/-- What the failure of a scenario leads to: a valid cut, or a verdict and its reason. -/
theorem handleFailure_ensures [Host σ (Exact F)] (host : Host.Sound σ F) (hp : p.Proper)
    (hs : p.Solvable) (h : s.Core p m) (hx : AllFinite x)
    (hlength : x.length = p.firstStage.columns.length)
    (hfits : p.firstStage.Fits (coord x) (coord x)) {f : RoundFailure (Exact F)} {i : Nat}
    (hi : i < p.scenarioCount) (hf : p.Failed x i f) :
    (handleFailure m p x f).Ensures s
      (fun verdict s' => s'.Core p m ∧ s.Grown s' ∧
        match verdict with
        | none => True
        | some .infeasible => m.rules.feasibilityCuts = false
        | some .unbounded => RecourseUnbounded p
        | some _ => False)
      (fun f s' => s' = s ∧ ¬ f.IsCrossed) := by
  have hm := hp.second i hi
  have hcount : (p.recourse i).decisionCount = 0 ∨ (p.recourse i).decisionCount = x.length :=
    hlength ▸ hp.placeholders i hi
  have hsuits := Model.suits_of_length hx hcount
  obtain ⟨r, hreports, hstatus⟩ := hf.reports
  unfold handleFailure
  refine Change.ensures_bind (Change.ensures_state ?_)
  cases hfailure : f.status with
  | infeasible =>
    -- Without feasibility cuts the verdict is in; with them phase one has to separate.
    by_cases hcuts : m.rules.feasibilityCuts = true
    · have hsub : p.subproblem (.ofInt f.index) = .ok (p.recourse i) := by
        rw [hf.index]
        exact Program.subproblemAt_eq hs.current hi
      have hn : s.firstColumns = x.length := h.firstColumns_eq.trans hlength.symm
      simp only [hcuts, Bool.not_true, Bool.false_eq_true, if_false, hsub, hn]
      refine Change.ensures_bind (Change.ensures_pure ?_)
      refine Change.ensures_bind (Change.ensures_ofAct ((Model.phaseOne_ensures host hm hx
        hcount m.backend.params).mono ?_ fun f hf => ⟨rfl, hf⟩))
      intro found hfound
      obtain ⟨value, g⟩ := found
      obtain ⟨hvalue, hg, hfinite, hbelow⟩ := hfound
      simp only
      split
      · exact Change.ensures_bind (Change.ensures_fail ⟨rfl, fun ⟨_, h⟩ => nomatch h⟩)
      · rename_i hleast
        refine Change.ensures_bind (Change.ensures_update (Change.ensures_pure ?_))
        have hseparates := feasibilityCut_separates hx hlength hvalue hg hfinite hbelow
          (by simpa using hleast)
        rw [← hf.index] at hseparates
        exact ⟨h.addCut hp (Or.inr ⟨rfl, i, hi, hseparates⟩), grown_addCut _ _, trivial⟩
    · have hcuts : m.rules.feasibilityCuts = false := by simpa using hcuts
      simp only [hcuts, Bool.not_false, if_true]
      exact Change.ensures_pure ⟨h, Grown.refl s, trivial⟩
  | unbounded =>
    refine Change.ensures_pure ⟨h, Grown.refl s, coord x, hfits, i, hi, ?_⟩
    intro level
    exact hreports.unbounded hm hsuits (hstatus.trans hfailure) level
  | optimal => exact absurd hfailure hf.not_optimal
  | _ =>
    exfalso
    rw [hfailure] at hstatus
    have hcases := hreports.status_cases
    rw [hstatus] at hcases
    simp at hcases

theorem handleFailures_ensures [Host σ (Exact F)] (host : Host.Sound σ F) (hp : p.Proper)
    (hs : p.Solvable) (hx : AllFinite x) (hlength : x.length = p.firstStage.columns.length)
    (hfits : p.firstStage.Fits (coord x) (coord x)) (fs : List (RoundFailure (Exact F)))
    (hfs : ∀ f ∈ fs, ∃ i < p.scenarioCount, p.Failed x i f) (h : s.Between p m)
    (ht : s₀.Tightens s) :
    (handleFailures m p x fs).Ensures s (Advanced p m s₀) (Refused p m s₀) := by
  induction fs generalizing s with
  | nil => exact Change.ensures_pure (h.toCore.advanced_masterSolve h.running ht)
  | cons f fs ih =>
    obtain ⟨i, hi, hf⟩ := hfs f List.mem_cons_self
    unfold handleFailures
    refine Change.ensures_bind ((handleFailure_ensures host hp hs h.toCore hx hlength hfits hi
      hf).mono ?_ ?_)
    · intro verdict s' hs'
      obtain ⟨hcore, hgrown, hverdict⟩ := hs'
      have hbetween := h.grown hgrown hcore
      have htightens := hgrown.tightens ht
      cases verdict with
      | none => exact ih (fun f hf => hfs f (List.mem_cons_of_mem _ hf)) hbetween htightens
      | some status =>
        cases status with
        | infeasible =>
          apply hcore.finish_ensures htightens .infeasible
          intro hcuts
          rw [hverdict] at hcuts
          cases hcuts
        | unbounded => exact hcore.finish_ensures htightens .unbounded (Or.inl hverdict)
        | _ => exact hverdict.elim
    · intro f s' hs'
      rw [hs'.1]
      exact h.refused ht hs'.2

end Failures

/-! ## Optimality cuts -/

section Cuts

variable {x recourse : List (Exact F)}

/-- The outcomes of a group are those of its scenarios. -/
def GroupSolved (p : Program σ (Exact F)) (multicut : Bool) (x : List (Exact F))
    (group : Nat × List (Outcome (Exact F))) : Prop :=
  group.1 < groupCount multicut p.scenarioCount ∧
    List.Forall₂ (p.Solved x) (groupScenarios multicut p.scenarioCount group.1) group.2

/-- The groups of a complete round are those of the recourse variables. -/
theorem groups_spec (multicut : Bool) {outcomes : List (Outcome (Exact F))}
    (h : List.Forall₂ (p.Solved x) (List.range p.scenarioCount) outcomes) :
    (∀ group ∈ groups multicut outcomes, GroupSolved p multicut x group) ∧
      ∀ g < groupCount multicut p.scenarioCount, ∃ os, (g, os) ∈ groups multicut outcomes := by
  cases multicut with
  | false =>
    constructor
    · intro group hgroup
      rw [groups, if_neg (by simp), List.mem_singleton] at hgroup
      rw [hgroup]
      exact ⟨Nat.one_pos, h⟩
    · intro g hg
      have hg : g = 0 := Nat.lt_one_iff.1 hg
      exact ⟨outcomes, by rw [groups, if_neg (by simp), hg, List.mem_singleton]⟩
  | true =>
    have hlength : outcomes.length = p.scenarioCount := by
      rw [← h.length_eq, List.length_range]
    -- One outcome per scenario and in their order, so that the index of an outcome names its group.
    have hget : ∀ k (hk : k < outcomes.length), p.Solved x k outcomes[k] := by
      intro k hk
      have hsolved := h.get (i := k) (by rw [List.length_range]; omega) hk
      rwa [List.get_eq_getElem, List.get_eq_getElem, List.getElem_range] at hsolved
    constructor
    · intro group hgroup
      rw [groups, if_pos rfl] at hgroup
      obtain ⟨o, ho, rfl⟩ := List.mem_map.1 hgroup
      obtain ⟨k, hk, rfl⟩ := List.getElem_of_mem ho
      have hindex : outcomes[k].index.toNat = k := by rw [(hget k hk).index, Int.toNat_natCast]
      rw [GroupSolved, hindex]
      exact ⟨by rw [groupCount, if_pos rfl]; omega, .cons (hget k hk) .nil⟩
    · intro g hg
      have hk : g < outcomes.length := by rw [groupCount, if_pos rfl] at hg; omega
      refine ⟨[outcomes[g]], ?_⟩
      rw [groups, if_pos rfl]
      refine List.mem_map.2 ⟨outcomes[g], List.getElem_mem hk, ?_⟩
      rw [(hget g hk).index, Int.toNat_natCast]

/-- A recourse variable is active and respects the cut of its group. -/
def GroupSatisfied (m : LShaped σ (Exact F)) (s : State (Exact F)) (x recourse : List (Exact F))
    (group : Nat × List (Outcome (Exact F))) : Prop :=
  s.active.getD group.1 false = true ∧ ∃ value, SolveResult.entry recourse group.1 = .ok value ∧
    isSatisfied m.rules.cutTolerance value (optimalityCut s.sign x group.2) = true

/-- The cut of a group is added, or its recourse variable respects it. -/
theorem addOptimalityCut_ensures (hp : p.Proper) (hs : p.Solvable) (h : s.Core p m)
    (hx : AllFinite x) (hlength : x.length = p.firstStage.columns.length)
    {group : Nat × List (Outcome (Exact F))} (hgroup : GroupSolved p m.rules.multicut x group) :
    (addOptimalityCut m x recourse group).Ensures s
      (fun added s' => s'.Core p m ∧ s.Grown s' ∧
        (added = false → s' = s ∧ GroupSatisfied m s x recourse group))
      (fun f s' => s' = s ∧ ¬ f.IsCrossed) := by
  have hsupports := optimalityCut_supports hp hs hx hlength
    (fun i hi => mem_groupScenarios hgroup.1 hi) hgroup.2
  rw [← h.sign] at hsupports
  unfold addOptimalityCut
  refine Change.ensures_bind (Change.ensures_state ?_)
  have hentry : Settles (SolveResult.entry recourse group.1)
      (fun value => SolveResult.entry recourse group.1 = .ok value) fun f => ¬ f.IsCrossed := by
    unfold SolveResult.entry
    cases recourse[group.1]? with
    | none => exact fun ⟨_, h⟩ => nomatch h
    | some value => rfl
  refine Change.ensures_bind (Change.ensures_lift (hentry.mono ?_
    fun f hf => ⟨rfl, hf⟩))
  intro value hvalue
  split
  · rename_i hsatisfied
    rw [Bool.and_eq_true] at hsatisfied
    exact Change.ensures_pure
      ⟨h, Grown.refl s, fun _ => ⟨rfl, hsatisfied.1, value, hvalue, hsatisfied.2⟩⟩
  · refine Change.ensures_bind (Change.ensures_update (Change.ensures_pure ?_))
    refine ⟨h.addCut hp (Or.inl ⟨group.1, hgroup.1, rfl, ?_, hsupports⟩), grown_addCut _ _,
      fun hadded => nomatch hadded⟩
    have hg : group.1 < s.active.length := h.groups ▸ hgroup.1
    show (s.active.set group.1 true).getD group.1 false = true
    simp [List.getD_eq_getElem?_getD, hg]

/-- The cuts of several groups are added; when none was, all recourse variables respect
theirs. -/
theorem addOptimalityCuts_ensures (hp : p.Proper) (hs : p.Solvable) (hx : AllFinite x)
    (hlength : x.length = p.firstStage.columns.length)
    (gs : List (Nat × List (Outcome (Exact F))))
    (hgs : ∀ group ∈ gs, GroupSolved p m.rules.multicut x group) (h : s.Core p m) :
    (addOptimalityCuts m x recourse gs).Ensures s
      (fun added s' => s'.Core p m ∧ s.Grown s' ∧
        (added = 0 → s' = s ∧ ∀ group ∈ gs, GroupSatisfied m s x recourse group))
      (fun f s' => s'.Core p m ∧ s.Grown s' ∧ ¬ f.IsCrossed) := by
  induction gs generalizing s with
  | nil =>
    exact Change.ensures_pure
      ⟨h, Grown.refl s, fun _ => ⟨rfl, fun _ hgroup => absurd hgroup List.not_mem_nil⟩⟩
  | cons group gs ih =>
    unfold addOptimalityCuts
    refine Change.ensures_bind ((addOptimalityCut_ensures hp hs h hx hlength
      (hgs group List.mem_cons_self)).mono ?_ ?_)
    · intro added s' hs'
      obtain ⟨hcore, hgrown, hadded⟩ := hs'
      refine Change.ensures_bind ((ih (fun g hg => hgs g (List.mem_cons_of_mem _ hg)) hcore).mono
        ?_ fun f s'' hs'' => ⟨hs''.1, hgrown.trans hs''.2.1, hs''.2.2⟩)
      intro others s'' hs''
      obtain ⟨hcore', hgrown', hothers⟩ := hs''
      refine Change.ensures_pure ⟨hcore', hgrown.trans hgrown', ?_⟩
      intro hzero
      -- None in all means none for the first group, and then the others started from `s` as well.
      cases added with
      | true => simp at hzero
      | false =>
        obtain ⟨rfl, hsatisfied⟩ := hadded rfl
        obtain ⟨hsame, hrest⟩ := hothers (by simpa using hzero)
        refine ⟨hsame, ?_⟩
        intro g hg
        rcases List.mem_cons.1 hg with rfl | hg
        · exact hsatisfied
        · exact hrest g hg
    · intro f s' hs'
      rw [hs'.1]
      exact ⟨h, Grown.refl s, hs'.2⟩

end Cuts

/-! ## The value of the candidate -/

section Value

variable {x : List (Exact F)} {y : Nat → Nat → F} {round : Round (Exact F)}

/-- A complete round gives the loss of its decision. -/
theorem valueOf_eq (hp : p.Proper) (hs : p.Solvable) (h : s.Framed p m.rules.multicut)
    (hx : AllFinite x) (hlength : x.length = p.firstStage.columns.length)
    (hround : round.Describes p x) (hcomplete : round.failures = [])
    (hy : ∀ i < p.scenarioCount, (p.recourse i).Solves (coord x) (y i)) :
    valueOf s round = .finite (p.lossAt (coord x) y) := by
  have hsum := sum_values hp hs hx hlength (fun i hi => List.mem_range.1 hi)
    (hround.complete hcomplete) fun i hi => hy i (List.mem_range.1 hi)
  have hloss := h.loss_first hp (coord x)
  rw [valueOf, h.sign, Round.expectedRecourse, hsum, hround.decision,
    dot_eq (h.allFinite_cost hp) hx (h.length_cost.trans hlength.symm),
    ← Exact.finite_value hloss.1, Exact.finite_add, hloss.2, Exact.finite_add, hs.lossAt_eq]
  rfl

/-- Only the upper bound and the incumbent change when a decision is remembered. -/
theorem improve_eq (round : Round (Exact F)) (master : SolveResult (Exact F))
    (s : State (Exact F)) : ∃ upperBound incumbent,
      LShaped.improve round master s = { s with upperBound, incumbent } := by
  by_cases h : Scalar.less (valueOf s round) s.upperBound = true
  · exact ⟨_, _, if_pos h⟩
  · exact ⟨_, _, if_neg h⟩

/-- A complete round leaves an incumbent that is at least as good as its decision. -/
theorem Core.improve (h : s.Core p m) (hp : p.Proper) (hs : p.Solvable) (hx : AllFinite x)
    (hlength : x.length = p.firstStage.columns.length)
    (hfits : p.firstStage.Fits (coord x) (coord x)) (hround : round.Describes p x)
    (hcomplete : round.failures = [])
    (hy : ∀ i < p.scenarioCount, (p.recourse i).Solves (coord x) (y i))
    (master : SolveResult (Exact F)) :
    (LShaped.improve round master s).Core p m ∧
      Scalar.atMost (LShaped.improve round master s).upperBound s.upperBound = true ∧
      ∃ u i, (LShaped.improve round master s).upperBound = .finite u ∧
        (LShaped.improve round master s).incumbent = some i ∧ i.Sound p u ∧
        u ≤ p.lossAt (coord x) y := by
  have hvalue := valueOf_eq hp hs h.toFramed hx hlength hround hcomplete hy
  by_cases hless : Scalar.less (valueOf s round) s.upperBound = true
  · have hsound : Incumbent.Sound ⟨round.decision, round, master⟩ p (p.lossAt (coord x) y) := by
      rw [hround.decision]
      exact ⟨⟨hx, hlength, hfits, y, hy, rfl⟩, hround, hcomplete⟩
    rw [LShaped.improve, if_pos hless, hvalue]
    refine ⟨⟨⟨h.first, h.sign, h.groups, h.cuts, h.covered⟩, h.lower,
      Or.inr ⟨_, _, rfl, rfl, hsound⟩⟩, ?_, _, _, rfl, rfl, hsound, le_refl _⟩
    rw [hvalue] at hless
    exact Bool.or_eq_true_iff.2 (Or.inl hless)
  · rw [LShaped.improve, if_neg hless]
    refine ⟨h, atMost_refl h.upperBound_ne, ?_⟩
    rcases h.upper with ⟨hnone, -⟩ | ⟨u, i, hu, hi, hsound⟩
    · rw [hvalue, hnone] at hless
      exact absurd rfl hless
    · refine ⟨u, i, hu, hi, hsound, ?_⟩
      rw [hvalue, hu, Exact.less_finite, decide_eq_true_eq] at hless
      exact not_lt.1 hless

end Value

/-! ## Convergence -/

section Convergence

variable {x : List (Exact F)} {y : Nat → Nat → F} {r : SolveResult (Exact F)} {u : F}

/-- An entry of a point beyond its first `n` ones. -/
theorem entry_drop {xs : List (Exact F)} (hfinite : AllFinite xs) {n g : Nat} {value : Exact F}
    (hvalue : SolveResult.entry (xs.drop n) g = .ok value) : value = .finite (coord xs (n + g)) := by
  unfold SolveResult.entry at hvalue
  cases hget : (xs.drop n)[g]? with
  | none => simp [hget] at hvalue
  | some a =>
    rw [hget] at hvalue
    cases hvalue
    rw [List.getElem?_drop] at hget
    have hmem := List.mem_of_getElem? hget
    rw [← Exact.finite_value (hfinite _ hmem), coord, List.getD_eq_getElem?_getD, hget]
    rfl

/-- Recourse variables that respect the cuts of all groups are within the tolerance. -/
theorem respected_of_satisfied (hp : p.Proper) (hs : p.Solvable) (h : s.Core p m)
    (hx : AllFinite x) (hlength : x.length = p.firstStage.columns.length)
    (hy : ∀ i < p.scenarioCount, (p.recourse i).Solves (coord x) (y i))
    (hfinite : AllFinite r.point) {outcomes : List (Outcome (Exact F))}
    (houtcomes : List.Forall₂ (p.Solved x) (List.range p.scenarioCount) outcomes)
    (hsatisfied : ∀ group ∈ groups m.rules.multicut outcomes,
      GroupSatisfied m s x (r.point.drop s.firstColumns) group) : s.Respected p m r y := by
  intro c hc g hg
  obtain ⟨hsolved, hall⟩ := groups_spec m.rules.multicut houtcomes
  obtain ⟨os, hos⟩ := hall g hg
  obtain ⟨-, value, hvalue, hsatisfied⟩ := hsatisfied _ hos
  have hsum := sum_values hp hs hx hlength
    (fun i hi => mem_groupScenarios hg hi) (hsolved _ hos).2
    fun i hi => hy i (mem_groupScenarios hg hi)
  have hentry := entry_drop hfinite hvalue
  have hcut : (optimalityCut s.sign x os).value =
      .finite (p.shareAt (groupScenarios m.rules.multicut p.scenarioCount g) y) := by
    rw [h.sign]
    exact hsum
  rw [isSatisfied, hcut, hentry, hc] at hsatisfied
  simpa [Exact.one_eq] using hsatisfied

/-- Without a new cut the incumbent is optimal up to the cut tolerance. -/
theorem nearly_of_satisfied (hp : p.Proper) (hs : p.Solvable) (h : s.Core p m)
    (hcurrent : s.Current m r x) (hboxed : s.boxed = false) (hactive : s.allActive = true)
    (hy : ∀ i < p.scenarioCount, (p.recourse i).Solves (coord x) (y i))
    (hrespected : s.Respected p m r y) (hu : u ≤ p.lossAt (coord x) y) : Nearly s p m u x y := by
  refine ⟨hcurrent.candidate, hy, Or.inr ?_, fun _ hzero => ⟨s, r, hcurrent.solution,
    h.toFramed, hactive, hcurrent.certifies_freeMaster hboxed, ?_⟩⟩
  · intro c hc x' y' hxy
    have hbounded := hcurrent.bounded hactive hboxed
    obtain ⟨k, hk⟩ := (Exact.isFinite_iff _).1 (h.loss_first hp (coord x)).1
    have hloss := hcurrent.loss_le h.toFramed hp hs hc hrespected
    rw [hcurrent.objective, hk, Exact.finite_add] at hbounded
    rw [hk, Exact.value_finite] at hloss
    rcases h.lower with hnone | ⟨l, hl, -⟩
    · rw [hnone] at hbounded
      cases hbounded
    · rw [hl, Exact.atMost_finite, decide_eq_true_eq] at hbounded
      refine sub_le_iff_le_add'.2 ?_
      calc u ≤ p.lossAt (coord x) y := hu
        _ ≤ costAt s.masterCost (coord r.point) + k + slackAt p m c y := hloss
        _ ≤ l + slackAt p m c y := by gcongr
        _ ≤ p.lossAt x' y' + slackAt p m c y := by gcongr; exact h.lower_le hp hs hl hxy
  · have hloss := hcurrent.loss_le h.toFramed hp hs hzero hrespected
    rw [slackAt_zero, add_zero] at hloss
    exact hu.trans hloss

/-- With a small gap the incumbent is optimal up to the tolerance. -/
theorem nearly_of_gap (hp : p.Proper) (hs : p.Solvable) (h : s.Core p m)
    (hcurrent : s.Current m r x) (hboxed : s.boxed = false)
    (hy : ∀ i < p.scenarioCount, (p.recourse i).Solves (coord x) (y i))
    (hupper : s.upperBound = .finite u)
    (hgap : Scalar.atMost s.gap m.rules.tolerance = true) : Nearly s p m u x y := by
  -- A gap below a finite tolerance is one between two numbers.
  have hle : ∀ t, m.rules.tolerance = .finite t →
      ∃ l, s.lowerBound = .finite l ∧ u - l ≤ t * max 1 |u| := by
    intro t ht
    rcases h.lower with hnone | ⟨l, hl, -⟩
    · have hinfinite : s.gap = Scalar.infinity := by
        rw [gap, hnone]
        rfl
      rw [hinfinite, ht] at hgap
      cases hgap
    · have hpositive : (0 : F) < max 1 |u| := lt_of_lt_of_le one_pos (le_max_left _ _)
      have hquotient : s.gap = .finite ((u - l) / max 1 |u|) := by
        rw [gap, hl, hupper]
        simp only [Exact.isFinite_finite, Bool.and_self, if_true, Exact.finite_sub, Exact.one_eq,
          Exact.abs_finite, Exact.larger_finite]
        exact Exact.finite_div hpositive.ne'
      rw [hquotient, ht, Exact.atMost_finite, decide_eq_true_eq, div_le_iff₀ hpositive] at hgap
      exact ⟨l, hl, hgap⟩
  refine ⟨hcurrent.candidate, hy, Or.inl ?_, fun hzero _ => ?_⟩
  · intro t ht x' y' hxy
    obtain ⟨l, hl, hgap⟩ := hle t ht
    calc u - p.lossAt x' y' ≤ u - l := sub_le_sub_left (h.lower_le hp hs hl hxy) u
      _ ≤ t * max 1 |u| := hgap
  · obtain ⟨l, hl, hgap⟩ := hle 0 hzero
    have hcertifies := hcurrent.certifies_freeMaster hboxed
    rcases h.lower with hnone | ⟨l', hl', hactive, hbelow⟩
    · rw [hl] at hnone
      cases hnone
    · rw [hl] at hl'
      cases hl'
      refine ⟨s, r, hcurrent.solution, h.toFramed, hactive, hcertifies, ?_⟩
      calc u ≤ l := by simpa using hgap
        _ ≤ costAt s.masterCost (coord r.point) + s.first.constant.value :=
          hbelow _ hcertifies.feasible

/-- More cuts leave the last master solution and the incumbent alone. -/
theorem Nearly.grown (h : Nearly s p m u x y) (hgrown : s.Grown s') : Nearly s' p m u x y := by
  obtain ⟨active, cuts, rfl⟩ := hgrown
  exact ⟨h.candidate, h.solves, h.near, h.closed⟩

/-- While the box is needed there is no lower bound. -/
theorem lower_of_unbounded (h : s.LowerHolds) (hunbounded : s.freeMaster.Unbounded) :
    s.lowerBound = .minusInfinity := by
  rcases h with hnone | ⟨l, -, -, hbelow⟩
  · exact hnone
  · obtain ⟨v, hv, hlevel⟩ := hunbounded (l - s.first.constant.value)
    have hless : costAt s.masterCost v + s.first.constant.value < l := lt_sub_iff_add_lt.1 hlevel
    exact absurd (hbelow v hv) hless.not_ge

end Convergence

/-! ## The phases after the round -/

/-- What follows once the cuts of a complete round were added. -/
theorem conclude_ensures (hp : p.Proper) (hs : p.Solvable) {x : List (Exact F)}
    {y : Nat → Nat → F} {r : SolveResult (Exact F)} {u : F} {i : Incumbent (Exact F)}
    (hbefore : s.Core p m) (hcurrent : s.Current m r x)
    (hy : ∀ i < p.scenarioCount, (p.recourse i).Solves (coord x) (y i))
    (hupper : s.upperBound = .finite u) (hincumbent : s.incumbent = some i)
    (hu : u ≤ p.lossAt (coord x) y) (hgrown : s.Grown s') (hafter : s'.Core p m)
    (hstatus : s.status = .unsolved) (ht : s₀.Tightens s) {added : Nat}
    (hadded : added = 0 → s' = s ∧ s.Respected p m r y) :
    (if s'.allActive && (added == 0 || Scalar.atMost s'.gap m.rules.tolerance) then
        if s'.boxed then finish .unbounded else pure .converged
      else pure .masterSolve : Run σ (Exact F) Phase).Ensures s' (Advanced p m s₀)
      (Refused p m s₀) := by
  have htightens := hgrown.tightens ht
  have hnearlyGrown : Nearly s p m u x y → Nearly s' p m u x y := fun h => h.grown hgrown
  obtain ⟨active, cuts, hs'⟩ := hgrown
  have hcandidate : s'.candidate = some x := by rw [hs']; exact hcurrent.candidate
  have hupper' : s'.upperBound = .finite u := by rw [hs']; exact hupper
  have hrunning : s'.status = .unsolved := by rw [hs']; exact hstatus
  -- What stops the run is a round without a new cut or a small gap.  Inside the box either is the
  -- verdict that the program is unbounded; without the box the incumbent is good enough.
  split
  · rename_i hstop
    rw [Bool.and_eq_true, Bool.or_eq_true, beq_iff_eq] at hstop
    obtain ⟨hactive, hreason⟩ := hstop
    split
    · rename_i hboxed
      have hboxed : s.boxed = true := by rw [hs'] at hboxed; exact hboxed
      have hnone : ∀ t, m.rules.tolerance = .finite t → added = 0 := by
        intro t htolerance
        apply hreason.resolve_right
        intro hgap
        -- A finite tolerance needs a lower bound, and there is none while the box is needed.
        have hlower := lower_of_unbounded hbefore.lower (hcurrent.unbounded hboxed)
        have hinfinite : s'.gap = Scalar.infinity := by
          rw [gap, hs']
          simp only [hlower]
          rfl
        rw [hinfinite, htolerance] at hgap
        cases hgap
      refine hafter.finish_ensures htightens .unbounded (Or.inr ⟨by rw [hs']; exact hboxed, s,
        ⟨hbefore.toFramed, hcurrent.unbounded hboxed, Or.inr ⟨r, x, y, hcurrent, hboxed, hy,
          ?_⟩⟩, hcurrent.candidate.trans hcandidate.symm, ?_⟩)
      · intro t ht
        obtain ⟨rfl, hrespected⟩ := hadded (hnone t ht)
        exact ⟨hactive, hrespected⟩
      · intro t ht
        obtain ⟨rfl, -⟩ := hadded (hnone t ht)
        rfl
    · rename_i hboxed
      have hboxed : s.boxed = false := by rw [hs'] at hboxed; simpa using hboxed
      have hnearly : Nearly s' p m u x y := by
        rcases hreason with hzero | hgap
        · obtain ⟨rfl, hrespected⟩ := hadded hzero
          exact nearly_of_satisfied hp hs hafter hcurrent hboxed hactive hy hrespected hu
        · have hgap : Scalar.atMost s.gap m.rules.tolerance = true := by rw [hs'] at hgap; exact hgap
          exact hnearlyGrown (nearly_of_gap hp hs hbefore hcurrent hboxed hy hupper hgap)
      refine Change.ensures_pure ⟨Core.invariant (hafter.congr rfl rfl rfl rfl rfl rfl rfl) ?_
        hrunning, ⟨htightens.lower, htightens.upper⟩⟩
      refine ⟨u, i, x, y, hupper', by rw [hs']; exact hincumbent, ?_⟩
      exact ⟨hnearly.candidate, hnearly.solves, hnearly.near, hnearly.closed⟩
  · exact Change.ensures_pure (hafter.advanced_masterSolve hrunning htightens)

theorem aggregate_ensures [Host σ (Exact F)] (host : Host.Sound σ F) (hp : p.Proper)
    (hs : p.Solvable) (hbound : Scalar.less 0 m.rules.masterBound = true) (h : s.Invariant p m)
    (hphase : s.phase = .aggregate) (hstatus : s.status = .unsolved) :
    (aggregate m p).Ensures s (Advanced p m s) (Refused p m s) := by
  have hfacts := h.phase
  unfold PhaseHolds at hfacts
  rw [hphase] at hfacts
  have hbetween : ({ s with round := none } : State (Exact F)).Between p m :=
    ⟨h.toCore.congr rfl rfl rfl rfl rfl rfl rfl, hphase, rfl, hstatus⟩
  have htightens : s.Tightens { s with round := none } :=
    ⟨(h.toCore.tightens rfl rfl).lower, (h.toCore.tightens rfl rfl).upper⟩
  unfold aggregate
  refine Change.ensures_bind (Change.ensures_state ?_)
  refine Change.ensures_bind (Change.ensures_update ?_)
  -- The round is read off `s`, and from here on the state is the one without it.
  obtain ⟨taken, htaken⟩ : ∃ taken, taken = ({ s with round := none } : State (Exact F)) :=
    ⟨_, rfl⟩
  rw [← htaken] at hbetween htightens ⊢
  cases hround : s.round with
  | none =>
    refine Change.ensures_fail ?_
    exact hbetween.refused htightens fun ⟨_, h⟩ => nomatch h
  | some round =>
    obtain ⟨r, x, hcurrent, hdescribes⟩ := hfacts round hround
    obtain ⟨hx, hlength, hfits⟩ := hcurrent.decision h.toFramed hp hbound
    rw [hcurrent.solution]
    simp only [hdescribes.decision]
    by_cases hcomplete : round.failures = []
    · have hisComplete : (!round.isComplete) = false := by
        rw [Round.isComplete, hcomplete]
        rfl
      rw [hisComplete, if_neg (by simp)]
      obtain ⟨y, hy⟩ := exists_solutions hp hx hlength (fun i hi => List.mem_range.1 hi)
        (hdescribes.complete hcomplete)
      have hy : ∀ i < p.scenarioCount, (p.recourse i).Solves (coord x) (y i) := fun i hi =>
        hy i (List.mem_range.2 hi)
      refine Change.ensures_bind (Change.ensures_update ?_)
      obtain ⟨hcore, hupper, u, i, hu, hi, hsound, hle⟩ := hbetween.toCore.improve hp hs hx hlength
        hfits hdescribes hcomplete hy r
      -- Improving touches the upper bound and the incumbent only, so the state is explicit again.
      obtain ⟨upperBound, incumbent, himproved⟩ := improve_eq round r taken
      rw [himproved] at hcore hupper hu hi ⊢
      subst htaken
      have hcurrent' : ({ s with round := none, upperBound, incumbent } :
          State (Exact F)).Current m r x := hcurrent.congr rfl rfl rfl rfl rfl rfl rfl
      have htightens' : s.Tightens { s with round := none, upperBound, incumbent } :=
        ⟨htightens.lower, hupper⟩
      have hbetween' : ({ s with round := none, upperBound, incumbent } :
          State (Exact F)).Between p m := ⟨hcore, hphase, rfl, hstatus⟩
      refine Change.ensures_bind ((addOptimalityCuts_ensures hp hs hx hlength
        (groups m.rules.multicut round.outcomes)
        (groups_spec m.rules.multicut (hdescribes.complete hcomplete)).1 hcore).mono ?_ ?_)
      · intro added s' hs'
        obtain ⟨hafter, hgrown, hadded⟩ := hs'
        refine Change.ensures_bind (Change.ensures_state ?_)
        refine conclude_ensures hp hs hcore hcurrent' hy hu hi hle hgrown hafter hstatus htightens'
          fun hzero => ⟨(hadded hzero).1, ?_⟩
        exact respected_of_satisfied hp hs hcore hx hlength hy hcurrent.certifies.point_finite
          (hdescribes.complete hcomplete) (hadded hzero).2
      · intro f s' hs'
        exact (hbetween'.grown hs'.2.1 hs'.1).refused (hs'.2.1.tightens htightens') hs'.2.2
    · have hisComplete : (!round.isComplete) = true := by
        rw [Round.isComplete, Bool.not_eq_true', List.isEmpty_eq_false_iff]
        exact hcomplete
      rw [hisComplete, if_pos rfl]
      exact handleFailures_ensures host hp hs hx hlength hfits round.failures
        hdescribes.failures hbetween htightens

theorem converge_ensures [Host σ (Exact F)] (host : Host.Sound σ F) (h : s.Invariant p m)
    (hphase : s.phase = .converged) :
    (converge : Run σ (Exact F) Phase).Ensures s (Advanced p m s) (Refused p m s) := by
  have hconverged := h.phase
  unfold PhaseHolds at hconverged
  rw [hphase] at hconverged
  have htightens : s.Tightens s := h.toCore.tightens rfl rfl
  unfold converge
  refine Change.ensures_bind (Change.ensures_state ?_)
  cases hincumbent : s.incumbent with
  | none =>
    -- The phase is entered with an incumbent.
    obtain ⟨u, i, x, y, hu, hi, -⟩ := hconverged
    rw [hincumbent] at hi
    cases hi
  | some i =>
    cases hsolution : s.masterSolution with
    | none => exact Change.ensures_fail ⟨h, htightens, fun ⟨_, h⟩ => nomatch h⟩
    | some latest =>
      refine Change.ensures_bind (Change.ensures_ofAct (host.clock.mono ?_
        fun f hf => ⟨h, htightens, fun hcrossed =>
          absurd hcrossed (LinearProgram.not_isCrossed_of_isBreakdown hf)⟩))
      intro now _
      refine Change.ensures_bind (Change.ensures_update ?_)
      have hcore : (conclude i latest (now - s.started) s).Core p m :=
        h.toCore.congr rfl rfl rfl rfl rfl rfl rfl
      refine hcore.finish_ensures ⟨htightens.lower, htightens.upper⟩ .optimal ?_
      refine ⟨?_, ?_, rfl⟩
      · obtain ⟨u, j, x, y, hu, hj, hnearly⟩ := hconverged
        exact ⟨u, j, x, y, hu, hj, hnearly.candidate, hnearly.solves, hnearly.near, hnearly.closed⟩
      · intro j hj
        have hj : s.incumbent = some j := hj
        rw [hincumbent] at hj
        cases hj
        refine ⟨rfl, rfl, fun r hr => ?_⟩
        have hr : s.masterSolution = some r := hr
        rw [hsolution] at hr
        cases hr
        exact ⟨rfl, rfl⟩

end State

end LShaped

end Recourse
