/-
  Proofs/Program/Acceptance.lean --- what a program checks of a solution.

  A run is committed exactly where the program accepts it: the run is one of this program
  and ended with an optimum, the decision is as long as the decisions the program knows,
  and there is one result per scenario, as long as its subproblem, which has to be current
  (`commitRun_ensures`).
-/
import Recourse.Proofs.Program.Transition

set_option autoImplicit false
set_option linter.unusedSectionVars false

namespace Recourse

variable {σ K : Type} [Scalar K]

namespace Program

variable {p : Program σ K}

/-! ## Subproblems -/

/-- The subproblem of a scenario is handed out where it is current. -/
theorem subproblemAt_settles {i : Nat} (hi : i < p.slots.length) :
    Settles (p.subproblemAt i) (fun m => p.slots[i].built = some (m, p.secondEpoch))
      fun _ => ∀ m, p.slots[i].built ≠ some (m, p.secondEpoch) := by
  cases h : p.subproblemAt i with
  | ok m => exact (subproblemAt_eq_ok hi).1 h
  | error f =>
    intro m hm
    rw [(subproblemAt_eq_ok hi).2 hm] at h
    cases h

/-- All subproblems are handed out where all of them are current. -/
theorem subproblems_settles (p : Program σ K) : Settles p.subproblems
    (List.Forall₂ (fun s m => s.built = some (m, p.secondEpoch)) p.slots)
    fun _ => ∃ s ∈ p.slots, ∀ m, s.built ≠ some (m, p.secondEpoch) := by
  refine (Settles.mapM (R := fun i m => ∃ hi : i < p.slots.length,
    p.slots[i].built = some (m, p.secondEpoch)) _ fun i hi => ?_).mono ?_ fun _ h => h
  · have hi : i < p.slots.length := List.mem_range.1 hi
    exact (subproblemAt_settles hi).mono (fun m hm => ⟨hi, hm⟩)
      fun _ h => ⟨p.slots[i], List.getElem_mem hi, h⟩
  · intro models hmodels
    rw [List.forall₂_iff_get] at hmodels ⊢
    obtain ⟨hlength, hget⟩ := hmodels
    refine ⟨by simpa [scenarioCount] using hlength, fun i hi hi' => ?_⟩
    obtain ⟨_, hbuilt⟩ := hget i (by simpa [scenarioCount] using hi) hi'
    simpa using hbuilt

/-! ## Results -/

/-- A result is as long as the subproblem in a slot, which is current. -/
def Answers (p : Program σ K) (s : Slot K) (result : SolveResult K) : Prop :=
  ∃ m, s.built = some (m, p.secondEpoch) ∧ result.point.length = m.variableCount

/-- Every result is as long as its subproblem, or one is refused. -/
theorem checkResults_settles (i : Nat) (models : List (Model K)) (results : List (SolveResult K))
    (hlength : results.length = models.length) :
    Settles (checkResults i models results)
      (fun _ => List.Forall₂ (fun m r => r.point.length = m.variableCount) models results)
      fun _ => ¬ List.Forall₂ (fun m r => r.point.length = m.variableCount) models results := by
  induction models generalizing i results with
  | nil =>
    cases results with
    | nil => exact .nil
    | cons r results => cases hlength
  | cons m models ih =>
    cases results with
    | nil => cases hlength
    | cons r results =>
      unfold checkResults
      split
      · rename_i hwidth
        exact fun h => hwidth (List.forall₂_cons.1 h).1
      · rename_i hwidth
        refine (ih (i + 1) results (Nat.succ.inj hlength)).mono ?_ ?_
        · exact fun _ h => .cons (not_not.1 hwidth) h
        · exact fun _ h hall => h (List.forall₂_cons.1 hall).2

theorem forall₂_answers_iff {slots : List (Slot K)} {models : List (Model K)}
    (h : List.Forall₂ (fun s m => s.built = some (m, p.secondEpoch)) slots models)
    (results : List (SolveResult K)) : List.Forall₂ p.Answers slots results ↔
      List.Forall₂ (fun m r => r.point.length = m.variableCount) models results := by
  induction h generalizing results with
  | nil => simp
  | @cons s m slots models hs _ ih =>
    cases results with
    | nil => simp
    | cons r results =>
      have hanswers : p.Answers s r ↔ r.point.length = m.variableCount := by
        constructor
        · rintro ⟨m', hm', hwidth⟩
          obtain ⟨rfl, -⟩ := Prod.mk.inj (Option.some.inj (hs.symm.trans hm'))
          exact hwidth
        · exact fun hwidth => ⟨m, hs, hwidth⟩
      rw [List.forall₂_cons, List.forall₂_cons, ih, hanswers]

/-! ## Commits -/

theorem decisionCount_settles (p : Program σ K) : Settles p.decisionCount
    (fun n => ∃ d, p.decisions = some d ∧ n = d.names.length) fun _ => p.decisions = none := by
  unfold decisionCount currentDecisions
  cases hd : p.decisions with
  | none => exact rfl
  | some d => exact ⟨d, rfl, rfl⟩

/-- What a program checks of a run that is committed to it. -/
structure Accepts (p : Program σ K) (r : RunState K) : Prop where
  /-- The run is one of this program. -/
  id : r.programId = p.id
  /-- It ended with an optimum. -/
  optimal : r.status = .optimal
  /-- The decision is as long as the decisions the program knows. -/
  decision : ∃ x d, r.decision = some x ∧ p.decisions = some d ∧ x.length = d.names.length
  /-- Every subproblem is current, and there is a result of its length. -/
  results : List.Forall₂ p.Answers p.slots r.secondStage

/-- What of this concerns the solution alone. -/
def Takes (p : Program σ K) (decision : List K) (results : List (SolveResult K)) : Prop :=
  (∃ d, p.decisions = some d ∧ decision.length = d.names.length) ∧
    List.Forall₂ p.Answers p.slots results

theorem accepts_iff {r : RunState K} {x : List K} (hx : r.decision = some x) :
    p.Accepts r ↔ r.programId = p.id ∧ r.status = .optimal ∧ p.Takes x r.secondStage := by
  constructor
  · rintro ⟨hid, hstatus, ⟨x', d, hx', hd, hlength⟩, hresults⟩
    cases hx.symm.trans hx'
    exact ⟨hid, hstatus, ⟨d, hd, hlength⟩, hresults⟩
  · rintro ⟨hid, hstatus, ⟨d, hd, hlength⟩, hresults⟩
    exact ⟨hid, hstatus, ⟨x, d, hx, hd, hlength⟩, hresults⟩

/-- A solution is installed as a whole where the program takes it, and not at all where it
does not. -/
theorem commit_ensures (solution : Solution K) (results : List (SolveResult K))
    (master : Option (SolveResult K)) (p : Program σ K) :
    (commit solution results master : Edit σ K Unit).Ensures p
      (fun _ p' => p.Takes solution.decision results ∧ p' = p.install solution results master)
      fun _ p' => ¬ p.Takes solution.decision results ∧ p' = p := by
  unfold commit
  refine Change.ensures_bind (Change.ensures_state (Change.ensures_bind (Change.ensures_lift
    (p.decisionCount_settles.mono ?_ ?_))))
  swap
  · rintro f hnone
    refine ⟨?_, rfl⟩
    rintro ⟨⟨d, hd, -⟩, -⟩
    cases hnone.symm.trans hd
  -- One check after the other, each of which fails exactly if a part of `Takes` does.
  rintro n ⟨d, hd, rfl⟩
  dsimp only
  split
  · rename_i hlength
    refine Change.ensures_bind (Change.ensures_fail ⟨?_, rfl⟩)
    rintro ⟨⟨d', hd', hsame⟩, -⟩
    cases hd.symm.trans hd'
    exact hlength hsame
  rename_i hlength
  split
  · rename_i hcount
    exact Change.ensures_bind (Change.ensures_fail ⟨fun h => hcount h.2.length_eq.symm, rfl⟩)
  rename_i hcount
  refine Change.ensures_bind (Change.ensures_lift (p.subproblems_settles.mono ?_ ?_))
  swap
  · rintro f ⟨s, hs, hstale⟩
    refine ⟨fun h => ?_, rfl⟩
    obtain ⟨i, hi, rfl⟩ := List.getElem_of_mem hs
    obtain ⟨m, hm, -⟩ := h.2.get hi (h.2.length_eq ▸ hi)
    exact hstale m hm
  intro models hmodels
  have hanswers := forall₂_answers_iff hmodels results
  refine Change.ensures_bind (Change.ensures_lift ((checkResults_settles 0 models results
    ?_).mono ?_ fun _ hnot => ⟨fun h => hnot (hanswers.1 h.2), rfl⟩))
  · exact (not_not.1 hcount).trans hmodels.length_eq
  intro _ hwidths
  exact Change.ensures_update ⟨⟨⟨d, hd, not_not.1 hlength⟩, hanswers.2 hwidths⟩, rfl⟩

/-- A run is committed as a whole where the program accepts it, and not at all where it
does not. -/
theorem commitRun_ensures (label : String) (r : RunState K) (p : Program σ K) :
    (commitRun label r : Edit σ K Unit).Ensures p
      (fun _ p' => p.Accepts r ∧ ∃ solution, p' = p.install solution r.secondStage r.masterResult ∧
        r.decision = some solution.decision ∧ r.objective = solution.objective)
      fun _ p' => ¬ p.Accepts r ∧ p' = p := by
  unfold commitRun
  refine Change.ensures_bind (Change.ensures_state ?_)
  dsimp only
  split
  · rename_i hid
    exact Change.ensures_bind (Change.ensures_fail ⟨fun h => hid h.id, rfl⟩)
  rename_i hid
  split
  · rename_i decision hstatus hdecision
    have haccepts := accepts_iff (p := p) hdecision
    refine (commit_ensures _ r.secondStage r.masterResult p).mono ?_ ?_
    · rintro _ _ ⟨htakes, rfl⟩
      exact ⟨haccepts.2 ⟨not_not.1 hid, hstatus, htakes⟩, _, rfl, hdecision, rfl⟩
    · rintro _ _ ⟨hnot, rfl⟩
      exact ⟨fun h => hnot (haccepts.1 h).2.2, rfl⟩
  · rename_i hother
    refine Change.ensures_fail ⟨fun h => ?_, rfl⟩
    obtain ⟨x, -, hx, -⟩ := h.decision
    exact hother x h.optimal hx

end Program

end Recourse
