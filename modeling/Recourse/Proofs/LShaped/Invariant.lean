/-
  Proofs/LShaped/Invariant.lean --- what holds in every state of a run.

  Three things hold whatever the phase: the cuts are valid, the lower bound is below
  every feasible point of the master problem, and the upper bound is the loss of the
  incumbent (`State.Core`).  A phase adds what the next one relies on, and an ended run
  what its verdict means (`State.Invariant`).
-/
import Recourse.Proofs.LShaped.Master

set_option autoImplicit false
set_option linter.unusedSectionVars false

open scoped BigOperators

namespace Recourse

variable {F : Type} [Field F] [LinearOrder F] [IsStrictOrderedRing F] [FloorRing F] {σ : Type}

/-! ## Decisions and their losses -/

/-- A decision that fits the first stage, where every recourse has an optimum; `u` is the
loss of the program there. -/
structure Program.Evaluated (p : Program σ (Exact F)) (x : List (Exact F)) (u : F) : Prop where
  /-- It is made of numbers. -/
  finite : AllFinite x
  /-- There is one for every column. -/
  length : x.length = p.firstStage.columns.length
  /-- It fits the first stage. -/
  fits : p.firstStage.Fits (coord x) (coord x)
  /-- The loss is that of optimal recourse. -/
  value : ∃ y : Nat → Nat → F, (∀ i < p.scenarioCount, (p.recourse i).Solves (coord x) (y i)) ∧
    u = p.lossAt (coord x) y

namespace LShaped

/-- The decision of an incumbent has loss `u`, and its round is about it. -/
structure Incumbent.Sound (i : Incumbent (Exact F)) (p : Program σ (Exact F)) (u : F) : Prop where
  /-- The loss. -/
  evaluated : p.Evaluated i.decision u
  /-- The round. -/
  round : i.round.Describes p i.decision
  /-- Every scenario was solved in it. -/
  complete : i.round.failures = []

/-- The master solution whose multipliers are published: the last one where it has the
decision of the incumbent, else the one the incumbent came from. -/
def Incumbent.publisher (i : Incumbent (Exact F)) (latest : SolveResult (Exact F)) (n : Nat) :
    SolveResult (Exact F) :=
  if agree (latest.point.take n) i.decision then latest else i.master

/-- A decision keeps to the box and to the first stage's bounds in it. -/
def InBox (p : Program σ (Exact F)) (bound : Exact F) (x : Nat → F) : Prop :=
  ∀ c ∈ p.firstStage.columns,
    Scalar.atMost (Scalar.maximum c.lower (-bound)) (.finite (x c.index)) = true ∧
      Scalar.atMost (.finite (x c.index)) (Scalar.minimum c.upper bound) = true

namespace State

variable (s : State (Exact F)) (p : Program σ (Exact F)) (m : LShaped σ (Exact F))

/-- The master problem that was solved last. -/
def solvedMaster (bound : Exact F) : LinearProgram (Exact F) :=
  if s.boxed then s.boxedMaster bound else s.freeMaster

/-- Without the box the master problem is unbounded, and with it the bounds are crossed or
no point is feasible. -/
structure BoxFails (bound : Exact F) : Prop where
  /-- The box is needed. -/
  unbounded : s.freeMaster.Unbounded
  /-- Nothing is left in it. -/
  nothing : LinearProgram.crossed (s.boxedMaster bound).lower (s.boxedMaster bound).upper ≠ [] ∨
    ∀ v, ¬ (s.boxedMaster bound).Feasible v

/-! ## Bounds -/

/-- The lower bound says nothing, or every recourse variable is active and the bound is
below the cost of every feasible point of the master problem. -/
def LowerHolds : Prop :=
  s.lowerBound = .minusInfinity ∨ ∃ l : F, s.lowerBound = .finite l ∧ s.allActive = true ∧
    ∀ v, s.freeMaster.Feasible v → l ≤ costAt s.masterCost v + s.first.constant.value

/-- There is neither upper bound nor incumbent, or the bound is the loss of the
incumbent. -/
def UpperHolds : Prop :=
  (s.upperBound = .plusInfinity ∧ s.incumbent = none) ∨
    ∃ u i, s.upperBound = .finite u ∧ s.incumbent = some i ∧ i.Sound p u

/-- What holds whatever the phase. -/
structure Core : Prop extends Framed s p m.rules.multicut where
  /-- The lower bound. -/
  lower : s.LowerHolds
  /-- The upper bound. -/
  upper : s.UpperHolds p

/-! ## Phases -/

/-- The candidate `x` comes from the result `r` of the master problem as it stands. -/
structure Current (r : SolveResult (Exact F)) (x : List (Exact F)) : Prop where
  /-- The last master solution. -/
  solution : s.masterSolution = some r
  /-- The candidate. -/
  candidate : s.candidate = some x
  /-- The candidate is the decision of the solution. -/
  point : x = r.point.take s.firstColumns
  /-- The solution is optimal. -/
  certifies : r.Certifies (s.solvedMaster m.rules.masterBound)
  /-- The box was needed. -/
  unbounded : s.boxed = true → s.freeMaster.Unbounded
  /-- The lower bound takes account of the solution. -/
  bounded : s.allActive = true → s.boxed = false →
    Scalar.atMost (r.objective + s.first.constant) s.lowerBound = true

/-- Every recourse variable is within the tolerance of the loss `y` of its scenarios. -/
def Respected (r : SolveResult (Exact F)) (y : Nat → Nat → F) : Prop :=
  ∀ c, m.rules.cutTolerance = .finite c →
    ∀ g < groupCount m.rules.multicut p.scenarioCount,
      p.shareAt (groupScenarios m.rules.multicut p.scenarioCount g) y -
          coord r.point (s.firstColumns + g) ≤
        c * (1 + |p.shareAt (groupScenarios m.rules.multicut p.scenarioCount g) y|)

/-- By how much the cut tolerance lets the recourse variables miss the loss `y`. -/
def slackAt (c : F) (y : Nat → Nat → F) : F :=
  ∑ g ∈ Finset.range (groupCount m.rules.multicut p.scenarioCount),
    c * (1 + |p.shareAt (groupScenarios m.rules.multicut p.scenarioCount g) y|)

/-- A master problem that was solved without the box, with every recourse variable active;
its optimum `r` costs no less than `u`. -/
structure Closes (r : SolveResult (Exact F)) (u : F) : Prop where
  /-- It belongs to the program. -/
  framed : s.Framed p m.rules.multicut
  /-- The recourse variables are active. -/
  active : s.allActive = true
  /-- This is its optimum. -/
  certifies : r.Certifies s.freeMaster
  /-- The optimum reaches the value. -/
  reached : u ≤ costAt s.masterCost (coord r.point) + s.first.constant.value

/-- The incumbent is optimal up to one of the tolerances; `y` solves the recourse at the
last candidate. -/
structure Nearly (u : F) (x : List (Exact F)) (y : Nat → Nat → F) : Prop where
  /-- The last candidate. -/
  candidate : s.candidate = some x
  /-- Its recourse. -/
  solves : ∀ i < p.scenarioCount, (p.recourse i).Solves (coord x) (y i)
  /-- The distance from every feasible plan. -/
  near : (∀ t, m.rules.tolerance = .finite t → ∀ x' y', p.Feasible x' y' →
      u - p.lossAt x' y' ≤ t * max 1 |u|) ∨
    (∀ c, m.rules.cutTolerance = .finite c → ∀ x' y', p.Feasible x' y' →
      u - p.lossAt x' y' ≤ slackAt p m c y)
  /-- Without tolerances the last master problem reaches the incumbent. -/
  closed : m.rules.tolerance = .finite 0 → m.rules.cutTolerance = .finite 0 →
    ∃ (s' : State (Exact F)) (r : SolveResult (Exact F)), s.masterSolution = some r ∧
      s'.Closes p m r u

/-- The run may conclude. -/
def Converged : Prop := ∃ u i x y, s.upperBound = .finite u ∧ s.incumbent = some i ∧
  Nearly s p m u x y

/-- What the next phase relies on. -/
def PhaseHolds : Prop :=
  match s.phase with
  | .init => s.lowerBound = .minusInfinity ∧ s.upperBound = .plusInfinity
  | .broadcast => ∃ r x, s.Current m r x
  | .subproblemSolve => ∃ r x, s.Current m r x ∧ s.round = some (Round.announced x)
  | .aggregate => ∀ round, s.round = some round → ∃ r x, s.Current m r x ∧ round.Describes p x
  | .converged => s.Converged p m
  | .masterSolve | .terminated => True

/-! ## Verdicts -/

/-- The duals of the first-stage rows in a master solution, in the sense of the program. -/
def firstDuals (r : SolveResult (Exact F)) : List (Exact F) :=
  Scalar.scale s.sign (r.duals.take s.first.rows.length)

/-- The reduced costs of the first-stage columns. -/
def firstCosts (r : SolveResult (Exact F)) : List (Exact F) :=
  Scalar.scale s.sign (r.costs.take s.firstColumns)

/-- The solution of an ended run is the incumbent. -/
structure Concluded : Prop where
  /-- The run had converged. -/
  converged : s.Converged p m
  /-- The decision and the results are those of the incumbent, and it has a say in where the
  multipliers come from. -/
  incumbent : ∀ i, s.incumbent = some i →
    s.decision = some i.decision ∧ s.secondStage = i.round.results ∧
      ∀ r, s.masterSolution = some r →
        s.duals = some (s.firstDuals (i.publisher r s.firstColumns)) ∧
          s.reducedCosts = some (s.firstCosts (i.publisher r s.firstColumns))
  /-- The objective is the upper bound in the sense of the program. -/
  objective : s.objective = s.sign * s.upperBound

/-- Nothing is feasible, or the box that was needed leaves nothing. -/
def Excluded : Prop :=
  (∀ x y, ¬ p.Feasible x y) ∨ (s.boxed = true ∧ s.BoxFails m.rules.masterBound)

/-- Some recourse is unbounded at a decision that fits the first stage. -/
def RecourseUnbounded : Prop := ∃ x : Nat → F, p.firstStage.Fits x x ∧
  ∃ i < p.scenarioCount, (p.recourse i).UnboundedAt x

/-- The last master problem is unbounded without the box, and in the box it is so too or
the recourse variables at its optimum are as they should be. -/
structure MasterUnbounded : Prop where
  /-- The cuts are valid. -/
  framed : Framed s p m.rules.multicut
  /-- Without the box it is unbounded. -/
  free : s.freeMaster.Unbounded
  /-- In the box it is unbounded too, or the run ended there. -/
  boxed : ((s.boxedMaster m.rules.masterBound).Unbounded ∧
      (s.boxedMaster m.rules.masterBound).Ordered) ∨
    ∃ r x y, s.Current m r x ∧ s.boxed = true ∧
      (∀ i < p.scenarioCount, (p.recourse i).Solves (coord x) (y i)) ∧
      ∀ t, m.rules.tolerance = .finite t → s.allActive = true ∧ s.Respected p m r y

/-- The run ended in the box that its last master problem needed. -/
structure EndedInBox : Prop where
  /-- The box was needed. -/
  boxed : s.boxed = true
  /-- What is known of the last master problem, before its last cuts if there are any. -/
  last : ∃ s' : State (Exact F), s'.MasterUnbounded p m ∧ s'.candidate = s.candidate ∧
    ∀ t, m.rules.tolerance = .finite t → s'.freeMaster = s.freeMaster

/-- What the verdict of an ended run means. -/
def OutcomeHolds : Prop :=
  match s.status with
  | .optimal => s.Concluded p m
  | .infeasible => m.rules.feasibilityCuts = true → s.Excluded p m
  | .unbounded => RecourseUnbounded p ∨ s.EndedInBox p m
  | _ => True

/-- What holds in every state of a run. -/
structure Invariant : Prop extends Core s p m where
  /-- The phase. -/
  phase : s.PhaseHolds p m
  /-- The verdict. -/
  outcome : s.OutcomeHolds p m

variable {s p m}

/-! ## New cuts -/

theorem getD_set_of_getD {active : List Bool} (g : Nat) {k : Nat}
    (h : active.getD k false = true) : (active.set g true).getD k false = true := by
  rw [List.getD_eq_getElem?_getD, List.getElem?_set]
  split
  · rename_i hk
    subst hk
    have hk : g < active.length := by
      by_contra hk
      rw [List.getD_eq_default _ _ (not_lt.1 hk)] at h
      cases h
    simp [hk]
  · rwa [← List.getD_eq_getElem?_getD]

/-- Active recourse variables stay active. -/
theorem active_addCut (cut : Cut (Exact F)) (group : Option Nat) {k : Nat}
    (h : s.active.getD k false = true) : (s.addCut cut group).active.getD k false = true := by
  cases group with
  | none => exact h
  | some g => exact getD_set_of_getD g h

theorem length_active_addCut (cut : Cut (Exact F)) (group : Option Nat) :
    (s.addCut cut group).active.length = s.active.length := by
  cases group with
  | none => rfl
  | some g => exact List.length_set

/-- When every recourse variable is active, a new cut changes nothing about that. -/
theorem active_addCut_of_allActive (cut : Cut (Exact F)) (group : Option Nat)
    (h : s.allActive = true) : (s.addCut cut group).active = s.active := by
  cases group with
  | none => rfl
  | some g =>
    apply List.ext_getElem (List.length_set)
    intro k h1 h2
    have hk : s.active[k] = true := List.all_eq_true.1 h _ (List.getElem_mem h2)
    have hset := getD_set_of_getD g (k := k) (by rw [List.getD_eq_getElem _ _ h2, hk])
    rw [List.getD_eq_getElem _ _ (by simpa using h2)] at hset
    exact hset.trans hk.symm

theorem AddedCut.Valid.mono {c : AddedCut (Exact F)} {multicut : Bool} {active active' : List Bool}
    (h : AddedCut.Valid c p multicut active)
    (hactive : ∀ g, active.getD g false = true → active'.getD g false = true) :
    AddedCut.Valid c p multicut active' := by
  rcases h with ⟨g, hg, hgroup, hone, hcut⟩ | h
  · exact Or.inl ⟨g, hg, hgroup, hactive g hone, hcut⟩
  · exact Or.inr h

/-- A valid cut may be added. -/
theorem Framed.addCut {multicut : Bool} (h : s.Framed p multicut) {cut : Cut (Exact F)}
    {group : Option Nat}
    (hcut : AddedCut.Valid ⟨cut, group⟩ p multicut (s.addCut cut group).active) :
    (s.addCut cut group).Framed p multicut where
  first := h.first
  sign := h.sign
  groups := (length_active_addCut cut group).trans h.groups
  cuts := by
    intro c hc
    rcases List.mem_append.1 hc with hc | hc
    · exact AddedCut.Valid.mono (h.cuts c hc) fun g => active_addCut cut group
    · rwa [List.mem_singleton.1 hc]
  covered := by
    intro g hg
    by_cases hold : s.active.getD g false = true
    · obtain ⟨c, hc, hgroup⟩ := h.covered g hold
      exact ⟨c, List.mem_append_left _ hc, hgroup⟩
    · refine ⟨⟨cut, group⟩, List.mem_append_right _ (List.mem_singleton_self _), ?_⟩
      cases group with
      | none => exact absurd hg hold
      | some k =>
        by_cases hk : k = g
        · rw [hk]
        · have hset : (s.active.set k true).getD g false = s.active.getD g false := by
            rw [List.getD_eq_getElem?_getD, List.getElem?_set_ne hk, ← List.getD_eq_getElem?_getD]
          exact absurd (hset.symm.trans hg) hold

/-- When every recourse variable is active, the points that respect one more cut respect
the others. -/
theorem RecourseHolds.of_addCut {cut : Cut (Exact F)} {group : Option Nat} {v : Nat → F}
    (hactive : s.allActive = true) (h : (s.addCut cut group).RecourseHolds v) :
    s.RecourseHolds v where
  inactive := by
    intro g hg hzero
    rw [getD_of_allActive hactive hg] at hzero
    cases hzero
  cuts := fun c hc => h.cuts c (List.mem_append_left _ hc)

theorem Core.addCut (h : s.Core p m) (hp : p.Proper) {cut : Cut (Exact F)} {group : Option Nat}
    (hcut : AddedCut.Valid ⟨cut, group⟩ p m.rules.multicut (s.addCut cut group).active) :
    (s.addCut cut group).Core p m := by
  have hframed := h.toFramed.addCut hcut
  refine ⟨hframed, ?_, h.upper⟩
  rcases h.lower with hnone | ⟨l, hl, hactive, hbelow⟩
  · exact Or.inl hnone
  · have heq := active_addCut_of_allActive cut group hactive
    refine Or.inr ⟨l, hl, by rw [allActive, heq]; exact hactive, ?_⟩
    intro v hv
    have hfeasible := (hframed.feasible_freeMaster_iff hp v).1 hv
    have hcost : (s.addCut cut group).masterCost = s.masterCost := by
      show (s.addCut cut group).first.cost ++ (s.addCut cut group).active.map _ = _
      rw [heq]
      rfl
    rw [hcost]
    exact hbelow v ((h.feasible_freeMaster_iff hp v).2
      ⟨hfeasible.1, RecourseHolds.of_addCut hactive hfeasible.2⟩)

/-! ## Reading the invariant -/

/-- The lower bound is below the loss of every feasible plan. -/
theorem Core.lower_le (h : s.Core p m) (hp : p.Proper) (hs : p.Solvable) {l : F}
    (hl : s.lowerBound = .finite l) {x : Nat → F} {y : Nat → Nat → F} (hxy : p.Feasible x y) :
    l ≤ p.lossAt x y := by
  rcases h.lower with hnone | ⟨l', hl', hactive, hbelow⟩
  · rw [hnone] at hl
    cases hl
  · rw [hl'] at hl
    cases hl
    have hle := hbelow _ (h.masterPoint_feasible hp hxy)
    rwa [h.costAt_masterPoint hp hs hactive] at hle

/-- An upper bound that is a number is the loss of the incumbent. -/
theorem Core.evaluated (h : s.Core p m) {u : F} {i : Incumbent (Exact F)}
    (hu : s.upperBound = .finite u) (hi : s.incumbent = some i) : p.Evaluated i.decision u := by
  rcases h.upper with ⟨-, hnone⟩ | ⟨u', i', hu', hi', hsound⟩
  · rw [hnone] at hi
    cases hi
  · rw [hi'] at hi
    rw [hu'] at hu
    cases hi
    cases hu
    exact hsound.evaluated

section Current

variable {r : SolveResult (Exact F)} {x : List (Exact F)}

/-- The solution of the master problem is feasible for it without the box. -/
theorem Current.feasible (h : s.Current m r x) (hf : s.Framed p m.rules.multicut)
    (hp : p.Proper) (hbound : Scalar.less 0 m.rules.masterBound = true) :
    s.freeMaster.Feasible (coord r.point) := by
  have hfeasible := h.certifies.feasible
  unfold solvedMaster at hfeasible
  split at hfeasible
  · exact hf.feasible_of_boxed hp hbound hfeasible
  · exact hfeasible

theorem cost_solvedMaster (s : State (Exact F)) (bound : Exact F) :
    (s.solvedMaster bound).cost = s.masterCost := by
  unfold solvedMaster
  split <;> rfl

/-- Unless the box was needed, the solution is an optimum of the master problem without
it. -/
theorem Current.certifies_freeMaster (h : s.Current m r x) (hboxed : s.boxed = false) :
    r.Certifies s.freeMaster := by
  have hcertifies := h.certifies
  rwa [solvedMaster, hboxed, if_neg Bool.false_ne_true] at hcertifies

/-- The candidate is a decision that fits the first stage. -/
theorem Current.decision (h : s.Current m r x) (hf : s.Framed p m.rules.multicut)
    (hp : p.Proper) (hbound : Scalar.less 0 m.rules.masterBound = true) :
    AllFinite x ∧ x.length = p.firstStage.columns.length ∧
      p.firstStage.Fits (coord x) (coord x) := by
  have hlength : r.point.length = p.firstStage.columns.length + s.active.length := by
    rw [h.certifies.point_length, cost_solvedMaster, hf.length_masterCost]
  have hn := hf.firstColumns_eq
  rw [h.point]
  refine ⟨h.certifies.point_finite.take _, ?_, ?_⟩
  · rw [List.length_take, hlength, hn]
    omega
  · refine hp.fits_congr ?_
      ((hf.feasible_freeMaster_iff hp _).1 (h.feasible hf hp hbound)).1
    intro j hj
    rw [coord_take (hn.symm ▸ hj)]

@[simp] theorem slackAt_zero (y : Nat → Nat → F) : slackAt p m 0 y = 0 :=
  Finset.sum_eq_zero fun _ _ => zero_mul _

/-- The objective of the master solution is a number: its cost. -/
theorem Current.objective (h : s.Current m r x) :
    r.objective = .finite (costAt s.masterCost (coord r.point)) := by
  rw [h.certifies.objective, cost_solvedMaster]

/-- The cost of the master solution: the loss of the candidate and the recourse
variables. -/
theorem Current.cost (h : s.Current m r x) (hf : s.Framed p m.rules.multicut) (hp : p.Proper) :
    costAt s.masterCost (coord r.point) + s.first.constant.value =
      p.firstStage.lossAt (coord x) +
        ∑ g ∈ Finset.range (groupCount m.rules.multicut p.scenarioCount),
          coord r.point (s.firstColumns + g) := by
  have hdecision : costAt s.first.cost (coord r.point) = costAt s.first.cost (coord x) := by
    rw [h.point]
    exact costAt_congr fun j hj => (coord_take hj).symm
  rw [costAt_masterCost, hdecision, hf.groups, ← (hf.loss_first hp (coord x)).2]
  ring

/-- Within the tolerance the loss of the candidate is at most the cost of the master
solution and the slack. -/
theorem Current.loss_le (h : s.Current m r x) (hf : s.Framed p m.rules.multicut) (hp : p.Proper)
    (hs : p.Solvable) {y : Nat → Nat → F} {c : F} (hc : m.rules.cutTolerance = .finite c)
    (hy : s.Respected p m r y) : p.lossAt (coord x) y ≤
      costAt s.masterCost (coord r.point) + s.first.constant.value + slackAt p m c y := by
  have hsum := Finset.sum_le_sum fun g hg => hy c hc g (Finset.mem_range.1 hg)
  rw [Finset.sum_sub_distrib, sum_shareAt] at hsum
  rw [h.cost hf hp, hs.lossAt_eq, slackAt]
  linarith

end Current

end State

end LShaped

end Recourse
