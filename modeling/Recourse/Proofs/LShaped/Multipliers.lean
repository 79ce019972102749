/-
  Proofs/LShaped/Multipliers.lean --- the duals and reduced costs of a run.

  The master problem at which a run converges without tolerances has the optimum of the
  program as its own.  Its rows and columns behind the first stage only keep the recourse
  variables above what recourse costs, so the prices that its optimum has for the first
  stage are those of some optimum of the deterministic equivalent
  (`Closes.optimalMultipliers`).  A run publishes them where the last candidate is the
  decision of the incumbent.  Elsewhere it publishes those of the master problem which the
  incumbent came from, and nothing makes these optimal.
-/
import Recourse.Proofs.LShaped.Verdict
import Recourse.Proofs.Solver.Multipliers

set_option autoImplicit false
set_option linter.unusedSectionVars false

open scoped BigOperators

namespace Recourse

variable {F : Type} [Field F] [LinearOrder F] [IsStrictOrderedRing F] [FloorRing F] {σ : Type}

namespace LShaped

variable {s : State (Exact F)} {p : Program σ (Exact F)} {m : LShaped σ (Exact F)}

namespace State

section Prices

variable {multicut : Bool} {y d : List (Exact F)}

/-- The master problem begins with the first stage. -/
theorem Framed.freeMaster_extends (h : s.Framed p multicut) (hp : p.Proper) :
    s.freeMaster.Extends p.firstProgram := by
  have hrows : p.firstProgram.rows = s.first.rows := by
    rw [h.first]
    rfl
  have hlower : p.firstProgram.lower = s.first.lower := by
    rw [h.first]
    rfl
  have hupper : p.firstProgram.upper = s.first.upper := by
    rw [h.first]
    rfl
  refine (h.master_hasRelations _ _).extends (Model.formAt_hasRelations p.firstStage [])
    (h.isKnown hp) ?_ ?_ ?_ ?_ ?_ ?_
  · show (s.first.rows ++ _).take p.firstProgram.rows.length = p.firstProgram.rows
    rw [hrows, List.take_left]
  · rw [p.length_rows_firstProgram, h.relations_eq, List.take_left' (List.length_map _)]
  · rw [p.length_rows_firstProgram, h.rightHandSide_eq, List.take_left' (List.length_map _)]
  · show p.firstProgram.cost.length ≤ s.masterCost.length
    rw [p.length_cost_firstProgram, h.length_masterCost]
    exact Nat.le_add_right _ _
  · show (s.first.lower ++ _).take p.firstProgram.cost.length = p.firstProgram.lower
    rw [p.length_cost_firstProgram, hlower, List.take_left' h.length_bounds.1]
  · show (s.first.upper ++ _).take p.firstProgram.cost.length = p.firstProgram.upper
    rw [p.length_cost_firstProgram, hupper, List.take_left' h.length_bounds.2]

/-- Behind the first stage it is about the recourse variables. -/
theorem Framed.holdsBehind (h : s.Framed p multicut) (hp : p.Proper) {v : Nat → F}
    (hv : s.RecourseHolds v) : s.freeMaster.HoldsBehind p.firstStage.rows.length
      p.firstStage.columns.length v := by
  constructor
  · intro i hi hle
    obtain ⟨k, rfl⟩ := Nat.exists_eq_add_of_le hle
    have hk : k < s.cuts.length := by
      simp only [freeMaster, master, List.length_append, List.length_map, h.length_rows] at hi
      omega
    rw [← h.length_rows]
    exact (h.rowHolds_cut _ _ hp hk v).2 (hv.cuts _ (List.getElem_mem hk))
  · intro j hj hle
    obtain ⟨g, rfl⟩ := Nat.exists_eq_add_of_le hle
    have hg : g < s.active.length := by
      have hlength : p.firstStage.columns.length + g < s.masterCost.length := hj
      rw [h.length_masterCost] at hlength
      omega
    refine (h.columnHolds_recourse h.length_bounds.1 h.length_bounds.2 hg v).2 ?_
    rw [← h.firstColumns_eq]
    exact hv.inactive g hg

/-- What prices for the first stage leave of the cost of the point of a decision and its
recourse. -/
theorem Framed.residual_masterPoint (h : s.Framed p multicut) (hp : p.Proper) (hs : p.Solvable)
    (hactive : s.allActive = true) (hy : y.length = p.firstStage.rows.length)
    (hd : d.length = p.firstStage.columns.length) (x : Nat → F) (z : Nat → Nat → F) :
    s.freeMaster.residual y d (s.masterPoint p multicut x z) =
      p.residualAt y d x z - s.first.constant.value := by
  have hcost := h.costAt_masterPoint hp hs hactive x z
  have hcharge : p.firstProgram.charge y d (s.masterPoint p multicut x z) =
      p.firstProgram.charge y d x :=
    LinearProgram.charge_congr (Program.firstProgram_within hp) (by simp [hd]) fun j hj =>
      masterPoint_decision x z (h.firstColumns_eq.symm ▸ p.length_cost_firstProgram ▸ hj)
  rw [LinearProgram.residual, (h.freeMaster_extends hp).charge_eq (by simp [hy]), hcharge,
    Program.residualAt, ← hcost]
  show costAt s.masterCost _ - _ = _
  ring

end Prices

/-- The multipliers of a master problem whose optimum is that of the program. -/
theorem Closes.optimalMultipliers {r : SolveResult (Exact F)} {u : F} (h : s.Closes p m r u)
    (hp : p.Proper) (hs : p.Solvable) {x : Nat → F} {z : Nat → Nat → F} (hxz : p.Feasible x z)
    (hu : p.lossAt x z = u) : p.OptimalMultipliers (s.firstDuals r) (s.firstCosts r) := by
  have hf := h.framed
  have hrows : p.firstStage.rows.length ≤ s.freeMaster.rows.length := by
    show _ ≤ (s.first.rows ++ _).length
    rw [List.length_append, hf.length_rows]
    exact Nat.le_add_right _ _
  have hcolumns : p.firstStage.columns.length ≤ s.freeMaster.cost.length := by
    show _ ≤ s.masterCost.length
    rw [hf.length_masterCost]
    exact Nat.le_add_right _ _
  have hduals : (r.duals.take p.firstStage.rows.length).length = p.firstStage.rows.length := by
    rw [List.length_take, h.certifies.duals_length, min_eq_left hrows]
  have hcosts : (r.costs.take p.firstStage.columns.length).length =
      p.firstStage.columns.length := by
    rw [List.length_take, h.certifies.costs_length, min_eq_left hcolumns]
  -- The plan is a point of the master problem that costs no more than its optimum.
  have hpoint := hf.masterPoint_feasible hp hxz
  have hcost : costAt s.masterCost (s.masterPoint p m.rules.multicut x z) ≤
      costAt s.masterCost (coord r.point) := by
    have hplan := hf.costAt_masterPoint hp hs h.active x z
    have hreached := h.reached
    linarith
  have hcharges : p.firstProgram.ChargesAhead (r.duals.take p.firstStage.rows.length)
      (r.costs.take p.firstStage.columns.length) x :=
    (((hf.freeMaster_extends hp).chargesAhead_iff (by simp [hduals]) (by simp [hcosts]) _).1
      (h.certifies.chargesAhead hpoint hcost hrows hcolumns)).congr
        (Program.firstProgram_within hp) fun j hj =>
          masterPoint_decision x z (hf.firstColumns_eq.symm ▸ p.length_cost_firstProgram ▸ hj)
  rw [firstDuals, firstCosts, hf.sign, hf.length_rows, hf.firstColumns_eq]
  refine Program.optimalMultipliers_of_least hp hduals hcosts hxz hcharges fun x' z' hz' => ?_
  have hle := h.certifies.residual_le hpoint hcost hrows hcolumns
    (hf.holdsBehind hp (hf.recourseHolds_masterPoint hz'))
  rw [hf.residual_masterPoint hp hs h.active hduals hcosts,
    hf.residual_masterPoint hp hs h.active hduals hcosts] at hle
  exact (sub_le_sub_iff_right _).1 hle

/-- All states of a program read the same multipliers off a master solution. -/
theorem Framed.multipliers_congr {s' : State (Exact F)} {multicut : Bool}
    (h : s.Framed p multicut) (h' : s'.Framed p multicut) (r : SolveResult (Exact F)) :
    s.firstDuals r = s'.firstDuals r ∧ s.firstCosts r = s'.firstCosts r := by
  rw [firstDuals, firstDuals, firstCosts, firstCosts, h.sign, h'.sign, h.length_rows,
    h'.length_rows, h.firstColumns_eq, h'.firstColumns_eq]
  exact ⟨rfl, rfl⟩

end State

section Runs

variable [Host σ (Exact F)]

/-- The multipliers of an optimal verdict without tolerances.  Those of the last master
solution are multipliers of the deterministic equivalent, and they are published where its
decision is that of the incumbent.  Elsewhere those of the master solution which the
incumbent came from are published. -/
theorem Reachable.optimal_multipliers (host : Host.Sound σ F) (hb : m.backend.Faithful)
    (hm : m.Configured) (hp : p.Proper) (h : Reachable m p s) (hstatus : s.status = .optimal)
    (ht : m.rules.tolerance = .finite 0) (hc : m.rules.cutTolerance = .finite 0) :
    ∃ (latest : SolveResult (Exact F)) (i : Incumbent (Exact F)),
      s.masterSolution = some latest ∧ s.incumbent = some i ∧ s.decision = some i.decision ∧
      p.OptimalMultipliers (s.firstDuals latest) (s.firstCosts latest) ∧
      (agree (latest.point.take s.firstColumns) i.decision = true →
        s.duals = some (s.firstDuals latest) ∧ s.reducedCosts = some (s.firstCosts latest)) ∧
      (agree (latest.point.take s.firstColumns) i.decision = false →
        s.duals = some (s.firstDuals i.master) ∧
          s.reducedCosts = some (s.firstCosts i.master)) := by
  have hinvariant := h.invariant host hb hp hm.masterBound
  have hs := h.solvable hp
  have houtcome := hinvariant.outcome
  rw [State.OutcomeHolds, hstatus] at houtcome
  obtain ⟨⟨u, i, last, y, hu, hi, hnearly⟩, hincumbent, -⟩ := houtcome
  obtain ⟨hdecision, -, hpublished⟩ := hincumbent i hi
  obtain ⟨s', latest, hlatest, hclosed⟩ := hnearly.closed ht hc
  obtain ⟨hduals, hcosts⟩ := hinvariant.multipliers_congr hclosed.framed latest
  have hevaluated := hinvariant.toCore.evaluated hu hi
  obtain ⟨z, hz, hloss⟩ := hevaluated.value
  refine ⟨latest, i, hlatest, hi, hdecision, ?_, fun hagree => ?_, fun hagree => ?_⟩
  · rw [hduals, hcosts]
    exact hclosed.optimalMultipliers hp hs ⟨hevaluated.fits, fun k hk => (hz k hk).1⟩ hloss.symm
  · have h := hpublished latest hlatest
    rwa [Incumbent.publisher, hagree, if_pos rfl] at h
  · have h := hpublished latest hlatest
    rwa [Incumbent.publisher, hagree, if_neg Bool.false_ne_true] at h

/-- The run on the stock ends at its last candidate. -/
theorem stock_optimal_multipliers : ∃ (s : State (Exact ℚ)) (duals costs : List (Exact ℚ)),
    Reachable exactMethod stockProgram s ∧ s.duals = some duals ∧ s.reducedCosts = some costs ∧
      stockProgram.OptimalMultipliers duals costs := by
  obtain ⟨s, hs, hstate⟩ := exists_reachable exactMethod stockProgram ⟨stockTranscript, [], 0⟩ 20
    (fun s => s.status == .optimal && (s.masterSolution.any fun latest => s.incumbent.any fun i =>
      agree (latest.point.take s.firstColumns) i.decision)) (by decide +kernel)
  simp only [Bool.and_eq_true, beq_iff_eq] at hstate
  obtain ⟨latest, i, hlatest, hi, -, hmultipliers, hagree, -⟩ :=
    Reachable.optimal_multipliers Transcript.sound Backend.plain_faithful exactMethod_configured
      stockProgram_proper hs hstate.1 rfl rfl
  have hsame := hstate.2
  rw [hlatest, hi, Option.any_some, Option.any_some] at hsame
  exact ⟨s, _, _, hs, (hagree hsame).1, (hagree hsame).2, hmultipliers⟩

/-- Something is paid now, or owed with the sign turned. -/
def payment : Model (Exact ℚ) :=
  { (Model.empty "payment" : Model (Exact ℚ)) with
    columns := [⟨0, .minusInfinity, .plusInfinity, some "x", none⟩]
    objective? := some ⟨[(0, 1)], 0, []⟩ }

/-- What was not paid is paid later. -/
def balance : Model (Exact ℚ) :=
  { (Model.empty "balance" : Model (Exact ℚ)) with
    columns := [⟨0, .minusInfinity, .plusInfinity, some "x", some 0⟩,
      ⟨1, .minusInfinity, .plusInfinity, some "y", none⟩]
    rows := [⟨⟨[(0, 1), (1, 1)], 0, []⟩, .atLeast, 0, none, 0, 0⟩]
    objective? := some ⟨[(1, 1)], 0, []⟩ }

/-- A payment whose size does not matter. -/
def paymentProgram : Program (Transcript ℚ) (Exact ℚ) := .ofModels payment [(1, balance)]

/-- A first round at the edge of the box, and a second one without it. -/
def paymentTranscript : Transcript ℚ where
  findings :=
    [.unbounded [0, 0] [-1, 0],
      .optimal ⟨[-1, 0], -1, [], [], [1, 1], [0, 0], 0⟩,
      .optimal ⟨[-1, 1], 1, [-1], [], [0, 0], [-1, 0], 0⟩,
      .optimal ⟨[0, 0], 0, [-1], [], [0, 0], [0, 0], 0⟩,
      .optimal ⟨[0, 0], 0, [-1], [], [0, 0], [-1, 0], 0⟩]

theorem paymentProgram_proper : paymentProgram.Proper := by decide +kernel

/-- The run on the payment keeps the decision at the edge of the box and publishes the
reduced cost that it has there; the column is free, and no optimum has one. -/
theorem payment_multipliers_stale : boxedMethod.Configured ∧ paymentProgram.Proper ∧
    boxedMethod.rules.tolerance = 0 ∧ boxedMethod.rules.cutTolerance = 0 ∧
    ∃ s : State (Exact ℚ), Reachable boxedMethod paymentProgram s ∧ s.status = .optimal ∧
      s.reducedCosts = some [1] ∧
        ∀ duals costs, paymentProgram.OptimalMultipliers duals costs → costs ≠ [1] := by
  obtain ⟨s, hs, hstate⟩ := exists_reachable boxedMethod paymentProgram
    ⟨paymentTranscript, [], 0⟩ 20 (fun s => s.status == .optimal && s.reducedCosts == some [1])
    (by decide +kernel)
  simp only [Bool.and_eq_true, beq_iff_eq] at hstate
  refine ⟨boxedMethod_configured, paymentProgram_proper, rfl, rfl, s, hs, hstate.1, hstate.2,
    fun duals costs h hcosts => ?_⟩
  have hzero := h.coord_eq_zero_of_free paymentProgram_proper (j := 0) Nat.zero_lt_one rfl rfl
  rw [hcosts] at hzero
  exact one_ne_zero hzero

end Runs

end LShaped

end Recourse
