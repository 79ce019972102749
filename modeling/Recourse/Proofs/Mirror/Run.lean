/-
  Proofs/Mirror/Run.lean --- solving a program with its sense turned.

  A solver that is built on the image of a program, run and committed does to it what it
  does to the program: the runs stay images of each other, and so do the programs with
  their solutions installed.  Solving both from the same ledger leaves the same ledger, so
  the host was asked the same in the same order.
-/
import Recourse.Proofs.Mirror.LShaped
import Recourse.Solver.Run

set_option autoImplicit false
set_option linter.unusedSectionVars false

namespace Recourse

variable {σ K : Type} [Scalar K]

/-- A run with what it keeps in the sense of the program exchanged with its opposite. -/
def SolverRun.mirror : SolverRun K → SolverRun K
  | .extensive s => .extensive s.mirror
  | .lshaped s => .lshaped s.mirror

theorem SolverRun.common_mirror (r : SolverRun K) : r.mirror.common = r.common.mirror := by
  cases r <;> rfl

/-! ## Installing solutions -/

namespace Program

theorem loadSlots_mirror (slots : List (Slot K)) (results : List (SolveResult K)) :
    loadSlots (slots.map Slot.mirror) (results.map SolveResult.mirror) =
      ((loadSlots slots results).1.map Slot.mirror,
        (loadSlots slots results).2.map SolveResult.mirror) := by
  induction slots generalizing results with
  | nil => rfl
  | cons s slots ih =>
    cases results with
    | nil => rfl
    | cons r results =>
      have hbuilt : (s.mirror.built.map fun b => (b.1.load r.mirror, b.2)) =
          (s.built.map fun b => (b.1.load r, b.2)).map fun b => (b.1.mirror, b.2) := by
        show (s.built.map _).map _ = _
        rw [Option.map_map, Option.map_map]
        rfl
      rw [List.map_cons, List.map_cons, loadSlots, loadSlots, ih, hbuilt]
      rfl

theorem loadPartitions_mirror (partitions : List (Partition K)) (results : List (SolveResult K)) :
    loadPartitions (partitions.map Partition.mirror) (results.map SolveResult.mirror) =
      (loadPartitions partitions results).map Partition.mirror := by
  induction partitions generalizing results with
  | nil => rfl
  | cons q partitions ih =>
    rw [List.map_cons, loadPartitions, loadPartitions]
    show Partition.mk q.owner (loadSlots (q.slots.map Slot.mirror) _).1 ::
      loadPartitions _ (loadSlots (q.slots.map Slot.mirror) _).2 = _
    rw [loadSlots_mirror, ih]
    rfl

theorem checkResults_mirror (i : Nat) (models : List (Model K)) (results : List (SolveResult K)) :
    checkResults i (models.map Model.mirror) (results.map SolveResult.mirror) =
      checkResults i models results := by
  induction models generalizing i results with
  | nil => rfl
  | cons m models ih =>
    cases results with
    | nil => rfl
    | cons r results =>
      rw [List.map_cons, List.map_cons, checkResults, checkResults, ih]
      rfl

/-- The opposite solution is installed in the image. -/
theorem commit_even (s : Solution K) (second : List (SolveResult K))
    (master : Option (SolveResult K)) : Even (σ := σ) (commit s second master)
      (commit s.mirror (second.map SolveResult.mirror) (master.map SolveResult.mirror)) := by
  unfold commit
  refine Change.alike_bind_map Change.alike_state fun p => ?_
  rw [show p.mirror.decisionCount = p.decisionCount from rfl, scenarioCount_mirror,
    List.length_map]
  refine Change.alike_bind_map (Change.alike_lift (.refl _)) fun n => ?_
  rw [show s.mirror.decision = s.decision from rfl]
  dsimp only
  split
  · exact Change.alike_fail (.refl _)
  · split
    · exact Change.alike_fail (.refl _)
    · refine Change.alike_bind_map (Change.alike_lift (.of_eq p.subproblems_mirror))
        fun models => ?_
      rw [checkResults_mirror]
      refine Change.alike_bind_map (Change.alike_lift (.refl _)) fun _ => ?_
      refine Change.alike_update fun q => ?_
      rw [show q.mirror.partitions = q.partitions.map Partition.mirror from rfl,
        loadPartitions_mirror]
      cases master with
      | none => rfl
      | some r =>
        have hmaster : q.mirror.master.map (fun m => (m.1.load r.mirror, m.2)) =
            (q.master.map fun m => (m.1.load r, m.2)).map fun m => (m.1.mirror, m.2) := by
          show (q.master.map _).map _ = _
          rw [Option.map_map, Option.map_map]
          rfl
        dsimp only [Option.map_some]
        rw [hmaster]
        rfl

theorem commitRun_even [Scalar.Symmetric K] (solver : String) (r : RunState K) :
    Even (σ := σ) (commitRun solver r) (commitRun solver r.mirror) := by
  unfold commitRun
  refine Change.alike_bind_map Change.alike_state fun p => ?_
  rw [show r.mirror.programId = r.programId from rfl, show p.mirror.id = p.id from rfl]
  dsimp only
  split
  · exact Change.alike_fail (.refl _)
  · rw [show r.mirror.status = r.status from rfl, show r.mirror.decision = r.decision from rfl]
    split
    · rename_i decision _ _
      have hcosts : r.mirror.reducedCosts.getD (Scalar.zeros decision.length) =
          Scalar.negated (r.reducedCosts.getD (Scalar.zeros decision.length)) := by
        show (r.reducedCosts.map Scalar.negated).getD _ = _
        cases r.reducedCosts with
        | none => exact (Scalar.negated_zeros _).symm
        | some d => rfl
      rw [hcosts, show r.mirror.duals.getD [] = Scalar.negated (r.duals.getD []) from
        ExtensiveState.getD_map_negated r.duals]
      exact commit_even _ _ _
    · exact Change.alike_fail (.refl _)

end Program

/-! ## Building and running -/

variable [Scalar.Symmetric K] [Host σ K]

namespace StructuredSolver

theorem build_alike (s : StructuredSolver σ K) :
    s.build.Alike Program.mirror s.build fun r r' => r' = r.mirror := by
  unfold build
  cases s.method with
  | extensive =>
    refine Change.alike_bind_map ExtensiveState.build_alike fun e => ?_
    exact Change.alike_pure rfl
  | lshaped =>
    refine Change.alike_bind_map (Change.alike_lift (.refl _)) fun m => ?_
    refine Change.alike_bind_map (LShaped.build_alike m) fun l => ?_
    exact Change.alike_pure rfl

/-- Every solver that can be made has a backend that treats both senses alike. -/
theorem even_of_make {method : Method} {given : GivenConfig K}
    {options : List (String × Setting K)} {s : StructuredSolver σ K}
    (h : make method given options = .ok s) : s.backend.Even := by
  unfold make at h
  obtain ⟨config, -, h⟩ := bind_eq_ok_iff.1 h
  obtain ⟨b, hbackend, h⟩ := bind_eq_ok_iff.1 h
  obtain rfl := Except.ok.inj h
  exact Backend.even_of_ofParams hbackend

theorem backend_of_lshaped {s : StructuredSolver σ K} {m : LShaped σ K} (h : s.lshaped = .ok m) :
    m.backend = s.backend := by
  unfold StructuredSolver.lshaped at h
  obtain ⟨rules, -, h⟩ := bind_eq_ok_iff.1 h
  exact (congrArg LShaped.backend (Except.ok.inj h)).symm

/-- A run and its image end alike, whatever the method. -/
theorem run_alike {s : StructuredSolver σ K} (hs : s.backend.Even) (p : Program σ K) :
    (s.run p).Alike SolverRun.mirror (s.run p.mirror) fun a b => b = a := by
  intro r ledger
  cases r with
  | extensive e =>
    obtain ⟨hresult, hstate⟩ := ExtensiveState.run_alike s.config hs p e ledger
    rw [SolverRun.mirror, run_extensive, run_extensive, hstate]
    exact ⟨hresult, rfl⟩
  | lshaped l =>
    rw [SolverRun.mirror]
    cases hm : s.lshaped with
    | error f =>
      rw [run_refused hm, run_refused hm]
      exact ⟨Fault.Alike.refl f, rfl⟩
    | ok m =>
      obtain ⟨hresult, hstate⟩ :=
        LShaped.run_even (backend_of_lshaped hm ▸ hs : m.backend.Even) p l ledger
      rw [run_lshaped hm, run_lshaped hm, hstate]
      exact ⟨hresult, rfl⟩

end StructuredSolver

/-- Solving a program and its image gives the same status, and leaves a program and its
image. -/
theorem Program.optimize_even {s : StructuredSolver σ K} (hs : s.backend.Even) :
    Even (optimize (some (.structured s))) (optimize (some (.structured s))) := by
  unfold optimize
  refine Change.alike_bind_map Change.alike_state fun p => ?_
  refine Change.alike_bind_map generate_even fun _ => ?_
  refine Change.alike_bind_map (validate_even none) fun _ => ?_
  refine Change.alike_bind_map s.build_alike fun r => ?_
  refine Change.alike_bind_map Change.alike_state fun q => ?_
  refine Change.alike_bind (Change.alike_ofAct (Change.alike_apply (s.run_alike hs q) r)) ?_
  rintro ⟨status, r⟩ ⟨status', r'⟩ ⟨hstatus, hrun⟩
  obtain rfl : status' = status := hstatus
  obtain rfl : r' = r.mirror := hrun
  dsimp only
  split
  · unfold StructuredSolver.commit
    rw [SolverRun.common_mirror]
    refine Change.alike_bind_map (commitRun_even s.label r.common) fun _ => ?_
    exact Change.alike_pure rfl
  · exact Change.alike_pure rfl

end Recourse
