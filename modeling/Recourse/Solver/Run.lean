/-
  Solver/Run.lean --- running a structured solver on a program.

  A run is built from a program, taken to its end, and committed.  Building and
  running leave the program alone.
-/
import Recourse.LShaped.Step
import Recourse.Program.Commit
import Recourse.Solver.Extensive

set_option autoImplicit false

namespace Recourse

/-- The state of a run by method. -/
inductive SolverRun (K : Type) where
  /-- On the deterministic equivalent. -/
  | extensive (s : ExtensiveState K)
  /-- Of the L-shaped method. -/
  | lshaped (s : LShaped.State K)

namespace SolverRun

variable {K : Type}

/-- The part that does not depend on the method. -/
def common : SolverRun K → RunState K
  | .extensive s => s.toRunState
  | .lshaped s => s.toRunState

/-- Ask a run to stop at its next step. -/
def cancel : SolverRun K → SolverRun K
  | .extensive s => .extensive { s with cancelled := true }
  | .lshaped s => .lshaped { s with cancelled := true }

end SolverRun

namespace StructuredSolver

variable {σ K : Type} [Scalar K] [Host σ K]

/-- The L-shaped method as a solver is configured. -/
def lshaped (s : StructuredSolver σ K) : Except (Fault K) (LShaped σ K) := do
  return { rules := ← s.config.rules, backend := s.backend }

/-- Set up a run. -/
def build (s : StructuredSolver σ K) : Edit σ K (SolverRun K) := do
  match s.method with
  | .extensive => return .extensive (← ExtensiveState.build)
  | .lshaped => return .lshaped (← (← s.lshaped).build)

/-- Take a run to its end. -/
def run (s : StructuredSolver σ K) (p : Program σ K) : Change (SolverRun K) σ K Status :=
  ExceptT.mk fun (r, ledger) =>
    match r with
    | .extensive e =>
        let ((status, e), ledger) := (ExtensiveState.run s.config s.backend p).runOn e ledger
        (status, .extensive e, ledger)
    | .lshaped l =>
        match s.lshaped with
        | .error f => (.error f, .lshaped l, ledger)
        | .ok m =>
            let ((status, l), ledger) := (m.run p).runOn l ledger
            (status, .lshaped l, ledger)

theorem run_extensive (s : StructuredSolver σ K) (p : Program σ K) (e : ExtensiveState K)
    (ledger : Ledger σ K) : (s.run p).run.run (.extensive e, ledger) =
      (((ExtensiveState.run s.config s.backend p).run.run (e, ledger)).1,
        .extensive ((ExtensiveState.run s.config s.backend p).run.run (e, ledger)).2.1,
        ((ExtensiveState.run s.config s.backend p).run.run (e, ledger)).2.2) := rfl

theorem run_lshaped {s : StructuredSolver σ K} {m : LShaped σ K} (hm : s.lshaped = .ok m)
    (p : Program σ K) (l : LShaped.State K) (ledger : Ledger σ K) :
    (s.run p).run.run (.lshaped l, ledger) = (((m.run p).run.run (l, ledger)).1,
      .lshaped ((m.run p).run.run (l, ledger)).2.1, ((m.run p).run.run (l, ledger)).2.2) := by
  unfold run
  rw [hm]
  rfl

theorem run_refused {s : StructuredSolver σ K} {f : Fault K} (hm : s.lshaped = .error f)
    (p : Program σ K) (l : LShaped.State K) (ledger : Ledger σ K) :
    (s.run p).run.run (.lshaped l, ledger) = (.error f, .lshaped l, ledger) := by
  unfold run
  rw [hm]
  rfl

/-- Install what a run found. -/
def commit (s : StructuredSolver σ K) (r : SolverRun K) : Edit σ K Unit :=
  Program.commitRun s.label r.common

end StructuredSolver

namespace Program

variable {σ K : Type} [Scalar K] [Host σ K]

/-- The solver to use: the one named, else that of the program, else the standard
one. -/
def solverFor (p : Program σ K) (solver : Option (Solver σ K)) : Solver σ K :=
  (solver.or p.solver).getD (.structured StructuredSolver.standard)

/-- Build and solve a program, and commit the solution if it is optimal. -/
def optimize (solver : Option (Solver σ K)) : Edit σ K Status := do
  let solver := (← Change.state).solverFor solver
  generate
  validate none
  match solver with
  | .linear _ => throw (.misuse .attribute)
  | .structured s =>
      let r ← s.build
      let (status, r) ← (s.run (← Change.state)).apply r
      if status = .optimal then s.commit r
      return status

end Program

end Recourse
