/-
  Solver/Basic.lean --- solvers by method, configuration and backend.
-/
import Recourse.Solver.Backend
import Recourse.Solver.Config
import Recourse.Table

set_option autoImplicit false

namespace Recourse

/-- How a program with scenarios is solved. -/
inductive Method where
  /-- As one linear program. -/
  | extensive
  /-- By cuts from the subproblems. -/
  | lshaped
  deriving DecidableEq, Repr, Inhabited

namespace Method

/-- The name of a method. -/
def name : Method → String
  | .extensive => "Extensive form"
  | .lshaped => "L-shaped"

/-- The name of a solver with this method. -/
def solverName : Method → String
  | .extensive => "ExtensiveFormSolver"
  | .lshaped => "LShapedSolver"

/-- The options a method is configured with. -/
def configKind : Method → ConfigKind
  | .extensive => .shared
  | .lshaped => .lshaped

/-- Whether a method takes a configuration of some kind. -/
def takes : Method → ConfigKind → Bool
  | .extensive, _ => true
  | .lshaped, kind => kind == .lshaped

end Method

/-- A configuration as it is handed to a solver. -/
inductive GivenConfig (K : Type) where
  /-- Named options, or nothing. -/
  | options (s : Setting K)
  /-- A configuration. -/
  | config (c : Config K)

/-- A solver for programs with scenarios. -/
structure StructuredSolver (σ K : Type) where
  /-- Its method. -/
  method : Method
  /-- Its configuration. -/
  config : Config K
  /-- Its backend. -/
  backend : Backend σ K

namespace StructuredSolver

variable {σ K : Type} [Scalar K]

/-- The configuration of a solver: named options go over those given, and a
configuration has to be of the right kind. -/
def readConfig (method : Method) (given : GivenConfig K) (options : List (String × Setting K)) :
    Except (Fault K) (Config K) :=
  match given with
  | .options .null => Config.make method.configKind options
  | .options (.record fields) => Config.make method.configKind (Table.merge fields options)
  | .options s =>
      .error (.invalid (.wrongConfig method.solverName method.configKind.name s.typeName))
  | .config c =>
      if !method.takes c.kind then
        .error (.invalid (.wrongConfig method.solverName method.configKind.name c.kind.name))
      else if options.isEmpty then .ok c
      else c.withOptions options

/-- A solver with a method. -/
def make (method : Method) (given : GivenConfig K) (options : List (String × Setting K)) :
    Except (Fault K) (StructuredSolver σ K) := do
  let config ← readConfig method given options
  return { method, config, backend := ← Backend.ofParams config.lpParams }

/-- The solver of a program that names none. -/
def standard : StructuredSolver σ K :=
  { method := .extensive, config := Config.default .shared, backend := Backend.plain }

/-- The line that names a solver. -/
def label (s : StructuredSolver σ K) : String :=
  s.method.name ++ " (" ++ Backend.engine ++ ")"

end StructuredSolver

/-- A solver written out. -/
def StructuredSolver.shown {σ : Type} (s : StructuredSolver σ Float) : String :=
  s.method.solverName ++ "(" ++ s.config.shown ++ ")"

/-- What a program can be handed as its solver. -/
inductive Solver (σ K : Type) where
  /-- A backend, which solves single models only. -/
  | linear (b : Backend σ K)
  /-- A solver for programs. -/
  | structured (s : StructuredSolver σ K)

end Recourse
