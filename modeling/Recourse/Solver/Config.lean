/-
  Solver/Config.lean --- how a structured solver is configured.

  A configuration keeps its options the way they were written.  `Config.make`
  refuses options that do not exist and values outside their range, in the order
  in which the options are listed.
-/
import Recourse.Fault.Message

set_option autoImplicit false

namespace Recourse

/-- Which options a configuration has. -/
inductive ConfigKind where
  /-- Those of every structured solver. -/
  | shared
  /-- Those and the ones of the L-shaped method. -/
  | lshaped
  deriving DecidableEq, Repr, Inhabited

/-- The name of a kind of configuration. -/
def ConfigKind.name : ConfigKind → String
  | .shared => "SolverConfig"
  | .lshaped => "LShapedConfig"

/-- Options of a structured solver. -/
structure Config (K : Type) where
  /-- Which of the options below there are. -/
  kind : ConfigKind
  /-- Most iterations. -/
  maxIterations : Setting K
  /-- Relative gap at which a run stops. -/
  tolerance : Setting K
  /-- Most seconds, or nothing. -/
  timeLimit : Setting K
  /-- Whether to report progress. -/
  verbose : Setting K
  /-- Parameters for the backend. -/
  lpParams : Setting K
  /-- One recourse variable per scenario instead of one altogether. -/
  multicut : Setting K
  /-- Whether infeasible subproblems give cuts instead of ending the run. -/
  feasibilityCuts : Setting K
  /-- Least violation of a new optimality cut. -/
  cutTolerance : Setting K
  /-- Size of the box around the decision while the cuts do not bound it. -/
  masterBound : Setting K
  deriving Inhabited

namespace Config

variable {K : Type}

section Scalar

variable [Scalar K]

/-- A real number as a setting. -/
def real (x : K) : Setting K := .number (.real x)

/-- The options as they are when nothing is said. -/
def default (kind : ConfigKind) : Config K :=
  { kind
    maxIterations := .ofInt 1000
    tolerance := real (Scalar.decimal 1 6)
    timeLimit := .null
    verbose := .flag false
    lpParams := .record []
    multicut := .flag true
    feasibilityCuts := .flag true
    cutTolerance := real (Scalar.decimal 1 9)
    masterBound := real (Scalar.ofInt 1000000) }

end Scalar

/-! ## Options by name -/

/-- The options in order. -/
def entries (c : Config K) : List (String × Setting K) :=
  [("max_iterations", c.maxIterations), ("tolerance", c.tolerance),
    ("time_limit", c.timeLimit), ("verbose", c.verbose), ("lp_params", c.lpParams)] ++
  match c.kind with
  | .shared => []
  | .lshaped =>
      [("multicut", c.multicut), ("feasibility_cuts", c.feasibilityCuts),
        ("cut_tolerance", c.cutTolerance), ("master_bound", c.masterBound)]

/-- Whether there is an option of this name. -/
def has (c : Config K) (key : String) : Bool := (c.entries.map (·.1)).contains key

/-- Write an option. -/
def write (c : Config K) (key : String) (value : Setting K) : Config K :=
  match key with
  | "max_iterations" => { c with maxIterations := value }
  | "tolerance" => { c with tolerance := value }
  | "time_limit" => { c with timeLimit := value }
  | "verbose" => { c with verbose := value }
  | "lp_params" => { c with lpParams := value }
  | "multicut" => { c with multicut := value }
  | "feasibility_cuts" => { c with feasibilityCuts := value }
  | "cut_tolerance" => { c with cutTolerance := value }
  | "master_bound" => { c with masterBound := value }
  | _ => c

/-- Write several options. -/
def writeAll (c : Config K) (options : List (String × Setting K)) : Config K :=
  options.foldl (fun c o => c.write o.1 o.2) c

/-- The names that are no options, sorted and each once. -/
def unknown (c : Config K) (options : List (String × Setting K)) : List String :=
  (((options.map (·.1)).filter (!c.has ·)).eraseDups).mergeSort (fun a b => decide (a ≤ b))

/-! ## Checks -/

variable [Scalar K]

/-- The number of an option that is compared with one. -/
def comparable (s : Setting K) : Except (Fault K) K :=
  match s.number? with
  | some x => .ok x
  | none => .error (.misuse .kind)

/-- Refuse values outside their range. -/
def check (c : Config K) : Except (Fault K) Unit := do
  if Scalar.less (← comparable c.maxIterations) 1 then
    throw (.invalid (.notPositive "max_iterations" c.maxIterations))
  if Scalar.less (← comparable c.tolerance) 0 then
    throw (.invalid (.negative "tolerance" c.tolerance))
  match c.timeLimit with
  | .null => pure ()
  | s =>
      if Scalar.atMost (← comparable s) 0 then throw (.invalid (.notPositive "time_limit" s))
  if c.kind = .lshaped then
    if !Scalar.less 0 (← comparable c.masterBound) then
      throw (.invalid (.notPositive "master_bound" c.masterBound))

/-- A configuration with some options written; a name that is no option is a
misuse. -/
def withOptions (c : Config K) (options : List (String × Setting K)) :
    Except (Fault K) (Config K) := do
  if !(c.unknown options).isEmpty then throw (.misuse .kind)
  let c := c.writeAll options
  c.check
  return c

/-- A configuration from named options; a name that is no option is refused with
its name. -/
def make (kind : ConfigKind) (options : List (String × Setting K)) :
    Except (Fault K) (Config K) := do
  let base : Config K := default kind
  let stray := base.unknown options
  if !stray.isEmpty then throw (.invalid (.unknownOptions kind.name stray))
  base.withOptions options

end Config

/-- A configuration written out. -/
def Config.shown (c : Config Float) : String :=
  c.kind.name ++ "(" ++
    Text.commaSeparated (c.entries.map fun e => e.1 ++ "=" ++ e.2.shown) ++ ")"

end Recourse
