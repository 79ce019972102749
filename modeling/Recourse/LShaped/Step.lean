/-
  LShaped/Step.lean --- the phases of the L-shaped method.

  A run goes round: the master problem gives a candidate, the subproblems are
  solved at it, and what they answer becomes cuts.  A round with infeasible
  subproblems gives feasibility cuts; any other one gives optimality cuts and a
  value for the candidate.  The run has converged when all recourse variables
  are active and either no cut was added or the gap is small enough.
-/
import Recourse.LShaped.State

set_option autoImplicit false

namespace Recourse

/-- The options of the L-shaped method as numbers. -/
structure LShaped.Rules (K : Type) where
  /-- Most iterations. -/
  maxIterations : K
  /-- Gap at which a run has converged. -/
  tolerance : K
  /-- Most seconds. -/
  timeLimit : Option K
  /-- One recourse variable per scenario. -/
  multicut : Bool
  /-- Whether infeasible subproblems give cuts. -/
  feasibilityCuts : Bool
  /-- Least relative violation of a new optimality cut. -/
  cutTolerance : K
  /-- Size of the box around the decision. -/
  masterBound : K

/-- The rules a configuration describes. -/
def Config.rules {K : Type} [Scalar K] (c : Config K) : Except (Fault K) (LShaped.Rules K) := do
  return { maxIterations := ← comparable c.maxIterations
           tolerance := ← comparable c.tolerance
           timeLimit := c.timeLimit.number?
           multicut := c.multicut.holds
           feasibilityCuts := c.feasibilityCuts.holds
           cutTolerance := ← comparable c.cutTolerance
           masterBound := ← comparable c.masterBound }

/-- The L-shaped method with its rules, on a backend. -/
structure LShaped (σ K : Type) where
  /-- Its rules. -/
  rules : LShaped.Rules K
  /-- What solves the subproblems, and lends the master its parameters. -/
  backend : Backend σ K

namespace LShaped

variable {σ K : Type} [Scalar K]

/-- A step of a run. -/
abbrev Run (σ K α : Type) : Type := Change (State K) σ K α

/-- Set up a run. -/
def build [Host σ K] (m : LShaped σ K) : Edit σ K (State K) := do
  let master ← Program.requireSolvable
  let form ← master.standardForm none
  let p ← Change.state
  let started ← Host.clock (σ := σ) (K := K)
  return State.fresh (RunState.fresh p.id master.goal.sign started) form.minimized
    (if m.rules.multicut then p.scenarioCount else 1)

/-- End the run. -/
def finish (status : Status) : Run σ K Phase := do
  Change.update fun s => { s with status }
  return .terminated

/-! ## Master -/

/-- Take over a master solution.  It bounds the optimum from below once every
recourse variable is active, unless it needed the box. -/
def takeMaster (r : SolveResult K) (s : State K) : State K :=
  { s with
    masterSolution := some r
    candidate := some (r.point.take s.firstColumns)
    lowerBound :=
      if s.allActive && !s.boxed then Scalar.larger s.lowerBound (r.objective + s.first.constant)
      else s.lowerBound }

/-- Solve the master problem, in a box if it is unbounded without. -/
def masterSolve [Host σ K] (m : LShaped σ K) : Run σ K Phase := do
  let s ← Change.state
  if Scalar.atMost m.rules.maxIterations (Scalar.ofInt s.iterations) then
    finish .iterationLimit
  else
    Change.update fun s => { s with iterations := s.iterations + 1 }
    let free ← s.freeMaster.solve (σ := σ) m.backend.params
    let boxed := free.status == .unbounded
    Change.update fun s => { s with boxed }
    let r ← if boxed then (s.boxedMaster m.rules.masterBound).solve (σ := σ) m.backend.params
      else pure free
    match r.status with
    | .optimal =>
        Change.update (takeMaster r)
        return .broadcast
    | .infeasible => finish .infeasible
    | .unbounded => finish .unbounded
    | status => Change.fail (.solveFailure status none .master)

/-! ## Round -/

/-- Announce the candidate. -/
def broadcast : Run σ K Phase := do
  Change.update fun s => { s with round := some (Round.announced (s.candidate.getD [])) }
  return .subproblemSolve

/-- Solve every subproblem at the candidate. -/
def subproblemSolve [Host σ K] (m : LShaped σ K) (p : Program σ K) : Run σ K Phase := do
  match (← Change.state).round with
  | none => Change.fail (.misuse .attribute)
  | some announced =>
      let round ← p.solveRound m.backend announced.decision
      Change.update fun s => { s with round := some round }
      return .aggregate

/-! ## Feasibility -/

/-- An infeasible subproblem is violated by more than this. -/
def leastViolation : K := Scalar.decimal 1 9

/-- Turn a failure into a feasibility cut, or into the status the run ends
with. -/
def handleFailure [Host σ K] (m : LShaped σ K) (p : Program σ K) (x : List K)
    (f : RoundFailure K) : Run σ K (Option Status) := do
  let s ← Change.state
  match f.status with
  | .infeasible =>
      if !m.rules.feasibilityCuts then return some .infeasible
      let sub ← p.subproblem (.ofInt f.index)
      let (value, gradient) ← sub.phaseOne (σ := σ) x s.firstColumns m.backend.params
      if Scalar.atMost value leastViolation then
        throw (.solveFailure f.status (some f.index) (.contradiction f.index.toNat value))
      let cut : Cut K :=
        { kind := .feasibility, gradient, value, decision := x, scenarios := [f.index] }
      Change.update (·.addCut cut none)
      return none
  | .unbounded => return some .unbounded
  | status => Change.fail (.solveFailure status (some f.index) .solve)

/-- Handle failures in order, up to the first that ends the run. -/
def handleFailures [Host σ K] (m : LShaped σ K) (p : Program σ K) (x : List K) :
    List (RoundFailure K) → Run σ K Phase
  | [] => return .masterSolve
  | f :: rest => do
      match ← handleFailure m p x f with
      | some status => finish status
      | none => handleFailures m p x rest

/-! ## Optimality -/

/-- The optimality cut of a group of outcomes at a decision. -/
def optimalityCut (sign : K) (x : List K) (outcomes : List (Outcome K)) : Cut K :=
  let gradients := outcomes.map fun o => Scalar.scale o.probability o.gradient
  { kind := .optimality
    gradient := Scalar.scale sign
      (gradients.foldl (List.zipWith (· + ·)) (Scalar.zeros x.length))
    value := sign * Scalar.sum (outcomes.map fun o => o.probability * o.objective)
    decision := x
    scenarios := outcomes.map (·.index) }

/-- Whether a recourse variable already respects a cut, up to a tolerance. -/
def isSatisfied (cutTolerance recourse : K) (cut : Cut K) : Bool :=
  Scalar.atMost (cut.value - recourse) (cutTolerance * (1 + Scalar.abs cut.value))

/-- Add the cut of a group unless its recourse variable is active and respects
it; say whether it was added. -/
def addOptimalityCut (m : LShaped σ K) (x recourse : List K)
    (group : Nat × List (Outcome K)) : Run σ K Bool := do
  let s ← Change.state
  let cut := optimalityCut s.sign x group.2
  let value ← SolveResult.entry recourse group.1
  if s.active.getD group.1 false && isSatisfied m.rules.cutTolerance value cut then
    return false
  Change.update (·.addCut cut (some group.1))
  return true

/-- The outcomes by recourse variable. -/
def groups (multicut : Bool) (outcomes : List (Outcome K)) : List (Nat × List (Outcome K)) :=
  if multicut then outcomes.map fun o => (o.index.toNat, [o]) else [(0, outcomes)]

/-- Add the cuts of several groups and count them. -/
def addOptimalityCuts (m : LShaped σ K) (x recourse : List K) :
    List (Nat × List (Outcome K)) → Run σ K Nat
  | [] => return 0
  | g :: rest => do
      let added ← addOptimalityCut m x recourse g
      let others ← addOptimalityCuts m x recourse rest
      return if added then others + 1 else others

/-- The value of a decision from a complete round at it, in minimization form. -/
def valueOf (s : State K) (r : Round K) : K :=
  Scalar.dot s.first.cost r.decision + s.first.constant + s.sign * r.expectedRecourse

/-- Remember a decision if it is better than every one before. -/
def improve (r : Round K) (master : SolveResult K) (s : State K) : State K :=
  let value := valueOf s r
  if Scalar.less value s.upperBound then
    { s with upperBound := value, incumbent := some ⟨r.decision, r, master⟩ }
  else s

/-- Turn a round into cuts and bounds. -/
def aggregate [Host σ K] (m : LShaped σ K) (p : Program σ K) : Run σ K Phase := do
  let s ← Change.state
  Change.update fun s => { s with round := none }
  match s.round, s.masterSolution with
  | some r, some master =>
      if !r.isComplete then handleFailures m p r.decision r.failures
      else
        Change.update (improve r master)
        let added ← addOptimalityCuts m r.decision (master.point.drop s.firstColumns)
          (groups m.rules.multicut r.outcomes)
        let s ← Change.state
        if s.allActive && (added == 0 || Scalar.atMost s.gap m.rules.tolerance) then
          if s.boxed then finish .unbounded else return .converged
        else return .masterSolve
  | _, _ => Change.fail (.misuse .attribute)

/-! ## Convergence -/

/-- Whether two decisions agree entry by entry. -/
def agree (x y : List K) : Bool := (List.zipWith Scalar.isClose x y).all id

/-- Put the solution together.  The duals are those of the last master solution
where that has the same decision, else of the one the decision came from. -/
def conclude (i : Incumbent K) (latest : SolveResult K) (seconds : K) (s : State K) : State K :=
  let n := s.firstColumns
  let master := if agree (latest.point.take n) i.decision then latest else i.master
  let duals := Scalar.scale s.sign (master.duals.take s.first.rows.length)
  let costs := Scalar.scale s.sign ((master.reducedCosts.getD []).take n)
  let objective := s.sign * s.upperBound
  { s with
    decision := some i.decision
    objective
    secondStage := i.round.results
    duals := some duals
    reducedCosts := some costs
    masterResult := some
      { status := .optimal, objective, point := i.decision, duals, reducedCosts := some costs
        iterations := s.iterations, seconds, gap := s.gap } }

/-- Put the solution together and end the run. -/
def converge [Host σ K] : Run σ K Phase := do
  let s ← Change.state
  match s.incumbent, s.masterSolution with
  | some i, some latest =>
      let now ← Host.clock (σ := σ) (K := K)
      Change.update (conclude i latest (now - s.started))
      finish .optimal
  | _, _ => Change.fail (.misuse .kind)

/-! ## Steps -/

/-- Whether the time is up. -/
def outOfTime [Host σ K] (m : LShaped σ K) : Run σ K Bool := do
  match m.rules.timeLimit with
  | none => return false
  | some limit =>
      let now ← Host.clock (σ := σ) (K := K)
      return Scalar.less limit (now - (← Change.state).started)

/-- Run a phase and name the next one. -/
def runPhase [Host σ K] (m : LShaped σ K) (p : Program σ K) : Phase → Run σ K Phase
  | .init => do
      Change.update fun s =>
        { s with lowerBound := Scalar.negInfinity, upperBound := Scalar.infinity }
      return .masterSolve
  | .masterSolve => masterSolve m
  | .broadcast => broadcast
  | .subproblemSolve => subproblemSolve m p
  | .aggregate => aggregate m p
  | .converged => converge
  | .terminated => Change.fail (.misuse .key)

/-- One step: end a run that was cancelled or is out of time, else run the
current phase. -/
def step [Host σ K] (m : LShaped σ K) (p : Program σ K) : Run σ K Phase := do
  let s ← Change.state
  if s.isDone then return s.phase
  let next ←
    if s.cancelled then do
      Change.update fun s => { s with round := none }
      finish .iterationLimit
    else do
      if ← outOfTime m then finish .timeLimit else runPhase m p s.phase
  Change.update fun s => { s with phase := next }
  return next

/-- More steps than a run can take: each iteration has four. -/
def stepLimit (r : Rules K) : Nat :=
  match Scalar.truncate r.maxIterations with
  | some n => 4 * (n.toNat + 1) + 4
  | none => Nat.pow 2 62

/-- Step until the run ends. -/
def runSteps [Host σ K] (m : LShaped σ K) (p : Program σ K) : Nat → Run σ K Unit
  | 0 => return ()
  | n + 1 => do
      if (← Change.state).isDone then return
      let _ ← step m p
      runSteps m p n

/-- Run to the end. -/
def run [Host σ K] (m : LShaped σ K) (p : Program σ K) : Run σ K Status := do
  runSteps m p (stepLimit m.rules)
  return (← Change.state).status

end LShaped

end Recourse
