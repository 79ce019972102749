/-
  Solver/Round.lean --- solving every subproblem at one decision.

  A solved subproblem gives its value and a gradient of that value in the
  decision, both in its own sense.  The gradient comes from the duals: a unit
  more of decision `j` changes row `i` by its coefficient, and the value by that
  times the dual of the row.
-/
import Recourse.Program.Scenarios

set_option autoImplicit false

namespace Recourse

/-! ## Gradients -/

/-- Subtract from the entry of a vector at a position. -/
def subtractAt {K : Type} [Scalar K] (g : List K) (j : Nat) (x : K) : Except (Fault K) (List K) :=
  if j < g.length then .ok (g.modify j (· - x)) else .error (.misuse .position)

namespace Model

variable {K : Type} [Scalar K]

/-- Subtract from a vector the duals of the rows times their coefficients of the
decisions. -/
def subtractDuals (m : Model K) (duals : List K) (g : List K) : Except (Fault K) (List K) :=
  m.masterTerms.foldlM
    (fun g t => do
      if g.length ≤ t.2.1 then throw (.misuse .position)
      subtractAt g t.2.1 ((← SolveResult.entry duals t.1.toNat) * t.2.2))
    g

/-- Add the coefficients of the decisions in the objective to a vector.  A single
coefficient counts for every decision. -/
def addDecisionObjective (m : Model K) (g : List K) : Except (Fault K) (List K) :=
  match m.decisionObjective with
  | [] => .ok g
  | [c] => .ok (g.map (· + c))
  | cs => if cs.length = g.length then .ok (List.zipWith (· + ·) g cs) else .error (.misuse .value)

/-- The gradient of the optimal value in the decision. -/
def recourseGradient (m : Model K) (r : SolveResult K) (dims : Nat) :
    Except (Fault K) (List K) := do
  m.subtractDuals r.duals (← m.addDecisionObjective (Scalar.zeros dims))

end Model

/-! ## Rounds -/

/-- A subproblem solved at a decision. -/
structure Outcome (K : Type) where
  /-- Global index of the scenario. -/
  index : Int
  /-- Probability of the scenario. -/
  probability : K
  /-- Value of the subproblem. -/
  objective : K
  /-- Gradient of the value. -/
  gradient : List K
  /-- The result. -/
  result : SolveResult K
  deriving Inhabited

/-- A subproblem that has no optimum at a decision. -/
structure RoundFailure (K : Type) where
  /-- Global index of the scenario. -/
  index : Int
  /-- Probability of the scenario. -/
  probability : K
  /-- How its solve ended. -/
  status : Status
  deriving Inhabited

/-- Every subproblem at one decision. -/
structure Round (K : Type) where
  /-- The decision. -/
  decision : List K
  /-- The subproblems that were solved, in order. -/
  outcomes : List (Outcome K)
  /-- The others, in order. -/
  failures : List (RoundFailure K)
  deriving Inhabited

namespace Round

variable {K : Type}

/-- A round before any subproblem was solved. -/
def announced (decision : List K) : Round K := ⟨decision, [], []⟩

/-- Whether every subproblem was solved. -/
def isComplete (r : Round K) : Bool := r.failures.isEmpty

/-- The expected value of the subproblems. -/
def expectedRecourse [Scalar K] (r : Round K) : K :=
  Scalar.sum (r.outcomes.map fun o => o.probability * o.objective)

/-- The results in global order. -/
def results (r : Round K) : List (SolveResult K) :=
  (Sorting.sorted (fun a b => decide (a.index ≤ b.index)) r.outcomes).map (·.result)

/-- A round from its answers. -/
def ofAnswers (decision : List K) (answers : List (Outcome K ⊕ RoundFailure K)) : Round K :=
  { decision
    outcomes := answers.filterMap Sum.getLeft?
    failures := answers.filterMap Sum.getRight? }

end Round

namespace Program

variable {σ K : Type} [Scalar K] [Host σ K]

/-- Solve the subproblem of a scenario at a decision. -/
def answer (b : Backend σ K) (decision : List K) (index : Int) (s : Scenario K)
    (m : Option (Model K)) : Act σ K (Outcome K ⊕ RoundFailure K) := do
  let m ← match m with
    | some m => pure m
    | none => Act.fail (.misuse .attribute)
  let r ← b.optimize m (some decision)
  if r.status ≠ .optimal then
    return .inr { index, probability := s.probability, status := r.status }
  let gradient ← m.recourseGradient r decision.length
  return .inl { index, probability := s.probability, objective := r.objective, gradient, result := r }

/-- Solve every subproblem at a decision. -/
def solveRound (p : Program σ K) (b : Backend σ K) (decision : List K) : Act σ K (Round K) := do
  let answers ← p.collect true (answer b decision)
  return Round.ofAnswers decision answers

end Program

end Recourse
