/-
  Proofs/Layout/Independence.lean --- the layout of a program does not matter.

  How the scenarios of a program are spread over workers is a matter of where work is done.
  Spreading them anew keeps everything that is read from a program, and what is computed
  from it depends on the slots in global order alone: results and refusals, the program
  afterwards, and what was asked of the environment.  Only a refusal in the midst of parallel
  work leaves its traces there, for the partitions behind the one that failed are worked on
  all the same.
-/
import Recourse.Proofs.Layout.Solvers
import Recourse.Proofs.Mirror.Symmetry

set_option autoImplicit false
set_option linter.unusedSectionVars false

namespace Recourse

variable {F : Type} [Field F] [LinearOrder F] [IsStrictOrderedRing F] [FloorRing F] {σ : Type}
  [Host σ (Exact F)] {strict : Prop} {t : Transport} {p q : Program σ (Exact F)}

namespace Program

/-! ## Values -/

/-- A decision has the same values in every scenario. -/
theorem valuesAt_agrees (h : Layouts t p q) (hp : p.AllCurrent) (x : List (Exact F))
    (solver : Option (Solver σ (Exact F))) :
    (valuesAt x solver : Edit σ (Exact F) (Exact F × List (Exact F))).Agrees (t = .sequential)
      (valuesAt x solver) p q (fun v p' v' q' => v' = v ∧ Layouts t p' q') (Layouts t) := by
  unfold valuesAt
  refine Change.agrees_bind (Change.agrees_state ?_)
  have hcheck : q.checkDecision x = p.checkDecision x :=
    h.relaid.congr (·.checkDecision x) fun _ => rfl
  have hbackend : q.backendFor solver = p.backendFor solver :=
    h.relaid.congr (·.backendFor solver) fun _ => rfl
  refine Change.agrees_bind (Change.agrees_lift_eq hcheck h fun _ _ => ?_)
  refine Change.agrees_bind (Change.agrees_lift_eq h.relaid.stageOneModel h fun master _ => ?_)
  refine Change.agrees_bind (Change.agrees_lift_eq rfl h fun first _ => ?_)
  rw [hbackend]
  refine Change.agrees_bind (Change.agrees_ofAct (collect_agrees h (fun _ => hp) _) h ?_)
  rintro recourse _ rfl
  exact Change.agrees_pure ⟨rfl, h⟩

/-- A decision is worth the same in both layouts. -/
theorem evaluate_agrees (h : Layouts t p q) (x : List (Exact F))
    (solver : Option (Solver σ (Exact F))) :
    (evaluate x solver : Edit σ (Exact F) (Exact F)).Agrees (t = .sequential) (evaluate x solver)
      p q (fun v p' v' q' => v' = v ∧ Layouts t p' q') (Layouts t) := by
  unfold evaluate
  refine Change.agrees_bind ((generate_agrees h).mono ?_ fun _ _ h => h)
  rintro _ p₁ _ q₁ ⟨h₁, hcurrent⟩
  refine Change.agrees_bind ((validate_agrees h₁ none).mono ?_ fun _ _ h => h)
  rintro _ p₂ _ q₂ ⟨h₂, hcurrent'⟩
  refine Change.agrees_bind ((valuesAt_agrees h₂ (hcurrent' hcurrent) x solver).mono ?_
    fun _ _ h => h)
  rintro ⟨first, recourse⟩ p₃ _ q₃ ⟨rfl, h₃⟩
  refine Change.agrees_bind (Change.agrees_state ?_)
  rw [h₃.relaid.probabilities]
  exact Change.agrees_pure ⟨rfl, h₃⟩

/-- The expectation of the wait-and-see values is the same in both layouts. -/
theorem expectedWaitAndSee_agrees (h : Layouts t p q) (solver : Option (Solver σ (Exact F))) :
    (expectedWaitAndSee solver : Edit σ (Exact F) (Exact F)).Agrees (t = .sequential)
      (expectedWaitAndSee solver) p q (fun v p' v' q' => v' = v ∧ Layouts t p' q') (Layouts t) := by
  unfold expectedWaitAndSee
  refine Change.agrees_bind ((validate_agrees h none).mono ?_ fun _ _ h => h)
  rintro _ p₁ _ q₁ ⟨h₁, -⟩
  refine Change.agrees_bind (Change.agrees_state ?_)
  have hsolver : q₁.structuredFor solver = p₁.structuredFor solver :=
    h₁.relaid.congr (·.structuredFor solver) fun _ => rfl
  have hsingle (s : Scenario (Exact F)) (solver : Option (Solver σ (Exact F))) :
      q₁.waitAndSee (.scenario s) solver = p₁.waitAndSee (.scenario s) solver :=
    h₁.relaid.congr (·.waitAndSee (.scenario s) solver) fun _ => rfl
  simp only [hsolver, hsingle]
  refine Change.agrees_bind (Change.agrees_ofAct
    (collect_agrees h₁ (fun h => absurd h Bool.false_ne_true) _) h₁ ?_)
  rintro weighted _ rfl
  exact Change.agrees_pure ⟨rfl, h₁⟩

/-! ## What is the same in any layout -/

/-- What is read from a program is the same, the texts of refusals aside: its scenarios and
their probabilities, every subproblem with the epoch it was built in, how far the stages are
built, and the solution. -/
structure ReadsAlike {K : Type} [Scalar K] (p p' : Program σ K) : Prop where
  scenarios : p'.scenarios = p.scenarios
  probabilities : p'.probabilities = p.probabilities
  scenario : ∀ i, p'.scenario i = p.scenario i
  built : p'.slots.map (·.built) = p.slots.map (·.built)
  subproblem : ∀ i, (p'.subproblem i).toOption = (p.subproblem i).toOption
  stageState : ∀ stage, p'.stageState stage = p.stageState stage
  subproblemCount : p'.subproblemCount = p.subproblemCount
  solution : p'.solution = p.solution

theorem Relaid.readsAlike {K : Type} [Scalar K] {p q : Program σ K} (h : p.Relaid q) :
    p.ReadsAlike q where
  scenarios := h.scenarios
  probabilities := h.probabilities
  scenario := h.scenario
  built := by rw [h.slots]
  subproblem := h.subproblem
  stageState := h.stageState
  subproblemCount := h.subproblemCount
  solution := h.solution

/-- What is computed from a program is the same: results and refusals, and the program
afterwards up to its layout.  Ledgers are the same where work goes from one partition to the
next, and where a result is given in any case: whatever the environment records, the same
linear programs come to it in the same order, and recipes are called in the same way. -/
structure WorksAlike (p q : Program σ (Exact F)) : Prop where
  /-- Generation builds the same slots and fails at the same indices. -/
  generate : (generate : Edit σ (Exact F) Unit).Agrees True generate p q
    (fun _ p' _ q' => p'.Relaid q') Relaid
  /-- Validation gives the same verdict and rescales in the same way. -/
  validate : ∀ normalize, (validate normalize : Edit σ (Exact F) Unit).Agrees True
    (validate normalize) p q (fun _ p' _ q' => p'.Relaid q') Relaid
  /-- A structured solver sets up the same run. -/
  build : ∀ s : StructuredSolver σ (Exact F), s.build.Agrees True s.build p q
    (fun r p' r' q' => r' = r ∧ p'.Relaid q') Relaid
  /-- It takes the run to the same end. -/
  run : p.AllCurrent → ∀ s : StructuredSolver σ (Exact F),
    (s.run p).Coincides (p.transport = .sequential) (s.run q)
  /-- Solving ends in the same status and installs the same solution with the same result in
  every scenario. -/
  optimize : ∀ solver, (optimize solver : Edit σ (Exact F) Status).Agrees
    (p.transport = .sequential) (optimize solver) p q
    (fun status p' status' q' => status' = status ∧ p'.Relaid q') Relaid
  /-- A decision is worth the same. -/
  evaluate : ∀ x solver, (evaluate x solver : Edit σ (Exact F) (Exact F)).Agrees
    (p.transport = .sequential) (evaluate x solver) p q
    (fun v p' v' q' => v' = v ∧ p'.Relaid q') Relaid
  /-- And so are the wait-and-see decisions. -/
  expectedWaitAndSee : ∀ solver, (expectedWaitAndSee solver : Edit σ (Exact F) (Exact F)).Agrees
    (p.transport = .sequential) (expectedWaitAndSee solver) p q
    (fun v p' v' q' => v' = v ∧ p'.Relaid q') Relaid

theorem Relaid.worksAlike (h : p.Relaid q) (hp : p.Weighted) : p.WorksAlike q := by
  have hlayouts : Layouts p.transport p q := ⟨h, hp, rfl⟩
  exact
    { generate := (generate_agrees hlayouts).mono (fun _ _ _ _ h => h.1.relaid) fun _ _ h => h.relaid
      validate := fun normalize => (validate_agrees hlayouts normalize).mono
        (fun _ _ _ _ h => h.1.relaid) fun _ _ h => h.relaid
      build := fun s => (s.build_agrees hlayouts).mono
        (fun _ _ _ _ h => ⟨h.1, h.2.1.relaid⟩) fun _ _ h => h.relaid
      run := fun hcurrent s => s.run_coincides hlayouts hcurrent
      optimize := fun solver => (optimize_agrees hlayouts solver).mono
        (fun _ _ _ _ h => ⟨h.1, h.2.relaid⟩) fun _ _ h => h.relaid
      evaluate := fun x solver => (evaluate_agrees hlayouts x solver).mono
        (fun _ _ _ _ h => ⟨h.1, h.2.relaid⟩) fun _ _ h => h.relaid
      expectedWaitAndSee := fun solver => (expectedWaitAndSee_agrees hlayouts solver).mono
        (fun _ _ _ _ h => ⟨h.1, h.2.relaid⟩) fun _ _ h => h.relaid }

/-- Spreading the scenarios over a positive number of partitions gives that many, as even as
they can be; any other number is refused and changes nothing.  What is read from the program
stays the same, and what is computed from it is the same in any layout. -/
theorem Weighted.layout_independent (hp : p.Weighted) :
    (∀ (workers : Setting (Exact F)) (k : Int), workers.toInteger = .ok k →
      ∀ ledger : Ledger σ (Exact F),
        (1 ≤ k → ∃ p', ((rebalance workers).runOn p).run ledger = ((.ok (), p'), ledger) ∧
          p.SpreadOver p' k.toNat ∧ p.ReadsAlike p' ∧ p.WorksAlike p') ∧
        (k < 1 → ∃ f, ((rebalance workers).runOn p).run ledger = ((.error f, p), ledger))) ∧
    ∀ q, p.Relaid q → p.ReadsAlike q ∧ p.WorksAlike q := by
  refine ⟨fun workers k hworkers ledger => ⟨fun hk => ?_, fun hk => ?_⟩, fun q hq => ?_⟩
  · obtain ⟨p', hrun, hspread⟩ := rebalance_run hworkers hk p ledger
    exact ⟨p', hrun, hspread, hspread.readsAlike, hspread.worksAlike hp⟩
  · exact ⟨_, rebalance_refused hworkers hk p ledger⟩
  · exact ⟨hq.readsAlike, hq.worksAlike hp⟩

/-- The probabilities of a program with pure recipes are weights whatever was done to it. -/
theorem Reachable.weighted (hp : Reachable p) : p.Weighted :=
  (hp.invariant Exact.weighing).toConsistent.weighted

end Program

namespace Logbook

open Program

/-- The stock as a recipe. -/
def stockRecipe : FirstRecipe Logbook (Exact ℚ) := ⟨"stock", fun _ => return .model LShaped.stock⟩

/-- The price that a payload names. -/
def priceOf : Value (Exact ℚ) → ℚ
  | .real (.finite price) => price
  | _ => 0

/-- What the stock lacks, bought at the price of the payload. -/
def shortageRecipe : SecondRecipe Logbook (Exact ℚ) where
  name := "shortage"
  build := fun _ _ payload => return .model (LShaped.shortage (priceOf payload))

/-- The stock with two prices. -/
def orders : List (Operation Logbook (Exact ℚ)) :=
  [.register (.ofInt 1) (.recipe (.first stockRecipe)) true,
    .register (.ofInt 2) (.recipe (.second shortageRecipe)) true,
    .addAll [.scenario (priced (1 / 2)), .scenario (priced (1 / 4))] none true]

theorem orders_allowed : ∀ op ∈ orders, op.Allowed := by
  have hpriced : ∀ price : ℚ, Scalar.isWeight (priced price).probability = true := fun _ =>
    (Exact.isWeight_iff _).2 ⟨1 / 2, rfl, by norm_num, by norm_num⟩
  simp only [orders, List.forall_mem_cons, List.not_mem_nil, false_implies, implies_true,
    and_true, Operation.Allowed]
  exact ⟨fun _ => Act.effectless_pure _, fun _ _ _ => Act.effectless_pure _, hpriced _, hpriced _⟩

/-- The L-shaped method with one recourse variable. -/
def singleCut : StructuredSolver Logbook (Exact ℚ) :=
  { solver .lshaped with config := { Config.default .lshaped with multicut := .flag false } }

/-- Solving a program by it on an empty record. -/
def solveOnce (p : Program Logbook (Exact ℚ)) :
    Except (Fault (Exact ℚ)) Status × Program Logbook (Exact ℚ) × Ledger Logbook (Exact ℚ) :=
  (Program.optimize (some (.structured singleCut))).run.run (p, ⟨⟨[]⟩, [], 0⟩)

/-- Two prices on one worker and on two: the L-shaped method solves both layouts, and hands over
the same six linear programs. -/
theorem stock_layout_independent : ∃ p p' : Program Logbook (Exact ℚ), Reachable p ∧
    p.partitionSizes = [2] ∧ p'.partitions.length = 2 ∧
    ((rebalance (.ofInt 2)).runOn p).run ⟨⟨[]⟩, [], 0⟩ = ((.ok (), p'), ⟨⟨[]⟩, [], 0⟩) ∧
    (solveOnce p).1.toOption = some .optimal ∧
    (solveOnce p').1.toOption = some .optimal ∧
    (solveOnce p).2.2.env.handed.length = 6 ∧
    (solveOnce p').2.2.env.handed = (solveOnce p).2.2.env.handed := by
  obtain ⟨p, hp, hstate⟩ := exists_reachable Setup.standard orders_allowed ⟨⟨[]⟩, [], 0⟩
    (fun p => p.partitionSizes == [2] && (solveOnce p).1.toOption == some .optimal
      && (solveOnce p).2.2.env.handed.length == 6)
    (by decide +kernel)
  simp only [Bool.and_eq_true, beq_iff_eq] at hstate
  obtain ⟨⟨hsizes, hoptimal⟩, hcalls⟩ := hstate
  obtain ⟨hspread, -⟩ := hp.weighted.layout_independent
  obtain ⟨p', hrun, hspread, -, hworks⟩ := (hspread (.ofInt 2) 2 rfl ⟨⟨[]⟩, [], 0⟩).1 (by decide)
  obtain ⟨hresult, hledger⟩ := hworks.optimize (some (.structured singleCut)) ⟨⟨[]⟩, [], 0⟩
  have hsame : (solveOnce p').1 = (solveOnce p).1 := hresult.eq fun _ _ h => h.1
  have hhanded : (solveOnce p').2.2 = (solveOnce p).2.2 := by
    refine hledger (.inr ?_)
    show (solveOnce p).1.isOk = true
    cases hr : (solveOnce p).1 with
    | ok a => rfl
    | error f =>
      rw [hr] at hoptimal
      cases hoptimal
  exact ⟨p, p', hp, hsizes, hspread.count, hrun, hoptimal, hsame ▸ hoptimal, hcalls, by rw [hhanded]⟩

end Logbook

end Recourse
