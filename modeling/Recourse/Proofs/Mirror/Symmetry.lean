/-
  Proofs/Mirror/Symmetry.lean --- either sense of the objectives will do.

  A program and its image say the same in two ways, and no solver tells them apart: what
  is handed to the host agrees, in the same order, and so do statuses, iterations and
  decisions, while everything in the sense of the objectives is turned around.  Only the
  interval that a study combines needs a proviso.  Its ends come from comparisons, and an
  undefined end of one interval hides the other in one of the two orders.
-/
import Recourse.Proofs.LShaped.Bounds
import Recourse.Proofs.Mirror.Study
import Mathlib.Data.Rat.Sqrt

set_option autoImplicit false
set_option linter.unusedSectionVars false

namespace Recourse

/-! ## Symmetric solvers -/

section Symmetry

variable {σ K : Type} [Analytic K] [Scalar.Symmetric K] [Host σ K]

/-- What a solver does to a program it does to the image of that program.  Each clause starts
both computations on the same ledger and has them leave the same ledger: whatever the
environment records, the same linear programs come to it in the same order. -/
structure StructuredSolver.SenseSymmetric (s : StructuredSolver σ K) : Prop where
  /-- Solving gives the same status.  A program and its image remain, with the same decision
  and opposite objectives, duals and reduced costs, for each scenario as well. -/
  optimize : Program.Even (Program.optimize (some (.structured s)))
    (Program.optimize (some (.structured s)))
  /-- The runs that are built are images of each other. -/
  build : s.build.Alike Program.mirror s.build fun r r' => r' = r.mirror
  /-- They remain so, with the same status, iterations and decision, however they end. -/
  run : ∀ p, (s.run p).Alike SolverRun.mirror (s.run p.mirror) fun status status' =>
    status' = status
  /-- The values of the recourse problem are opposite. -/
  recourseProblem : Program.Odd (Program.recourseProblem (some (.structured s)))
    (Program.recourseProblem (some (.structured s)))
  /-- So are the expectations of the wait-and-see values. -/
  expectedWaitAndSee : Program.Odd (Program.expectedWaitAndSee (some (.structured s)))
    (Program.expectedWaitAndSee (some (.structured s)))
  /-- So are the values of the expected scenario. -/
  expectedValue : ∀ p : Program σ K, (p.expectedValue (some (.structured s))).Alike
    (p.mirror.expectedValue (some (.structured s))) fun v v' => v' = -v
  /-- So are the values of its decision. -/
  expectedResult : Program.Odd (Program.expectedResult (some (.structured s)))
    (Program.expectedResult (some (.structured s)))
  /-- Perfect information is worth the same. -/
  perfectInformation : Program.Even (Program.perfectInformation (some (.structured s)))
    (Program.perfectInformation (some (.structured s)))
  /-- So is the stochastic solution. -/
  stochasticSolution : Program.Even (Program.stochasticSolution (some (.structured s)))
    (Program.stochasticSolution (some (.structured s)))
  /-- Studies on the same draws come to opposite outcomes. -/
  study : ∀ (plan : Plan σ K) (t : Study σ K),
    (({ plan with solver := some (.structured s) } : Plan σ K).run t).Alike
      (({ plan with solver := some (.structured s) } : Plan σ K).run t.mirror)
      Estimate.Opposite

/-- Whatever its method and its configuration, a solver on an even backend is symmetric in
the sense of the objectives. -/
theorem StructuredSolver.senseSymmetric {s : StructuredSolver σ K} (hs : s.backend.Even) :
    s.SenseSymmetric where
  optimize := Program.optimize_even hs
  build := s.build_alike
  run := s.run_alike hs
  recourseProblem := Program.recourseProblem_odd hs
  expectedWaitAndSee := Program.expectedWaitAndSee_odd hs
  expectedValue := Program.expectedValue_alike hs
  expectedResult := Program.expectedResult_odd hs
  perfectInformation := Program.perfectInformation_even hs
  stochasticSolution := Program.stochasticSolution_even hs
  study := Plan.run_alike hs

end Symmetry

/-! ## A host that keeps a record -/

/-- Rational numbers with roots of squares and two standard errors to either side. -/
instance : Analytic (Exact ℚ) where
  sqrt
    | .finite x => .finite (Rat.sqrt x)
    | .minusInfinity => .undefined
    | x => x
  exp _ := .undefined
  normalQuantile _ := .finite 2
  studentQuantile _ _ := .finite 2

/-- What was handed to an engine, latest last. -/
structure Logbook where
  /-- The programs. -/
  handed : List (HandedProgram (Exact ℚ))

namespace Logbook

/-- The optimum over two columns where the first rests at its lower bound, and a row, if
there is one, keeps the second from falling. -/
def corner (h : HandedProgram (Exact ℚ)) : Verdict (Exact ℚ) :=
  let lower (j : Nat) := (h.bounds[j]?.bind (·.1)).getD 0
  match h.cost, h.upperRows with
  | [c, d], [(row, limit)] =>
      let (a, b) := ((row.toDense 2).getD 0 0, (row.toDense 2).getD 1 0)
      let y := (limit - a * lower 0) / b
      .optimal ⟨[lower 0, y], c * lower 0 + d * y, [d / b], [], [c - a * (d / b), 0], [0, 0], 0⟩
  | cost, [] =>
      let point := (List.range cost.length).map lower
      .optimal ⟨point, Scalar.dot cost point, [], [], cost, Scalar.zeros cost.length, 0⟩
  | _, _ => .ended .numericalError

instance : Host Logbook (Exact ℚ) where
  optimize h _ := do
    Act.modifyEnvironment fun l => ⟨l.handed ++ [h]⟩
    return corner h
  clock := return 0

/-- A solver with the usual options. -/
def solver (method : Method) : StructuredSolver Logbook (Exact ℚ) :=
  ⟨method, Config.default method.configKind, Backend.plain⟩

/-! ### A program and its image -/

/-- A stock that is cheaper to go without. -/
def cheapStock : Program Logbook (Exact ℚ) :=
  .ofModels LShaped.stock [(1, LShaped.shortage (1 / 2))]

/-- Solving a program on an empty record. -/
def solve (method : Method) (p : Program Logbook (Exact ℚ)) :
    Except (Fault (Exact ℚ)) Status × Program Logbook (Exact ℚ) × Ledger Logbook (Exact ℚ) :=
  (Program.optimize (some (.structured (solver method)))).run.run (p, ⟨⟨[]⟩, [], 0⟩)

/-- A program and its image are solved, to opposite values, and by as many calls. -/
structure Solves (method : Method) (p : Program Logbook (Exact ℚ)) (value : Exact ℚ)
    (calls : Nat) : Prop where
  statuses : (solve method p).1.toOption = some .optimal ∧
    (solve method p.mirror).1.toOption = some .optimal
  objectives : (solve method p).2.1.solution.map (·.objective) = some value ∧
    (solve method p.mirror).2.1.solution.map (·.objective) = some (-value)
  handed : (solve method p).2.2.env.handed.length = calls ∧
    (solve method p.mirror).2.2.env.handed = (solve method p).2.2.env.handed

theorem Solves.of_symmetric {method : Method} {p : Program Logbook (Exact ℚ)} {value : Exact ℚ}
    {calls : Nat} (h : (solver method).SenseSymmetric)
    (hstatus : (solve method p).1.toOption = some .optimal)
    (hvalue : (solve method p).2.1.solution.map (·.objective) = some value)
    (hcalls : (solve method p).2.2.env.handed.length = calls) : Solves method p value calls := by
  obtain ⟨hresult, hstate⟩ := h.optimize p ⟨⟨[]⟩, [], 0⟩
  have hstate : (solve method p.mirror).2 =
      ((solve method p).2.1.mirror, (solve method p).2.2) := hstate
  refine ⟨⟨hstatus, ?_⟩, ⟨hvalue, ?_⟩, hcalls, ?_⟩
  · obtain ⟨status, hstatus', rfl⟩ := hresult.toOption hstatus
    exact hstatus'
  · obtain ⟨solution, hsolution, rfl⟩ := Option.map_eq_some_iff.mp hvalue
    rw [hstate]
    show ((solve method p).2.1.solution.map Solution.mirror).map (·.objective) = _
    rw [hsolution]
    rfl
  · rw [hstate]

/-! ### A study and its image -/

/-- The stock with a constant in its objective. -/
def stock (constant : Exact ℚ) : Model (Exact ℚ) :=
  { LShaped.stock with objective? := some ⟨[(0, 1)], constant, []⟩ }

/-- The stock, and what it lacks at the price that is drawn. -/
def template (constant : Exact ℚ) : Template Logbook (Exact ℚ) where
  first := some ⟨"stock", fun _ => return .model (stock constant)⟩
  second := some ⟨"shortage", fun _ _ payload => return match payload with
    | .real (.finite price) => .model (LShaped.shortage price)
    | _ => .value .null⟩

/-- Prices that rise with every program that was handed over. -/
def prices : Sampler Logbook (Exact ℚ) where
  draw := do return .real (Scalar.ofNat ((← Act.environment).handed.length + 1))
  reseed _ := return ()

/-- Sampled programs of the stock. -/
def study (constant : Exact ℚ) : Study Logbook (Exact ℚ) :=
  ⟨template constant, prices, Program.Setup.standard, false⟩

/-- One replication of one scenario, evaluated on several. -/
def plan (evaluation : Int) : Plan Logbook (Exact ℚ) :=
  ⟨1, 1, evaluation, .finite (19 / 20), some (.structured (solver .extensive)), none⟩

/-- The outcome of a plan that is carried out on an empty record. -/
def outcome (evaluation : Int) (t : Study Logbook (Exact ℚ)) : Option (Estimate (Exact ℚ)) :=
  (((plan evaluation).run t).run.run ⟨⟨[]⟩, [], 0⟩).1.toOption

/-- Both methods solve the program of the stock and its image with the same calls, and the
study finds the same decision with its interval turned around. -/
theorem cheapStock_senseSymmetric :
    Solves .extensive cheapStock (.finite (3 / 2)) 1 ∧
    Solves .lshaped cheapStock (.finite (3 / 2)) 4 ∧
    (outcome 1 (study 0)).map (fun e => (e.decision, e.intervalLower, e.intervalUpper)) =
      some ([0], .finite 3, .finite 6) ∧
    (outcome 1 (study 0).mirror).map (fun e => (e.decision, e.intervalLower, e.intervalUpper)) =
      some ([0], .finite (-6), .finite (-3)) := by
  have hsymmetric (method : Method) : (solver method).SenseSymmetric :=
    StructuredSolver.senseSymmetric Backend.plain_even
  have hstudy : (outcome 1 (study 0)).map
      (fun e => (e.decision, e.intervalLower, e.intervalUpper)) =
        some ([0], .finite 3, .finite 6) := by
    decide +kernel
  have hdefined : (outcome 1 (study 0).mirror).map (Scalar.isUndefined ·.intervalLower) =
      some false := by
    decide +kernel
  refine ⟨.of_symmetric (hsymmetric .extensive) (by decide +kernel) (by decide +kernel)
      (by decide +kernel),
    .of_symmetric (hsymmetric .lshaped) (by decide +kernel) (by decide +kernel)
      (by decide +kernel), hstudy, ?_⟩
  obtain ⟨e, he, hends⟩ := Option.map_eq_some_iff.mp hstudy
  obtain ⟨e', he', hopposite⟩ :=
    ((hsymmetric .extensive).study (plan 1) (study 0) ⟨⟨[]⟩, [], 0⟩).1.toOption he
  obtain ⟨hdecision, hlower, hupper⟩ : e.decision = [0] ∧ e.intervalLower = .finite 3 ∧
    e.intervalUpper = .finite 6 := by simpa using hends
  have he' : outcome 1 (study 0).mirror = some e' := he'
  rw [he'] at hdefined ⊢
  obtain ⟨hlower', hupper'⟩ := hopposite.interval (by rw [hlower]; rfl) (Option.some.inj hdefined)
  simp [hopposite.decision, hlower', hupper', hdecision, hlower, hupper]

/-- With an infinite constant the interval around the decision is undefined, and that goes
unnoticed in one of the two senses only. -/
theorem study_interval_turned_false :
    ¬ ∀ (plan : Plan Logbook (Exact ℚ)) (t : Study Logbook (Exact ℚ)),
      (({ plan with solver := some (.structured (solver .extensive)) } :
        Plan Logbook (Exact ℚ)).run t).Alike
      (({ plan with solver := some (.structured (solver .extensive)) } :
        Plan Logbook (Exact ℚ)).run t.mirror) fun e e' =>
          e'.intervalLower = -e.intervalUpper ∧ e'.intervalUpper = -e.intervalLower := by
  intro h
  have hupper : (outcome 2 (study .plusInfinity)).map (·.intervalUpper) = some .plusInfinity := by
    decide +kernel
  have hlower : (outcome 2 (study .plusInfinity).mirror).map (·.intervalLower) =
      some .undefined := by
    decide +kernel
  obtain ⟨e, he, hupper⟩ := Option.map_eq_some_iff.mp hupper
  obtain ⟨e', he', hturned, -⟩ :=
    (h (plan 2) (study .plusInfinity) ⟨⟨[]⟩, [], 0⟩).1.toOption he
  have he' : outcome 2 (study .plusInfinity).mirror = some e' := he'
  rw [he', Option.map_some, hturned, hupper] at hlower
  cases hlower

end Logbook

end Recourse
