/-
  Proofs/Mirror/Extensive.lean --- the deterministic equivalent with its sense turned.

  The deterministic equivalent of the image of a program is the image of that of the
  program: a weighed sum of opposites is the opposite of the weighed sum.  It is
  therefore the same linear program, and what a run unpacks from its solution is the
  image of what it unpacks for the program.
-/
import Recourse.Proofs.Mirror.Program
import Recourse.Solver.Extensive

set_option autoImplicit false
set_option linter.unusedSectionVars false

namespace Recourse

variable {σ K : Type} [Scalar K]

/-! ## Mirror images -/

/-- What a run knows, with the numbers of the objective's sense exchanged with their
opposites. -/
def RunState.mirror (s : RunState K) : RunState K :=
  { s with
    sign := -s.sign
    objective := -s.objective
    secondStage := s.secondStage.map SolveResult.mirror
    reducedCosts := s.reducedCosts.map Scalar.negated
    duals := s.duals.map Scalar.negated
    masterResult := s.masterResult.map SolveResult.mirror }

/-- A deterministic equivalent with the opposite objective. -/
def ExtensiveForm.mirror (f : ExtensiveForm K) : ExtensiveForm K :=
  { f with model := f.model.mirror }

/-- A run on the image of the deterministic equivalent. -/
def ExtensiveState.mirror (s : ExtensiveState K) : ExtensiveState K :=
  { s.toRunState.mirror with form := s.form.mirror }

variable [Scalar.Symmetric K]

theorem RunState.fresh_mirror (programId : Nat) (sign started : K) :
    RunState.fresh programId (-sign) started = (RunState.fresh programId sign started).mirror := by
  unfold RunState.fresh RunState.mirror
  rw [Scalar.Symmetric.neg_undefined]
  rfl

/-! ## The form -/

theorem Table.alter_mirror (terms : Table Nat K) (key : Nat) {f f' : Option K → K}
    (h : ∀ old, f' (old.map (-·)) = -f old) :
    Table.alter (terms.map fun t => (t.1, -t.2)) key f' =
      (Table.alter terms key f).map fun t => (t.1, -t.2) := by
  induction terms with
  | nil => exact congrArg (fun c => [(key, c)]) (h none)
  | cons t terms ih =>
    rw [List.map_cons, Table.alter, Table.alter, ih]
    split
    · exact congrArg (fun c => (t.1, c) :: _) (h (some t.2))
    · rfl

namespace LinearExpr

theorem addTerm_mirror (weight : K) (terms : Table Nat K) (j : Nat) (c : K) :
    addTerm weight (terms.map fun t => (t.1, -t.2)) (j, -c) =
      (addTerm weight terms (j, c)).map fun t => (t.1, -t.2) := by
  refine Table.alter_mirror terms j fun old => ?_
  have hold : (old.map (-·)).getD 0 = -(old.getD 0 : K) := by
    cases old with
    | none => exact Scalar.Symmetric.neg_zero.symm
    | some c => rfl
  rw [hold, Scalar.Symmetric.mul_neg, Scalar.Symmetric.neg_add_neg]

end LinearExpr

namespace ExtensiveForm

/-- Adding the opposite objectives of the scenarios adds up to the opposite objective. -/
theorem addObjective_mirror (e own : LinearExpr K) (columns : Nat → Nat) (p : K) :
    addObjective e.mirror columns p own.mirror = (addObjective e columns p own).mirror := by
  have hterms (ts terms : Table Nat K) :
      (ts.map fun t => (t.1, -t.2)).foldl
          (fun acc t => LinearExpr.addTerm p acc (columns t.1, t.2))
          (terms.map fun t => (t.1, -t.2)) =
      (ts.foldl (fun acc t => LinearExpr.addTerm p acc (columns t.1, t.2)) terms).map
        fun t => (t.1, -t.2) := by
    induction ts generalizing terms with
    | nil => rfl
    | cons t ts ih =>
      rw [List.map_cons, List.foldl_cons, List.foldl_cons, LinearExpr.addTerm_mirror]
      exact ih _
  unfold addObjective LinearExpr.mirror
  rw [hterms, Scalar.Symmetric.mul_neg, Scalar.Symmetric.neg_add_neg]

theorem ofMaster_mirror (m : Model K) : ofMaster m.mirror = (ofMaster m).mirror := by
  unfold ofMaster
  rw [Model.objective_mirror]
  rfl

theorem addScenario_mirror (f : ExtensiveForm K) (p : K) (sub : Model K) :
    f.mirror.addScenario p sub.mirror = (f.addScenario p sub).mirror := by
  unfold addScenario
  rw [Model.objective_mirror]
  show ExtensiveForm.mk (Model.mk _ _ _ (some (addObjective f.model.mirror.objective _ p _)) _ _ _)
    _ _ _ _ _ = _
  rw [Model.objective_mirror, addObjective_mirror]
  rfl

theorem build_mirror (master : Model K) (scenarios : List (K × Model K)) :
    build master.mirror (scenarios.map fun s => (s.1, s.2.mirror)) =
      (build master scenarios).mirror := by
  have hscenarios (f : ExtensiveForm K) :
      (scenarios.map fun s => (s.1, s.2.mirror)).foldl (fun f s => f.addScenario s.1 s.2) f.mirror =
        (scenarios.foldl (fun f s => f.addScenario s.1 s.2) f).mirror := by
    induction scenarios generalizing f with
    | nil => rfl
    | cons s scenarios ih =>
      rw [List.map_cons, List.foldl_cons, List.foldl_cons, addScenario_mirror]
      exact ih _
  unfold build
  rw [ofMaster_mirror, hscenarios]

end ExtensiveForm

theorem Program.extensiveForm_alike :
    (extensiveForm : Edit σ K (ExtensiveForm K)).Alike Program.mirror extensiveForm
      fun f f' => f' = f.mirror := by
  unfold extensiveForm
  refine Change.alike_bind_map generate_even fun _ => ?_
  refine Change.alike_bind_map Change.alike_state fun p => ?_
  refine Change.alike_bind_map (Change.alike_lift (.of_eq p.stageOneModel_mirror)) fun master => ?_
  refine Change.alike_bind_map (Change.alike_lift (.of_eq p.subproblems_mirror)) fun subs => ?_
  rw [probabilities_mirror, List.zip_map_right]
  exact Change.alike_pure (ExtensiveForm.build_mirror master (p.probabilities.zip subs))

/-! ## A run -/

namespace ExtensiveState

theorem pick_negated (xs : List K) (positions : List Nat) :
    pick (Scalar.negated xs) positions = Scalar.negated (pick xs positions) := by
  unfold pick Scalar.negated
  rw [List.map_map]
  exact congrArg (List.map · positions)
    (funext fun i => Scalar.getD_negated xs i Scalar.Symmetric.neg_undefined)

theorem getD_map_negated (costs : Option (List K)) :
    (costs.map Scalar.negated).getD [] = Scalar.negated (costs.getD []) := by
  cases costs <;> rfl

/-- The part of a subproblem in the image of a result is the image of its part in the
result. -/
theorem unpack_mirror (f : ExtensiveForm K) (r : SolveResult K) (sub : Model K) (p : K)
    (columns rows : List Nat) : unpack f.mirror r.mirror sub.mirror p columns rows =
      (unpack f r sub p columns rows).map SolveResult.mirror := by
  have hduals (scale : K) : (pick (Scalar.negated r.duals) rows).map (· * scale) =
      Scalar.negated ((pick r.duals rows).map (· * scale)) := by
    rw [pick_negated, Scalar.negated, Scalar.negated, List.map_map, List.map_map]
    exact congrArg (List.map · (pick r.duals rows))
      (funext fun d => Scalar.Symmetric.neg_mul d scale)
  have hcosts (scale : K) : (columns.map fun j => if j < f.firstColumns then 0
        else ((r.reducedCosts.map Scalar.negated).getD []).getD j Scalar.undefined * scale) =
      Scalar.negated (columns.map fun j => if j < f.firstColumns then 0
        else (r.reducedCosts.getD []).getD j Scalar.undefined * scale) := by
    rw [Scalar.negated, List.map_map, getD_map_negated]
    refine congrArg (List.map · columns) (funext fun j => ?_)
    show (if j < f.firstColumns then 0 else _) = -(if j < f.firstColumns then 0 else _)
    split
    · exact Scalar.Symmetric.neg_zero.symm
    · rw [Scalar.getD_negated _ _ Scalar.Symmetric.neg_undefined, Scalar.Symmetric.neg_mul]
  unfold unpack
  dsimp only
  rw [Model.evaluateObjective_mirror]
  show Except.map _ (sub.evaluateObjective (pick r.point columns)) >>= _ = _
  cases sub.evaluateObjective (pick r.point columns) with
  | error e => rfl
  | ok objective =>
    refine congrArg Except.ok ?_
    unfold SolveResult.mirror
    dsimp only
    rw [hduals, Option.map_some]
    exact congrArg (SolveResult.mk _ _ _ _ · _ _ _) (congrArg some (hcosts _))

theorem unpackAll_mirror (p : Program σ K) (f : ExtensiveForm K) (r : SolveResult K) (i : Nat)
    (places : List (List Nat × List Nat)) : unpackAll p.mirror f.mirror r.mirror i places =
      (unpackAll p f r i places).map (List.map SolveResult.mirror) := by
  induction places generalizing i with
  | nil => rfl
  | cons place places ih =>
    rw [unpackAll, unpackAll, ih, Program.subproblemAt, Program.subproblem_mirror]
    show Except.map Model.mirror (p.subproblemAt i) >>= _ =
      Except.map _ (p.subproblemAt i >>= _)
    cases p.subproblemAt i with
    | error e => rfl
    | ok sub =>
      show unpack f.mirror r.mirror sub.mirror _ place.1 place.2 >>= _ =
        Except.map _ (unpack f r sub _ place.1 place.2 >>= _)
      rw [unpack_mirror]
      show Except.map _ (unpack f r sub (f.probabilities.getD i 0) place.1 place.2) >>= _ =
        Except.map _ (unpack f r sub (f.probabilities.getD i 0) place.1 place.2 >>= _)
      cases unpack f r sub (f.probabilities.getD i 0) place.1 place.2 with
      | error e => rfl
      | ok one =>
        cases unpackAll p f r (i + 1) places <;> rfl

variable [Host σ K]

theorem build_alike : (build : Edit σ K (ExtensiveState K)).Alike Program.mirror build
    fun s s' => s' = s.mirror := by
  unfold build
  refine Change.alike_bind_map Program.requireSolvable_alike fun master => ?_
  refine Change.alike_bind_map Program.extensiveForm_alike fun form => ?_
  refine Change.alike_bind_map Change.alike_state fun p => ?_
  refine Change.alike_bind_map (Change.alike_ofAct (.refl _)) fun started => ?_
  refine Change.alike_pure ?_
  show { RunState.fresh p.id master.goal.flip.sign started with form := form.mirror } =
    ({ (RunState.fresh p.id master.goal.sign started).mirror with form := form.mirror } :
      ExtensiveState K)
  rw [Goal.sign_flip, RunState.fresh_mirror]

theorem backendFor_even {b : Backend σ K} (hb : b.Even) (c : Config K) : (backendFor c b).Even := by
  unfold backendFor
  split
  · exact hb
  · exact hb.withParam _ _

/-- A run on the image of the deterministic equivalent keeps being the image of the run. -/
theorem run_alike (c : Config K) {b : Backend σ K} (hb : b.Even) (p : Program σ K) :
    (run c b p).Alike ExtensiveState.mirror (run c b p.mirror) fun a a' => a' = a := by
  unfold run
  refine Change.alike_bind_map Change.alike_state fun s => ?_
  rw [show s.mirror.cancelled = s.cancelled from rfl]
  dsimp only
  split
  · refine Change.alike_bind_map (Change.alike_update fun _ => rfl) fun _ => ?_
    exact Change.alike_pure rfl
  · refine Change.alike_bind_map
        (Change.alike_ofAct (Backend.optimize_mirror (backendFor_even hb c) s.form.model none))
      fun r => ?_
    refine Change.alike_bind_map (Change.alike_update fun _ => rfl) fun _ => ?_
    rw [show r.mirror.status = r.status from rfl]
    split
    · exact Change.alike_fail (.refl _)
    · split
      · refine Change.alike_bind (Change.alike_update fun t => ?_) ?_
        · simp only [ExtensiveState.mirror, RunState.mirror, ExtensiveForm.mirror,
            SolveResult.mirror, getD_map_negated, Scalar.take_negated, Option.map_some]
        rintro _ _ rfl
        refine Change.alike_bind_map (Change.alike_lift (.of_eq (unpackAll_mirror p s.form r 0 _)))
          fun second => ?_
        refine Change.alike_bind_map (Change.alike_update fun _ => rfl) fun _ => ?_
        refine Change.alike_bind_map (Change.alike_update fun _ => rfl) fun _ => ?_
        exact Change.alike_pure rfl
      · refine Change.alike_bind_map (Change.alike_update fun _ => rfl) fun _ => ?_
        exact Change.alike_pure rfl

end ExtensiveState

end Recourse
