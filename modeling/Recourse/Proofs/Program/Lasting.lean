/-
  Proofs/Program/Lasting.lean --- what lasts through every state of a program.

  Whatever is done to a program, with whatever recipes and scenarios, refused or not, is made
  of a few changes: data, recipes and results are replaced, models are built, and scenarios
  are added, weighed anew or spread over other partitions.  What a new program has and each of
  these changes keeps (`Lasting`) is kept by every operation and every evaluation, and so all
  states that programs get to have it (`Lasting.attainable`).
-/
import Recourse.Proofs.Evaluation.Frame
import Recourse.Proofs.Program.Atomicity
import Recourse.Proofs.Program.Standing

set_option autoImplicit false
set_option linter.unusedSectionVars false

namespace Recourse

variable {σ K α β : Type}

namespace Program

/-! ## Changes that keep a property -/

/-- A program that has the property has it after the change, refused or not. -/
def Sustains (P : Program σ K → Prop) (c : Edit σ K α) : Prop :=
  ∀ p : Program σ K, P p → c.Ensures p (fun _ p' => P p') fun _ p' => P p'

namespace Sustains

variable {P : Program σ K → Prop}

theorem pure (a : α) : Sustains P (pure a : Edit σ K α) := fun _ hp => Change.ensures_pure hp

theorem fail (f : Fault K) : Sustains P (Change.fail f : Edit σ K α) := fun _ hp =>
  Change.ensures_fail hp

theorem state : Sustains P (Change.state : Edit σ K (Program σ K)) := fun _ hp =>
  Change.ensures_state hp

theorem lift (r : Except (Fault K) α) : Sustains P (liftM r : Edit σ K α) := fun _ hp =>
  Change.ensures_lift ((Settles.self r).mono (fun _ _ => hp) fun _ _ => hp)

theorem ofAct (act : Act σ K α) : Sustains P (Change.ofAct act : Edit σ K α) := fun _ hp =>
  Change.ensures_ofAct fun _ => (Settles.self _).mono (fun _ _ => hp) fun _ _ => hp

theorem update {f : Program σ K → Program σ K} (h : ∀ p, P p → P (f p)) :
    Sustains P (Change.update f : Edit σ K Unit) := fun p hp => Change.ensures_update (h p hp)

theorem bind {c : Edit σ K α} {f : α → Edit σ K β} (hc : Sustains P c)
    (hf : ∀ a, Sustains P (f a)) : Sustains P (c >>= f) := fun p hp =>
  Change.ensures_bind ((hc p hp).mono (fun a p' hp' => hf a p' hp') fun _ _ h => h)

/-- Where there was a refusal nothing follows. -/
theorem fail_bind (f : Fault K) (g : α → Edit σ K β) :
    Sustains P (Change.fail f >>= g : Edit σ K β) := fun _ hp =>
  Change.ensures_bind (Change.ensures_fail hp)

theorem mapM {f : α → Edit σ K β} (h : ∀ a, Sustains P (f a)) (as : List α) :
    Sustains P (as.mapM f) := by
  induction as with
  | nil => exact .pure []
  | cons a as ih =>
    rw [List.mapM_cons]
    exact .bind (h a) fun _ => .bind ih fun _ => .pure _

/-- A change of which it is known what it ensures. -/
theorem of_ensures {c : Edit σ K α} {Q : Program σ K → α → Program σ K → Prop}
    {E : Program σ K → Fault K → Program σ K → Prop} (hc : ∀ p, c.Ensures p (Q p) (E p))
    (h : ∀ p a p', P p → Q p a p' → P p') (h' : ∀ p f p', P p → E p f p' → P p') : Sustains P c :=
  fun p hp => (hc p).mono (fun a p' hq => h p a p' hp hq) fun f p' hq => h' p f p' hp hq

/-- What only reads a program. -/
theorem of_reads {c : Edit σ K α} (h : ∀ p, Reads c p) : Sustains P c :=
  .of_ensures h (fun _ _ _ hp h => h ▸ hp) fun _ _ _ hp h => h ▸ hp

/-- What looks at the program first. -/
theorem with_state {f : Program σ K → Edit σ K α}
    (h : ∀ p, P p → (f p).Ensures p (fun _ p' => P p') fun _ p' => P p') :
    Sustains P (Change.state >>= f) := fun p hp =>
  Change.ensures_bind (Change.ensures_state (h p hp))

/-- A program that was changed before anybody saw it. -/
theorem apply {c : Edit σ K α} (h : Sustains P c) {p : Program σ K} (hp : P p) :
    (c.apply p).Ensures (fun a => P a.2) fun _ => True :=
  Change.ensures_apply ((h p hp).mono (fun _ _ h => h) fun _ _ _ => trivial)

/-- Building is made of a first-stage model without placeholders, of models beside the scenarios
of each partition and of a note that the second stage was built. -/
theorem generate [Scalar K] (hmaster : ∀ p m, P p → m.decisionCount = 0 → P (installMaster m p))
    (hplaced : ∀ p partitions, P p → partitions.map Partition.scenarios = p.placement →
      P { p with partitions })
    (hnoted : ∀ p, P p → P { p with generatedEpoch := some p.secondEpoch }) :
    Sustains P (generate : Edit σ K Unit) := by
  unfold Program.generate
  refine .bind .state fun p => ?_
  split
  · exact .fail_bind _ _
  refine .bind ?_ fun _ => .bind .state fun p => ?_
  · unfold generateMaster
    refine .with_state fun p hp => ?_
    split
    · exact Change.ensures_pure hp
    refine Change.ensures_bind (Change.ensures_ofAct ((FirstRecipe.generate_own _ _).mono
      (fun m hm => ?_) fun _ _ => hp))
    dsimp only
    split
    · exact Change.ensures_bind (Change.ensures_fail hp)
    · exact Change.ensures_update (hmaster p m hp hm)
  split
  · split
    · exact .update hnoted
    · exact .pure ()
  split
  · exact .fail _
  unfold generateSubproblems
  refine .with_state fun p hp => Change.ensures_bind (Change.ensures_ofAct
    ((build_placement p _ _).mono (fun results hresults => ?_) fun _ h => h.elim))
  have hp' := hplaced p _ hp hresults
  refine Change.ensures_bind (Change.ensures_update ?_)
  dsimp only
  split
  · exact Change.ensures_bind (Change.ensures_fail hp')
  · exact Change.ensures_update (hnoted _ hp')

end Sustains

/-! ## Lasting properties -/

variable [Scalar K] [Host σ K]

/-- A new program holds no scenarios and no models. -/
theorem create_empty (s : Setup σ K) :
    (create s).Ensures (fun p => p.slots = [] ∧ p.master = none ∧ p.decisions = none)
      fun _ => True := by
  unfold create
  refine Act.ensures_lift_bind (fun workers _ => ?_) fun _ => trivial
  dsimp only
  split
  · exact Act.ensures_bind (Act.ensures_fail trivial)
  · exact Act.ensures_bind fun ledger => Act.ensures_pure ⟨by simp [slots], rfl, rfl⟩

/-- A property that a new program has and that lasts through whatever is done to it. -/
structure Lasting (P : Program σ K → Prop) : Prop where
  /-- A new program has it. -/
  created (s : Setup σ K) : (create s).Ensures P fun _ => True
  /-- It lasts when the data of a stage are replaced. -/
  data (stage : Stage) (value : Value K) : Sustains P (setData stage value : Edit σ K Unit)
  /-- It lasts when the recipe of a stage is replaced. -/
  recipe (r : Recipe σ K) : Sustains P (setRecipe r)
  /-- It lasts when models are built. -/
  generated : Sustains P (generate : Edit σ K Unit)
  /-- It lasts when scenarios that were accepted get slots. -/
  extended {p : Program σ K} (hp : P p) {offered : List (Offered K)} {schema : Option Schema}
    {scenarios : List (Scenario K)} (haccept : accept p.schema offered = .ok (schema, scenarios))
    {partitions : List (Partition K)}
    (hslots : Extends p.slots (partitions.flatMap (·.slots)) scenarios) :
    P { p with schema, partitions }
  /-- It lasts when the probabilities are rescaled, as far as that goes. -/
  rescaled (factor : K) : Sustains P (rescale factor : Edit σ K Unit)
  /-- It lasts when the slots are spread over other partitions. -/
  regrouped {p : Program σ K} (hp : P p) {partitions : List (Partition K)}
    (h : partitions.flatMap (·.slots) = p.slots) : P { p with partitions }
  /-- It lasts when a solution is installed. -/
  installed {p : Program σ K} (hp : P p) (solution : Solution K) (results : List (SolveResult K))
    (master : Option (SolveResult K)) : P (p.install solution results master)
  /-- It lasts when the solution is dropped, and when what is said about solving is replaced. -/
  configured {p : Program σ K} (hp : P p) (solution : Option (Solution K))
    (solver : Option (Solver σ K)) (normalize : Bool) : P { p with solution, solver, normalize }

namespace Lasting

variable {P : Program σ K → Prop} (hP : Lasting P)

include hP

/-! ## Operations -/

theorem setStageData (key : Setting K) (value : Value K) :
    Sustains P (setStageData key value : Edit σ K Unit) :=
  .bind (.lift _) fun stage => hP.data stage value

theorem register (key : Setting K) (c : Candidate σ K) (defer : Bool) :
    Sustains P (register key c defer) := by
  unfold Program.register
  refine .bind (.lift _) fun stage => .bind (.lift _) fun r => ?_
  refine .bind (hP.recipe r) fun _ => .bind .state fun p => ?_
  split
  · exact .bind hP.generated fun _ => .pure r
  · exact .pure r

theorem drop : Sustains P (Change.update fun p => { p with solution := none } : Edit σ K Unit) :=
  .update fun p hp => hP.configured hp none p.solver p.normalize

theorem finishAdding (defer : Bool) : Sustains P (finishAdding defer : Edit σ K Unit) := by
  unfold Program.finishAdding
  refine .bind hP.drop fun _ => .bind .state fun p => ?_
  split
  · exact hP.generated
  · exact .pure ()

/-- Scenarios that are accepted may get slots. -/
theorem accepted {p : Program σ K} (hp : P p) (offered : List (Offered K)) :
    (liftM (accept p.schema offered) : Edit σ K (Option Schema × List (Scenario K))).Ensures p
      (fun a p' => p' = p ∧ ∀ partitions : List (Partition K),
        Extends p.slots (partitions.flatMap (·.slots)) a.2 → P { p with schema := a.1, partitions })
      fun _ p' => P p' :=
  Change.ensures_lift ((Settles.exactly _).mono
    (fun _ haccept => ⟨rfl, fun _ hslots => hP.extended hp haccept hslots⟩) fun _ _ => hp)

/-- Scenarios get slots in one partition, the number of which may be refused. -/
theorem place {p : Program σ K} {schema : Option Schema} {scenarios : List (Scenario K)}
    (h : ∀ partitions : List (Partition K),
      Extends p.slots (partitions.flatMap (·.slots)) scenarios → P { p with schema, partitions })
    {k : Edit σ K Nat} (hk : ∀ q, Reads k q) (defer : Bool) :
    (do
      let k ← k
      Change.update (extendAt k scenarios)
      Program.finishAdding defer : Edit σ K Unit).Ensures { p with schema }
        (fun _ p' => P p') fun _ p' => P p' := by
  have hkept : P { p with schema } := h p.partitions (.refl _ _)
  refine Change.ensures_bind ((hk _).mono ?_ fun _ _ hq => hq ▸ hkept)
  rintro k _ rfl
  refine Change.ensures_bind (Change.ensures_update (hP.finishAdding defer _ ?_))
  exact h _ (extends_modify p.partitions k scenarios)

theorem add (offered : Offered K) (worker : Option (Setting K)) (defer : Bool) :
    Sustains P (add offered worker defer : Edit σ K Unit) := by
  unfold Program.add
  refine .with_state fun p hp => ?_
  have hplace (k : Edit σ K Nat) (hk : ∀ q, Reads k q) :
      (do
        let accepted ← liftM (accept p.schema [offered])
        Change.update fun p => { p with schema := accepted.1 }
        let k ← k
        Change.update (extendAt k accepted.2)
        Program.finishAdding defer : Edit σ K Unit).Ensures p (fun _ p' => P p')
          fun _ p' => P p' := by
    refine Change.ensures_bind ((hP.accepted hp [offered]).mono ?_ fun _ _ h => h)
    rintro ⟨schema, scenarios⟩ _ ⟨rfl, h⟩
    exact Change.ensures_bind (Change.ensures_update (hP.place h hk defer))
  cases worker with
  | none =>
    refine Change.ensures_lift_bind (fun least _ => ?_) fun _ => hp
    exact hplace (pure least) fun _ => reads_pure least
  | some w =>
    refine Change.ensures_lift_bind (fun _ _ => ?_) fun _ => hp
    exact hplace (liftM (workerPosition w)) fun _ => reads_lift (workerPosition w)

theorem addAll (offered : List (Offered K)) (worker : Option (Setting K)) (defer : Bool) :
    Sustains P (addAll offered worker defer : Edit σ K Unit) := by
  unfold Program.addAll
  split
  · exact .pure ()
  refine .with_state fun p hp => ?_
  cases worker with
  | none =>
    refine Change.ensures_bind ((hP.accepted hp offered).mono ?_ fun _ _ h => h)
    rintro ⟨schema, scenarios⟩ _ ⟨rfl, h⟩
    refine Change.ensures_bind (Change.ensures_update ?_)
    refine Change.ensures_lift_bind (fun counts _ => ?_) fun _ => h _ (.refl _ _)
    refine Change.ensures_bind (Change.ensures_update (hP.finishAdding defer _ ?_))
    exact h _ (extends_extendEach _ (counts.map Int.toNat) scenarios)
  | some w =>
    refine Change.ensures_lift_bind (fun _ _ => ?_) fun _ => hp
    refine Change.ensures_bind ((hP.accepted hp offered).mono ?_ fun _ _ h => h)
    rintro ⟨schema, scenarios⟩ _ ⟨rfl, h⟩
    refine Change.ensures_bind (Change.ensures_update ?_)
    exact hP.place h (fun _ => reads_lift (workerPosition w)) defer

theorem validate (normalize : Option Bool) : Sustains P (validate normalize : Edit σ K Unit) := by
  unfold Program.validate
  refine .bind .state fun p => ?_
  split
  · exact .fail_bind _ _
  dsimp only
  split
  · exact .pure ()
  split
  · exact .fail_bind _ _
  exact .bind (.ofAct _) fun _ => .bind (hP.rescaled _) fun _ => hP.drop

theorem sample (sampler : Sampler σ K) (n : Setting K) (defer : Bool) :
    Sustains P (sample sampler n defer) := by
  unfold Program.sample
  refine .bind .state fun p => .bind (.lift _) fun size => .bind (.ofAct _) fun fresh => ?_
  refine .bind (.mapM (fun s => .lift _) fresh) fun drawn => .bind (.lift _) fun _ => ?_
  dsimp only
  split
  · exact .bind (hP.rescaled _) fun _ => hP.addAll _ none defer
  · exact hP.addAll _ none defer

theorem rebalance (workers : Setting K) : Sustains P (rebalance workers : Edit σ K Unit) := by
  unfold Program.rebalance
  refine .with_state fun p hp => ?_
  refine Change.ensures_lift_bind (fun parts _ => ?_) fun _ => hp
  refine Change.ensures_bind (Change.ensures_lift
    ((Policy.evenSplit_settles p.scenarioCount parts).mono ?_ fun _ _ => hp))
  rintro sizes ⟨-, hplaces⟩
  exact Change.ensures_update (hP.regrouped hp (flatMap_chunks 0 hplaces.sum_toNat))

theorem commit (solution : Solution K) (results : List (SolveResult K))
    (master : Option (SolveResult K)) :
    Sustains P (commit solution results master : Edit σ K Unit) := by
  refine .of_ensures (commit_ensures solution results master) ?_ ?_
  · rintro p _ _ hp ⟨-, rfl⟩
    exact hP.installed hp solution results master
  · rintro p _ _ hp ⟨-, rfl⟩
    exact hp

theorem commitRun (label : String) (r : RunState K) :
    Sustains P (commitRun label r : Edit σ K Unit) := by
  refine .of_ensures (commitRun_ensures label r) ?_ ?_
  · rintro p _ _ hp ⟨-, solution, rfl, -⟩
    exact hP.installed hp solution _ _
  · rintro p _ _ hp ⟨-, rfl⟩
    exact hp

theorem requireSolvable : Sustains P (requireSolvable : Edit σ K (Model K)) := by
  refine .of_ensures requireSolvable_leaves ?_ ?_
  · rintro p _ _ hp ⟨rfl, -⟩
    exact hp
  · rintro p _ _ hp rfl
    exact hp

theorem extensiveForm : Sustains P (extensiveForm : Edit σ K (ExtensiveForm K)) := by
  unfold Program.extensiveForm
  refine .bind hP.generated fun _ => .bind .state fun p => ?_
  exact .bind (.lift _) fun _ => .bind (.lift _) fun _ => .pure _

theorem build (s : StructuredSolver σ K) : Sustains P s.build := by
  unfold StructuredSolver.build
  split
  · refine .bind (.bind hP.requireSolvable fun _ => .bind hP.extensiveForm
      fun _ => .bind .state fun _ => .bind (.ofAct _) fun _ => .pure _) fun _ => .pure _
  · refine .bind (.lift _) fun m => .bind (.bind hP.requireSolvable fun _ =>
      .bind (.lift _) fun _ => .bind .state fun _ => .bind (.ofAct _) fun _ => .pure _)
        fun _ => .pure _

theorem optimize (solver : Option (Solver σ K)) : Sustains P (optimize solver) := by
  unfold Program.optimize
  refine .bind .state fun p => .bind hP.generated fun _ => .bind (hP.validate none) fun _ => ?_
  split
  · exact .fail _
  · rename_i s _
    refine .bind (hP.build s) fun r => .bind .state fun p => .bind (.ofAct _) ?_
    rintro ⟨status, r⟩
    dsimp only
    split
    · exact .bind (hP.commitRun _ _) fun _ => .pure status
    · exact .pure status

/-- Every operation keeps what lasts. -/
theorem operation (op : Operation σ K) : Sustains P op.edit := by
  cases op with
  | setStageData key value => exact hP.setStageData key value
  | register key c defer => exact .bind (hP.register key c defer) fun _ => .pure ()
  | add offered worker defer => exact hP.add offered worker defer
  | addAll offered worker defer => exact hP.addAll offered worker defer
  | sample sampler n defer => exact hP.sample sampler n defer
  | validate normalize => exact hP.validate normalize
  | rebalance workers => exact hP.rebalance workers
  | generate => exact hP.generated
  | optimize solver => exact .bind (hP.optimize solver) fun _ => .pure ()

/-! ## Evaluations -/

theorem evaluate (x : List K) (solver : Option (Solver σ K)) : Sustains P (evaluate x solver) := by
  unfold Program.evaluate
  refine .bind hP.generated fun _ => .bind (hP.validate none) fun _ => ?_
  exact .bind (.of_reads (valuesAt_reads x solver)) fun _ => .bind .state fun _ => .pure _

theorem evaluateFully (x : List K) (solver : Option (Solver σ K)) :
    Sustains P (evaluateFully x solver) := by
  unfold Program.evaluateFully
  refine .bind hP.generated fun _ => .bind (hP.validate none) fun _ => ?_
  exact .bind (.of_reads (valuesAt_reads x solver)) fun _ => .bind .state fun _ => .pure _

theorem outcomeModel (ref : ScenarioRef K) (x : List K) :
    Sustains P (outcomeModel ref x : Edit σ K (Model K)) := by
  unfold Program.outcomeModel
  refine .bind hP.generated fun _ => .bind .state fun p => .bind (.lift _) fun _ => ?_
  split
  · exact .fail _
  · refine .bind (.lift _) fun decisions => .bind (.lift _) fun s => .bind (.ofAct _) fun m => ?_
    split
    · exact .pure _
    · exact .lift _

theorem evaluateScenario (ref : ScenarioRef K) (x : List K) (solver : Option (Solver σ K)) :
    Sustains P (evaluateScenario ref x solver) := by
  unfold Program.evaluateScenario
  refine .bind (hP.outcomeModel ref x) fun m => .bind .state fun p => ?_
  refine .bind (.lift _) fun _ => .bind (.lift _) fun _ => .bind (.lift _) fun _ => ?_
  refine .bind (.ofAct _) fun r => ?_
  dsimp only
  split
  · exact .fail_bind _ _
  · exact .pure _

omit hP in
theorem asked (act : Program σ K → Act σ K α) : Sustains P (Construct.asked act) :=
  .bind .state fun p => .bind (.ofAct (act p)) fun _ => .pure ()

/-- Every evaluation keeps what lasts. -/
theorem construct (c : Construct σ K) : Sustains P c.edit := by
  cases c with
  | waitAndSee ref solver => exact asked _
  | expectedWaitAndSee solver =>
    refine .bind (.bind (hP.validate none) fun _ => .bind .state fun p => ?_) fun _ => .pure ()
    exact .bind (.ofAct _) fun _ => .pure _
  | expectedProgram => exact asked _
  | expectedValue solver => exact asked _
  | expectedDecision solver => exact asked _
  | expectedResult solver =>
    exact .bind (.bind .state fun p => .bind (.ofAct _) fun x => hP.evaluate x solver)
      fun _ => .pure ()
  | evaluate x solver => exact .bind (hP.evaluate x solver) fun _ => .pure ()
  | evaluateFully x solver => exact .bind (hP.evaluateFully x solver) fun _ => .pure ()
  | evaluateScenario ref x solver =>
    exact .bind (hP.evaluateScenario ref x solver) fun _ => .pure ()
  | outcomes x solver =>
    exact .bind (.bind hP.generated fun _ => .bind (.of_reads (valuesAt_reads x solver))
      fun _ => .pure _) fun _ => .pure ()
  | outcomeModel ref x => exact .bind (hP.outcomeModel ref x) fun _ => .pure ()
  | extensiveForm => exact .bind hP.extensiveForm fun _ => .pure ()

/-! ## New programs -/

theorem createWith (s : Setup σ K) (scenarios : List (Scenario K)) :
    (createWith s scenarios).Ensures P fun _ => True := by
  unfold Program.createWith
  refine Act.ensures_bind ((hP.created s).mono (fun p hp => ?_) fun _ h => h)
  refine Act.ensures_bind (((hP.addAll _ none true).apply hp).mono ?_ fun _ h => h)
  exact fun _ h => Act.ensures_pure h

theorem instantiate (t : Template σ K) (s : Setup σ K) (scenarios : List (Scenario K))
    (defer : Bool) : (t.instantiate s scenarios defer).Ensures P fun _ => True := by
  unfold Template.instantiate
  split
  · exact Act.ensures_fail trivial
  · exact Act.ensures_fail trivial
  rename_i first second _ _
  refine Act.ensures_bind ((hP.created s).mono (fun p hp => ?_) fun _ h => h)
  have hedit : Sustains P (do
      setRecipe (.first first)
      setRecipe (.second second)
      Program.addAll (scenarios.map Offered.scenario) none true
      if !defer then Program.generate : Edit σ K Unit) := by
    refine .bind (hP.recipe _) fun _ => .bind (hP.recipe _) fun _ =>
      .bind (hP.addAll _ none true) fun _ => ?_
    split
    · exact hP.generated
    · exact .pure ()
  refine Act.ensures_bind ((hedit.apply hp).mono ?_ fun _ h => h)
  exact fun _ h => Act.ensures_pure h

end Lasting

/-! ## Every state of every program -/

/-- The states that programs get to, whatever their recipes do.  What is tried leads on to the
state that it leaves behind, refused or not. -/
inductive Attainable : Program σ K → Prop
  /-- A program was made without scenarios. -/
  | empty (s : Setup σ K) {ledger ledger' : Ledger σ K} {p : Program σ K}
      (h : (create s).run.run ledger = (.ok p, ledger')) : Attainable p
  /-- A program was made with scenarios. -/
  | filled (s : Setup σ K) (scenarios : List (Scenario K)) {ledger ledger' : Ledger σ K}
      {p : Program σ K} (h : (createWith s scenarios).run.run ledger = (.ok p, ledger')) :
      Attainable p
  /-- A program was made from a template. -/
  | instantiated (t : Template σ K) (s : Setup σ K) (scenarios : List (Scenario K)) (defer : Bool)
      {ledger ledger' : Ledger σ K} {p : Program σ K}
      (h : (t.instantiate s scenarios defer).run.run ledger = (.ok p, ledger')) : Attainable p
  /-- An operation was tried. -/
  | after {p : Program σ K} (h : Attainable p) (op : Operation σ K) (ledger : Ledger σ K) :
      Attainable ((op.edit.runOn p).run ledger).1.2
  /-- It was asked what the program, a scenario or a decision is worth. -/
  | evaluated {p : Program σ K} (h : Attainable p) (c : Construct σ K) (ledger : Ledger σ K) :
      Attainable (c.after p ledger)
  /-- A run of a solver was set up. -/
  | setUp {p : Program σ K} (h : Attainable p) (s : StructuredSolver σ K) (ledger : Ledger σ K) :
      Attainable ((s.build.runOn p).run ledger).1.2
  /-- The end of some run was handed over. -/
  | handedOver {p : Program σ K} (h : Attainable p) (s : StructuredSolver σ K) (r : SolverRun K)
      (ledger : Ledger σ K) : Attainable (((s.commit r).runOn p).run ledger).1.2
  /-- A solution was committed. -/
  | committed {p : Program σ K} (h : Attainable p) (solution : Solution K)
      (results : List (SolveResult K)) (master : Option (SolveResult K)) (ledger : Ledger σ K) :
      Attainable (((commit solution results master).runOn p).run ledger).1.2
  /-- The solver was replaced, or whether probabilities are rescaled. -/
  | configured {p : Program σ K} (h : Attainable p) (solver : Option (Solver σ K))
      (normalize : Bool) : Attainable { p with solver, normalize }

/-- Whatever is done to a program, what lasts is there in every state that it gets to. -/
theorem Lasting.attainable {P : Program σ K → Prop} (hP : Lasting P) {p : Program σ K}
    (h : Attainable p) : P p := by
  induction h with
  | empty s h => exact (hP.created s _).of_ok (congrArg Prod.fst h)
  | filled s scenarios h => exact (hP.createWith s scenarios _).of_ok (congrArg Prod.fst h)
  | instantiated t s scenarios defer h =>
    exact (hP.instantiate t s scenarios defer _).of_ok (congrArg Prod.fst h)
  | after _ op ledger ih => exact Change.Ensures.after (hP.operation op _ ih) ledger
  | evaluated _ c ledger ih => exact Change.Ensures.after (hP.construct c _ ih) ledger
  | setUp _ s ledger ih => exact Change.Ensures.after (hP.build s _ ih) ledger
  | handedOver _ s r ledger ih =>
    exact Change.Ensures.after (hP.commitRun s.label r.common _ ih) ledger
  | committed _ solution results master ledger ih =>
    exact Change.Ensures.after (hP.commit solution results master _ ih) ledger
  | @configured p _ solver normalize ih => exact hP.configured ih p.solution solver normalize

/-! ## States that are reached by operations -/

/-- What pure recipes lead to is among them. -/
theorem Reachable.attainable {p : Program σ K} (h : Reachable p) : p.Attainable := by
  induction h with
  | made h =>
    cases h with
    | empty s h => exact .empty s h
    | filled s _ h => exact .filled s _ h
    | instantiated _ _ s _ defer h => exact .instantiated _ s _ defer h
  | after _ _ ledger ih => exact ih.after _ ledger

theorem Attainable.perform {ops : List (Operation σ K)} {p : Program σ K} (h : p.Attainable)
    (ledger : Ledger σ K) : (perform ops p ledger).Attainable := by
  induction ops generalizing p ledger with
  | nil => exact h
  | cons op ops ih => exact ih (h.after op ledger) _

/-- Operations that can be evaluated lead to a program that passes a check. -/
theorem exists_attainable (s : Setup σ K) (ops : List (Operation σ K)) (ledger : Ledger σ K)
    (q : Program σ K → Bool) (h : (programAfter s ops ledger).any q = true) :
    ∃ p : Program σ K, p.Attainable ∧ q p = true := by
  unfold programAfter at h
  generalize hmade : (create s).run.run ledger = made at h
  obtain ⟨made, ledger'⟩ := made
  cases made with
  | ok p => exact ⟨Program.perform ops p ledger', (Attainable.empty s hmade).perform ledger', h⟩
  | error f => cases h

end Program

end Recourse
