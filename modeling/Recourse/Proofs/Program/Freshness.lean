/-
  Proofs/Program/Freshness.lean --- what a program hands out is up to date.

  A program is made empty and then worked on, and operations may be refused midway.  In
  every state it can get to, the models that are handed out are what the recipes give for
  the data there is now, and a solution was computed from what the program holds now
  (`Reachable.models_and_solution_fresh`).  One operation is a sequence of transitions
  (`Operation.edit_moves`), and every transition keeps `Invariant`; what is left is the
  state a program starts in, and the induction over the operations.
-/
import Recourse.Proofs.LShaped.Bounds
import Recourse.Proofs.Program.Operation

set_option autoImplicit false
set_option linter.unusedSectionVars false

namespace Recourse

variable {σ K : Type} [Scalar K]

namespace Program

/-! ## New programs -/

/-- A new program is in order, and it has no solution. -/
theorem create_ensures (s : Setup σ K) :
    (create s).Ensures (fun p => p.Consistent ∧ p.solution = none) fun _ => True := by
  unfold create
  refine Act.ensures_bind (Act.ensures_lift ((Settles.self _).mono (fun workers _ => ?_) ?_))
  · dsimp only
    split
    · exact Act.ensures_bind (Act.ensures_fail trivial)
    · rename_i hworkers
      refine Act.ensures_bind fun ledger => Act.ensures_pure ?_
      refine ⟨?_, rfl⟩
      refine ⟨fun r hr => (nomatch hr), fun r hr => (nomatch hr), fun m e hm => (nomatch hm),
        fun m hm => (nomatch hm), rfl, ?_, ?_⟩
      · simp only [ne_eq, List.map_eq_nil_iff, List.range_eq_nil]
        omega
      · simp [slots]
  · exact fun _ _ => trivial

variable [Host σ K]

/-- A program that was just made.  The recipes of a template are pure, and scenarios have
weights. -/
inductive Made : Program σ K → Prop
  /-- Without scenarios. -/
  | empty (s : Setup σ K) {ledger ledger' : Ledger σ K} {p : Program σ K}
      (h : (create s).run.run ledger = (.ok p, ledger')) : Made p
  /-- With scenarios. -/
  | filled (s : Setup σ K) {scenarios : List (Scenario K)}
      (hweights : ∀ c ∈ scenarios, Scalar.isWeight c.probability = true)
      {ledger ledger' : Ledger σ K} {p : Program σ K}
      (h : (createWith s scenarios).run.run ledger = (.ok p, ledger')) : Made p
  /-- From a template. -/
  | instantiated {t : Template σ K} (hfirst : ∀ r, t.first = some r → r.Pure)
      (hsecond : ∀ r, t.second = some r → r.Pure) (s : Setup σ K) {scenarios : List (Scenario K)}
      (hweights : ∀ c ∈ scenarios, Scalar.isWeight c.probability = true) (defer : Bool)
      {ledger ledger' : Ledger σ K} {p : Program σ K}
      (h : (t.instantiate s scenarios defer).run.run ledger = (.ok p, ledger')) : Made p

/-- What is offered as scenarios with weights is weighted. -/
theorem weighted_scenarios {scenarios : List (Scenario K)}
    (h : ∀ c ∈ scenarios, Scalar.isWeight c.probability = true) :
    ∀ o ∈ scenarios.map Offered.scenario, Offered.Weighted o := by
  intro o ho
  obtain ⟨c, hc, rfl⟩ := List.mem_map.1 ho
  exact h c hc

/-- A program that was made and then worked on before anybody saw it. -/
theorem apply_ensures {α : Type} {c : Edit σ K α} {p : Program σ K} (hp : p.Invariant)
    (hc : Moves c p) : (c.apply p).Ensures (fun a => a.2.Invariant) fun _ => True :=
  Change.ensures_apply (hc.mono (fun _ _ h => h.invariant hp) fun _ _ _ => trivial)

theorem createWith_ensures (s : Setup σ K) {scenarios : List (Scenario K)}
    (hweights : ∀ c ∈ scenarios, Scalar.isWeight c.probability = true) :
    (createWith s scenarios).Ensures Invariant fun _ => True := by
  unfold createWith
  refine Act.ensures_bind ((create_ensures s).mono ?_ fun _ h => h)
  rintro p ⟨hp, hnone⟩
  refine Act.ensures_bind ((apply_ensures (hp.invariant hnone)
    (addAll_moves hp (weighted_scenarios hweights) none true)).mono ?_ fun _ h => h)
  exact fun _ h => Act.ensures_pure h

theorem instantiate_ensures {t : Template σ K} (hfirst : ∀ r, t.first = some r → r.Pure)
    (hsecond : ∀ r, t.second = some r → r.Pure) (s : Setup σ K) {scenarios : List (Scenario K)}
    (hweights : ∀ c ∈ scenarios, Scalar.isWeight c.probability = true) (defer : Bool) :
    (t.instantiate s scenarios defer).Ensures Invariant fun _ => True := by
  unfold Template.instantiate
  split
  · exact Act.ensures_fail trivial
  · exact Act.ensures_fail trivial
  rename_i first second hf hs
  refine Act.ensures_bind ((create_ensures s).mono ?_ fun _ h => h)
  rintro p ⟨hp, hnone⟩
  refine Act.ensures_bind ((apply_ensures (hp.invariant hnone) ?_).mono ?_ fun _ h => h)
  · refine moves_bind_of_moves (setRecipe_moves (r := .first first) (hfirst first hf)) ?_
    intro _ p₁ h₁
    refine moves_bind_of_moves (setRecipe_moves (r := .second second) (hsecond second hs)) ?_
    intro _ p₂ h₂
    have hp₂ := (h₁.trans h₂).consistent hp
    refine moves_bind_of_moves (addAll_moves hp₂ (weighted_scenarios hweights) none true) ?_
    intro _ p₃ h₃
    split
    · exact generate_moves (h₃.consistent hp₂)
    · exact moves_pure _
  · exact fun _ h => Act.ensures_pure h

theorem Made.invariant {p : Program σ K} (h : Made p) : p.Invariant := by
  cases h with
  | empty s h =>
    obtain ⟨hp, hnone⟩ := ((create_ensures s) _).of_ok (congrArg Prod.fst h)
    exact hp.invariant hnone
  | filled s hweights h => exact (createWith_ensures s hweights _).of_ok (congrArg Prod.fst h)
  | instantiated hfirst hsecond s hweights defer h =>
    exact (instantiate_ensures hfirst hsecond s hweights defer _).of_ok (congrArg Prod.fst h)

/-! ## Every state of every program -/

/-- The states programs get to: an operation leads on to the state that it leaves behind,
refused or not. -/
inductive Reachable : Program σ K → Prop
  /-- A program was made. -/
  | made {p : Program σ K} (h : Made p) : Reachable p
  /-- An operation was tried. -/
  | after {p : Program σ K} {op : Operation σ K} (h : Reachable p) (hop : op.Allowed)
      (ledger : Ledger σ K) : Reachable ((op.edit.runOn p).run ledger).1.2

theorem Reachable.invariant (hK : Weighing K) {p : Program σ K} (h : Reachable p) :
    p.Invariant := by
  induction h with
  | made h => exact h.invariant
  | after _ hop ledger ih =>
    have hmoves := Operation.edit_moves hK ih.toConsistent hop
    exact (Change.Ensures.after hmoves ledger).invariant ih

/-- What a program hands out is up to date: its models, and its solution. -/
structure Fresh (p : Program σ K) : Prop extends p.ModelsFresh where
  /-- With a solution both stages are built, and it was found for a program with the same
  inputs, whose models were up to date. -/
  solution : ∀ s, p.solution = some s →
    p.stageState .first = .generated ∧ p.stageState .second = .generated ∧
      ∃ p₀ : Program σ K, p₀.SameInputs p ∧ p₀.isDeferred = false ∧ p₀.ModelsFresh ∧
        p₀.Computes s

theorem Invariant.fresh {p : Program σ K} (h : p.Invariant) : p.Fresh where
  toModelsFresh := h.toConsistent.modelsFresh
  solution := by
    intro s hs
    obtain ⟨hcurrent, -, p₀, horigin⟩ := h.solution s hs
    simp only [isDeferred, Bool.not_eq_false', Bool.and_eq_true, beq_iff_eq] at hcurrent
    exact ⟨hcurrent.1, hcurrent.2, p₀, horigin⟩

/-- In every state a program gets to, what it hands out is up to date. -/
theorem Reachable.models_and_solution_fresh (hK : Weighing K) {p : Program σ K}
    (h : Reachable p) : p.Fresh := (h.invariant hK).fresh

/-! ## Working on a program -/

/-- The program and the ledger after a list of operations was tried. -/
def perform : List (Operation σ K) → Program σ K → Ledger σ K → Program σ K
  | [], p, _ => p
  | op :: ops, p, ledger =>
      perform ops ((op.edit.runOn p).run ledger).1.2 ((op.edit.runOn p).run ledger).2

theorem Reachable.perform {ops : List (Operation σ K)} (hops : ∀ op ∈ ops, op.Allowed)
    {p : Program σ K} (h : Reachable p) (ledger : Ledger σ K) :
    Reachable (perform ops p ledger) := by
  induction ops generalizing p ledger with
  | nil => exact h
  | cons op ops ih =>
    refine ih (fun op hop => hops op (List.mem_cons_of_mem _ hop)) ?_ _
    exact h.after (hops op List.mem_cons_self) ledger

/-- The program that is there after a list of operations was tried on a new one. -/
def programAfter (s : Setup σ K) (ops : List (Operation σ K)) (ledger : Ledger σ K) :
    Option (Program σ K) :=
  match (create s).run.run ledger with
  | (.ok p, ledger) => some (perform ops p ledger)
  | (.error _, _) => none

/-- Operations that can be evaluated lead to a program that passes a check. -/
theorem exists_reachable (s : Setup σ K) {ops : List (Operation σ K)}
    (hops : ∀ op ∈ ops, op.Allowed) (ledger : Ledger σ K) (q : Program σ K → Bool)
    (h : (programAfter s ops ledger).any q = true) : ∃ p, Reachable p ∧ q p = true := by
  unfold programAfter at h
  generalize hmade : (create s).run.run ledger = made at h
  obtain ⟨r, ledger'⟩ := made
  cases r with
  | ok p => exact ⟨perform ops p ledger', (Reachable.made (.empty s hmade)).perform hops ledger', h⟩
  | error f => cases h

/-- The stock, whatever the data. -/
def stockRecipe : FirstRecipe (Transcript ℚ) (Exact ℚ) where
  name := "stock"
  build := fun _ => pure (.model LShaped.stock)

theorem stockRecipe_pure : stockRecipe.Pure := fun _ => Act.effectless_pure _

/-- What the stock lacks is bought at the price that the payload names. -/
def shortageRecipe : SecondRecipe (Transcript ℚ) (Exact ℚ) where
  name := "shortage"
  build := fun _ _ payload =>
    match payload with
    | .real (.finite price) => pure (.model (LShaped.shortage price))
    | _ => Act.fail (.misuse .value)

theorem shortageRecipe_pure : shortageRecipe.Pure := by
  intro data decisions payload
  show Act.Effectless (match payload with | .real (.finite _) => _ | _ => _)
  split
  · exact Act.effectless_pure _
  · exact Act.effectless_fail _

/-- A price, as likely as another one. -/
def priced (price : ℚ) : Scenario (Exact ℚ) := ⟨.finite (1 / 2), .real (.finite price), none⟩

/-- The stock is set up with two prices. -/
def stockSetup : List (Operation (Transcript ℚ) (Exact ℚ)) :=
  [.register (.ofInt 1) (.recipe (.first stockRecipe)) true,
    .register (.ofInt 2) (.recipe (.second shortageRecipe)) true,
    .addAll [.scenario (priced 3), .scenario (priced 1)] none false]

theorem stockSetup_allowed : ∀ op ∈ stockSetup, op.Allowed := by
  have hpriced : ∀ price : ℚ, Scalar.isWeight (priced price).probability = true := fun _ =>
    (Exact.isWeight_iff _).2 ⟨1 / 2, rfl, by norm_num, by norm_num⟩
  simp only [stockSetup, List.forall_mem_cons, List.not_mem_nil, false_implies, implies_true,
    and_true, Operation.Allowed]
  exact ⟨stockRecipe_pure, shortageRecipe_pure, hpriced 3, hpriced 1⟩

/-- The stock is solved.  Then something is offered that is no scenario, and the prices are
spread over two partitions. -/
def stockOperations : List (Operation (Transcript ℚ) (Exact ℚ)) :=
  stockSetup ++ [.optimize none, .add (.other "float") none false, .rebalance (.ofInt 2)]

theorem stockOperations_allowed : ∀ op ∈ stockOperations, op.Allowed := by
  refine List.forall_mem_append.2 ⟨stockSetup_allowed, ?_⟩
  simp only [List.forall_mem_cons, List.not_mem_nil, false_implies, implies_true, and_true,
    Operation.Allowed]
  exact ⟨trivial, trivial⟩

/-- The whole stock is full at the optimum. -/
def fullStock : Transcript ℚ where
  findings := [.optimal ⟨[.finite 3, 0, 0], .finite 3, [-1, 0], [],
    [0, .finite (1 / 2), .finite (1 / 2)], [0, 0, 0], 0⟩]

/-- The stock keeps its solution, and it is fresh. -/
theorem stock_models_and_solution_fresh : ∃ p : Program (Transcript ℚ) (Exact ℚ), Reachable p ∧
    p.solution.map (fun s => (s.decision, s.objective)) = some ([.finite 3], .finite 3) ∧
      p.partitionSizes = [1, 1] ∧ p.Fresh := by
  obtain ⟨p, hp, hstate⟩ := exists_reachable Setup.standard stockOperations_allowed
    ⟨fullStock, [], 0⟩
    (fun p => p.solution.map (fun s => (s.decision, s.objective)) == some ([.finite 3], .finite 3)
      && p.partitionSizes == [1, 1])
    (by decide +kernel)
  simp only [Bool.and_eq_true, beq_iff_eq] at hstate
  exact ⟨p, hp, hstate.1, hstate.2, hp.models_and_solution_fresh Exact.weighing⟩

end Program

end Recourse
