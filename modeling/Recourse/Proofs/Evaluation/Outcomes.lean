/-
  Proofs/Evaluation/Outcomes.lean --- every way of evaluating a decision comes to the same.

  Evaluating a decision over all scenarios solves the subproblems that the program holds, in
  jobs on its partitions, and hands the decision to the backend.  Evaluating it for one
  scenario builds the model anew and stores the decision in it.  With a backend that is a
  function both solve one linear program (`standardForm_fixed`), since what a program holds
  is what its recipe gives, up to a result that was loaded.  `EvaluatedAlike` says what follows
  for the calls: the outcomes one by one and together, their expectation and its statistics, and
  which failure surfaces.
-/
import Recourse.Proofs.Evaluation.Reproduction
import Recourse.Proofs.Layout.Work
import Recourse.Proofs.Transport.Interleaving
import Recourse.Script.Bench

set_option autoImplicit false
set_option linter.unusedSectionVars false

open scoped BigOperators

namespace Recourse

/-! ## Lists of computations -/

/-- Computations for the items of a list depend on what is computed for these. -/
theorem mapM_congr {ε α β : Type} {f g : α → Except ε β} {as : List α}
    (h : ∀ a ∈ as, f a = g a) : as.mapM f = as.mapM g := by
  have hmap (f : α → Except ε β) : as.mapM f = (as.map f).mapM id := by
    rw [List.mapM_map]
    rfl
  rw [hmap f, hmap g, List.map_congr_left h]

/-- A list of numbers in order is cut at one of them. -/
theorem exists_range_eq_append {i n : Nat} (h : i < n) :
    ∃ after, List.range n = List.range i ++ i :: after := by
  refine ⟨(List.range n).drop (i + 1), ?_⟩
  conv_lhs => rw [← List.take_append_drop i (List.range n)]
  rw [List.take_range, min_eq_left h.le, List.drop_eq_getElem_cons (by simpa using h),
    List.getElem_range]

/-! ## Answers that do not depend on the ledger -/

namespace Change

variable {S σ K α : Type}

/-- Whatever the ledger, a change of a state gives this answer. -/
def Answers (c : Change S σ K α) (s : S) (r : Except (Fault K) α) : Prop :=
  ∀ ledger, ((c.runOn s).run ledger).1.1 = r

theorem answers_of_ensures {c : Change S σ K α} {s : S} {r : Except (Fault K) α}
    (h : σ → c.Ensures s (fun a _ => r = .ok a) fun f _ => r = .error f) : c.Answers s r := by
  intro ledger
  have hledger := h ledger.env ledger
  show (c.run.run (s, ledger)).1 = r
  generalize (c.run.run (s, ledger)).1 = r' at hledger ⊢
  cases r' <;> exact Eq.symm hledger

end Change

variable {σ K : Type}

/-- A backend that is a function: neither its engine nor its report does anything but answer. -/
structure Backend.Functional [Host σ K] (b : Backend σ K) : Prop where
  /-- The verdict of the engine depends on the program and the effort alone. -/
  engine : ∀ (h : HandedProgram K) (e : Effort K), (Host.optimize h e : Act σ K _).Effectless
  /-- What is reported depends on what is found alone. -/
  report : ∀ r, (b.report r).Effectless

variable [Scalar K] [Host σ K]

theorem LinearProgram.solve_effectless
    (h : ∀ (h : HandedProgram K) (e : Effort K), (Host.optimize h e : Act σ K _).Effectless)
    (p : LinearProgram K) (params : Setting K) : (p.solve params : Act σ K _).Effectless := by
  unfold solve
  refine (Act.effectless_lift _).bind fun _ => (Act.effectless_lift _).bind fun limits => ?_
  refine (Act.effectless_lift _).bind fun split => (Act.effectless_lift _).bind fun effort => ?_
  dsimp only
  split
  · exact (Act.effectless_fail _).bind fun _ => (h _ _).bind fun verdict => by
      cases verdict <;> exact Act.effectless_pure _
  · refine (h _ _).bind fun verdict => ?_
    cases verdict <;> exact Act.effectless_pure _

/-- A function has one answer for a model and a decision. -/
theorem Backend.Functional.optimize_effectless {b : Backend σ K} (hb : b.Functional) (m : Model K)
    (decision : Option (List K)) : (b.optimize m decision).Effectless := by
  unfold optimize
  refine (Act.effectless_lift _).bind fun form => ?_
  exact (LinearProgram.solve_effectless hb.engine _ _).bind fun r => hb.report _

/-! ## A decision that is stored and one that is handed over -/

namespace Model

omit [Host σ K] in
/-- A model that was built anew takes a decision, and with the decision stored it has the form
that the model held for it has at the decision. -/
theorem standardForm_fixed {m m₀ : Model K} (h : m.LoadedFrom m₀) {x : List K}
    (hx : m₀.decisionCount = 0 ∨ m₀.decisionCount = x.length) :
    ∃ m₁, (if m₀.decisionCount = 0 then pure m₀ else m₀.fixDecisions (some x)) =
        (.ok m₁ : Except (Fault K) _) ∧
      m₁.standardForm none = m.standardForm (some x) := by
  have hform : m.standardForm (some x) = m₀.standardForm (some x) := by
    obtain rfl | ⟨r, rfl⟩ := h <;> rfl
  rw [hform]
  by_cases hcount : m₀.decisionCount = 0
  · refine ⟨m₀, if_pos hcount, ?_⟩
    unfold standardForm decisionFor
    simp only [if_pos hcount]
  · refine ⟨{ m₀ with fixed := some x }, ?_, rfl⟩
    rw [if_neg hcount, fixDecisions, checkDecision, if_pos (hx.resolve_left hcount).symm]
    rfl

end Model

/-! ## Statistics -/

/-- Of a list from which one item after the other is chosen or not, the last choice is one of the
items, and it stands to all of them as every choice stands to what it was made from. -/
theorem foldl_choice {α : Type} {op : α → α → α} {R : α → α → Prop} (hrefl : ∀ a, R a a)
    (hop : ∀ a b, op a b = a ∨ op a b = b) (hR : ∀ w a b, R w (op a b) → R w a ∧ R w b)
    (as : List α) (a : α) :
    (as.foldl op a = a ∨ as.foldl op a ∈ as) ∧ R (as.foldl op a) a ∧
      ∀ b ∈ as, R (as.foldl op a) b := by
  induction as generalizing a with
  | nil => exact ⟨Or.inl rfl, hrefl a, fun _ h => absurd h List.not_mem_nil⟩
  | cons b as ih =>
    obtain ⟨hmem, hfirst, hrest⟩ := ih (op a b)
    obtain ⟨ha, hb⟩ := hR _ _ _ hfirst
    rw [List.foldl_cons]
    refine ⟨?_, ha, List.forall_mem_cons.2 ⟨hb, hrest⟩⟩
    rcases hmem with heq | hmem
    · rw [heq, List.mem_cons]
      exact (hop a b).imp_right Or.inl
    · exact Or.inr (List.mem_cons_of_mem _ hmem)

variable {F : Type} [Field F] [LinearOrder F] [IsStrictOrderedRing F] [FloorRing F]

namespace Exact

/-- The better of two numbers, undefined as soon as one of them is. -/
def prefer (better : Exact F → Exact F → Bool) (a b : Exact F) : Exact F :=
  if Scalar.isUndefined a then a else if Scalar.isUndefined b then b
  else if better a b then b else a

theorem maximum_eq_prefer : (Scalar.maximum : Exact F → _) = prefer Scalar.less := rfl

theorem minimum_eq_prefer : (Scalar.minimum : Exact F → _) = prefer (flip Scalar.less) := rfl

/-- A comparison of numbers that ranks them: where `w` is worse than `a`, it is worse than
whatever is not worse than `a`. -/
structure Ranks (better : Exact F → Exact F → Bool) : Prop where
  irrefl : ∀ a, better a a = false
  asymm : ∀ a b, better a b = true → better b a = false
  undefined : ∀ a, better .undefined a = false
  lift : ∀ w a b, better w a = true → b ≠ .undefined → better b a = false → better w b = true

theorem ranks_less : Ranks (Scalar.less : Exact F → Exact F → Bool) where
  irrefl a := by cases a <;> simp [Scalar.less, lt]
  asymm a b h := by
    cases a <;> cases b <;> simp_all [Scalar.less, lt]
    exact h.le
  undefined a := by cases a <;> rfl
  lift w a b h hb hba := by
    cases w <;> cases a <;> cases b <;> simp_all [Scalar.less, lt]
    exact lt_of_lt_of_le h hba

theorem ranks_flip_less : Ranks (flip Scalar.less : Exact F → Exact F → Bool) where
  irrefl a := ranks_less.irrefl a
  asymm a b h := ranks_less.asymm b a h
  undefined a := by cases a <;> rfl
  lift w a b h hb hba := by
    simp only [flip] at h hba ⊢
    cases w <;> cases a <;> cases b <;> simp_all [Scalar.less, lt]
    exact lt_of_le_of_lt hba h

/-- Nothing is better, and it is undefined as soon as the other is. -/
def Tops (better : Exact F → Exact F → Bool) (w a : Exact F) : Prop :=
  better w a = false ∧ (a = .undefined → w = .undefined)

theorem Ranks.tops_prefer {better : Exact F → Exact F → Bool} (h : Ranks better) {w a b : Exact F}
    (htops : Tops better w (prefer better a b)) : Tops better w a ∧ Tops better w b := by
  have hundefined (c : Exact F) : Tops better .undefined c := ⟨h.undefined c, fun _ => rfl⟩
  unfold prefer at htops
  simp only [isUndefined_iff] at htops
  split_ifs at htops with ha hb hless
  · obtain rfl := htops.2 ha
    exact ⟨hundefined a, hundefined b⟩
  · obtain rfl := htops.2 hb
    exact ⟨hundefined a, hundefined b⟩
  · refine ⟨⟨?_, fun h => absurd h ha⟩, htops⟩
    by_contra hwa
    have hwb := h.lift w a b (by simpa using hwa) hb (h.asymm a b hless)
    exact absurd (htops.1.symm.trans hwb) Bool.false_ne_true
  · refine ⟨htops, ⟨?_, fun h => absurd h hb⟩⟩
    by_contra hwb
    have hwa := h.lift w b a (by simpa using hwb) ha (by simpa using hless)
    exact absurd (htops.1.symm.trans hwa) Bool.false_ne_true

/-- The best of a list is one of the items, and none is better. -/
theorem Ranks.foldl_prefer {better : Exact F → Exact F → Bool} (h : Ranks better)
    {xs : List (Exact F)} (hxs : xs ≠ []) :
    let w := xs.foldl (prefer better) (xs.headD Scalar.undefined)
    w ∈ xs ∧ ∀ x ∈ xs, better w x = false := by
  obtain ⟨a, rest, rfl⟩ := List.exists_cons_of_ne_nil hxs
  have hchoice (a b : Exact F) : prefer better a b = a ∨ prefer better a b = b := by
    unfold prefer
    split_ifs <;> simp
  obtain ⟨hmem, -, hall⟩ := foldl_choice (R := Tops better) (fun a => ⟨h.irrefl a, id⟩) hchoice
    (fun _ _ _ => h.tops_prefer) (a :: rest) a
  refine ⟨?_, fun x hx => (hall x hx).1⟩
  rcases hmem with heq | hmem
  · exact List.mem_cons.2 (Or.inl heq)
  · exact hmem

end Exact

/-- The statistics of a decision, from its first-stage value, the probabilities and the values of
the subproblems. -/
def Evaluation.summary (first : Exact F) (probabilities values : List (Exact F)) :
    Evaluation (Exact F) where
  objective := first + Scalar.dot probabilities values
  firstStage := first
  expectedRecourse := Scalar.dot probabilities values
  variance := Scalar.dot probabilities
    (values.map fun v => Scalar.square (v - Scalar.dot probabilities values))
  worst := values.foldl Scalar.maximum (values.headD Scalar.undefined)
  best := values.foldl Scalar.minimum (values.headD Scalar.undefined)
  scenarioCount := values.length

/-- An evaluation reports the objective of a decision, and statistics of the subproblems: the
expectation, the variance about it and the extremes of their values. -/
structure Evaluation.Summarizes (e : Evaluation (Exact F)) (first : Exact F)
    (probabilities values : List (Exact F)) : Prop where
  /-- The objective is the first-stage value plus the expectation. -/
  objective : e.objective = first + Scalar.dot probabilities values
  /-- The first-stage value. -/
  firstStage : e.firstStage = first
  /-- The expectation. -/
  expected : e.expectedRecourse = Scalar.dot probabilities values
  /-- The expected square of the distance from the expectation. -/
  variance : e.variance = Scalar.dot probabilities
    (values.map fun v => Scalar.square (v - e.expectedRecourse))
  /-- The worst value is one of the values, and none is larger. -/
  worst : e.worst ∈ values ∧ ∀ v ∈ values, Scalar.less e.worst v = false
  /-- The best value is one of the values, and none is smaller. -/
  best : e.best ∈ values ∧ ∀ v ∈ values, Scalar.less v e.best = false
  /-- The number of values. -/
  count : e.scenarioCount = values.length

theorem Evaluation.summary_summarizes (first : Exact F) (probabilities : List (Exact F))
    {values : List (Exact F)} (hvalues : values ≠ []) :
    (summary first probabilities values).Summarizes first probabilities values where
  objective := rfl
  firstStage := rfl
  expected := rfl
  variance := rfl
  worst := by
    rw [summary, Exact.maximum_eq_prefer]
    exact Exact.ranks_less.foldl_prefer hvalues
  best := by
    rw [summary, Exact.minimum_eq_prefer]
    exact Exact.ranks_flip_less.foldl_prefer hvalues
  count := rfl

namespace Program

variable [Host σ (Exact F)] {p : Program σ (Exact F)} {x : List (Exact F)}
  {solver : Option (Solver σ (Exact F))}

/-! ## What a decision is worth in one scenario -/

/-- The first-stage value of a decision, refused where it has the wrong length or violates the
first stage. -/
def firstValue (p : Program σ (Exact F)) (x : List (Exact F)) :
    Except (Fault (Exact F)) (Exact F) := do
  p.checkDecision x
  firstStageValue p.firstStage x

/-- The value of a subproblem, refused with an index where it was not solved to optimality. -/
def optimumOf (index : Option Int) (r : SolveResult (Exact F)) :
    Except (Fault (Exact F)) (Exact F) := do
  if r.status ≠ .optimal then throw (.solveFailure r.status index .solve)
  return r.objective

/-- What a decision is worth, from its first-stage value and the answer for a subproblem. -/
def outcomeOf (first : Except (Fault (Exact F)) (Exact F)) (index : Option Int)
    (answer : Except (Fault (Exact F)) (SolveResult (Exact F))) :
    Except (Fault (Exact F)) (Exact F) := do
  let first ← first
  let value ← answer >>= optimumOf index
  return first + value

theorem outcomeOf_ok (first : Exact F) (index : Option Int)
    (answer : Except (Fault (Exact F)) (SolveResult (Exact F))) :
    outcomeOf (.ok first) index answer = (answer >>= optimumOf index).map (first + ·) := by
  show (answer >>= optimumOf index) >>= (fun v => pure (first + v)) = _
  cases answer >>= optimumOf index <;> rfl

theorem outcomeOf_eq_ok {first v : Exact F} {index : Option Int}
    {answer : Except (Fault (Exact F)) (SolveResult (Exact F))} :
    outcomeOf (.ok first) index answer = .ok v ↔
      ∃ r, answer >>= optimumOf index = .ok r ∧ v = first + r := by
  rw [outcomeOf_ok]
  cases answer >>= optimumOf index with
  | error f => simp [Except.map]
  | ok r => simp [Except.map, eq_comm]

theorem outcomeOf_eq_error {first : Exact F} {index : Option Int}
    {answer : Except (Fault (Exact F)) (SolveResult (Exact F))} {f : Fault (Exact F)} :
    outcomeOf (.ok first) index answer = .error f ↔ answer >>= optimumOf index = .error f := by
  rw [outcomeOf_ok]
  cases answer >>= optimumOf index <;> simp [Except.map]

theorem outcomeOf_of_optimal (first : Exact F) (index : Option Int) {r : SolveResult (Exact F)}
    (h : r.status = .optimal) :
    outcomeOf (.ok first) index (.ok r) = .ok (first + r.objective) := by
  rw [outcomeOf_ok]
  show (optimumOf index r).map _ = _
  rw [optimumOf, if_neg (not_not.2 h)]
  rfl

theorem outcomeOf_of_not_optimal (first : Exact F) (index : Option Int)
    {r : SolveResult (Exact F)} (h : r.status ≠ .optimal) :
    outcomeOf (.ok first) index (.ok r) = .error (.solveFailure r.status index .solve) := by
  rw [outcomeOf_ok]
  show (optimumOf index r).map _ = _
  rw [optimumOf, if_pos h]
  rfl

/-- The note that everything is built does not undo that it is. -/
theorem isDeferred_noted (hcurrent : p.isDeferred = false) (hnonempty : 0 < p.scenarioCount)
    (generated : Option Int) : ({ p with generatedEpoch := generated }).isDeferred = false := by
  obtain ⟨hfirst, hsecond, hmaster, hslots⟩ := isBuilt_of_not_isDeferred hcurrent
  exact IsBuilt.isDeferred_eq_false (p := { p with generatedEpoch := generated })
    ⟨hfirst, hsecond, hmaster, hslots⟩ hnonempty

/-- The model of a scenario that is built anew takes the decisions of the program, and with one
of them stored it has the form of the model that the program holds. -/
theorem Consistent.exists_rebuilt (env : σ) (hp : p.Consistent) (hcurrent : p.isDeferred = false)
    {i : Nat} (hi : i < p.scenarioCount) (hx : p.checkDecision x = .ok ()) :
    ∃ c r d m₀ m₁, p.scenarios[i]? = some c ∧ p.secondRecipe = some r ∧
      p.currentDecisions = .ok d ∧ r.generate p.secondData d c.data = .ofExcept (.ok m₀) ∧
      (if m₀.decisionCount = 0 then pure m₀ else m₀.fixDecisions (some x)) =
        (.ok m₁ : Except (Fault (Exact F)) _) ∧
      m₁.standardForm none = (p.recourse i).standardForm (some x) := by
  obtain ⟨c, r, d, m₀, hc, hr, hd, hgives, hloaded⟩ := hp.gives_recourse hcurrent hi
  have hdecisions : p.currentDecisions = .ok d := by rw [currentDecisions, hd]
  have hlength : x.length = d.names.length := by
    rw [checkDecision, decisionCount, hdecisions] at hx
    by_contra hne
    simp [Except.map, bind, Except.bind, hne, throw, throwThe, MonadExceptOf.throw] at hx
  obtain ⟨m₁, hfixed, hform⟩ := Model.standardForm_fixed hloaded
    (hlength ▸ hgives.placeholders env)
  exact ⟨c, r, d, m₀, m₁, hc, hr, hdecisions, hgives, hfixed, hform⟩

/-- The model of a scenario with the decision stored has the form of the one that is held at the
decision.  It is refused only where the decision has the wrong length. -/
theorem Consistent.outcomeModel_ensures (env : σ) (hp : p.Consistent)
    (hcurrent : p.isDeferred = false) {i : Nat} (hi : i < p.scenarioCount)
    {ref : ScenarioRef (Exact F)} {c : Scenario (Exact F)} (hc : p.scenarios[i]? = some c)
    (href : p.resolve ref = .ok c) :
    (outcomeModel ref x).Ensures p
      (fun m q => Marked p q ∧ p.checkDecision x = .ok () ∧
        m.standardForm none = (p.recourse i).standardForm (some x))
      fun f _ => p.checkDecision x = .error f := by
  unfold outcomeModel
  refine Change.ensures_bind ((generate_ensures hcurrent).mono ?_ fun _ _ h => h.elim)
  -- `q` differs from `p` in the note that everything is built, which none of these reads.
  intro _ q hq
  have hcheck : q.checkDecision x = p.checkDecision x := by rw [hq]; rfl
  have hrecipe : q.secondRecipe = p.secondRecipe := by rw [hq]
  have hdecisions : q.currentDecisions = p.currentDecisions := by rw [hq]; rfl
  have hresolve : q.resolve ref = p.resolve ref := by rw [hq]; rfl
  have hdata : q.secondData = p.secondData := by rw [hq]
  refine Change.ensures_bind (Change.ensures_state (Change.ensures_bind (Change.ensures_lift ?_)))
  rw [hcheck]
  refine (Settles.exactly (p.checkDecision x)).mono (fun _ hx => ?_) fun _ h => h
  obtain ⟨c', r, d, m₀, m₁, hc', hr, hd, hgives, hfixed, hform⟩ :=
    hp.exists_rebuilt env hcurrent hi hx
  obtain rfl : c = c' := Option.some.inj (hc.symm.trans hc')
  rw [hrecipe, hr]
  dsimp only
  rw [hdecisions, hd, hresolve, href, hdata]
  refine Change.ensures_bind (Change.ensures_pure (Change.ensures_bind (Change.ensures_pure ?_)))
  refine Change.ensures_bind (Change.ensures_ofAct ?_)
  rw [hgives]
  refine Act.ensures_ofExcept ?_
  unfold Settles
  dsimp only
  by_cases hcount : m₀.decisionCount = 0
  · rw [if_pos hcount] at hfixed ⊢
    obtain rfl := Except.ok.inj hfixed
    exact Change.ensures_pure ⟨⟨_, hq⟩, hx, hform⟩
  · rw [if_neg hcount] at hfixed ⊢
    rw [hfixed]
    exact Change.ensures_pure ⟨⟨_, hq⟩, hx, hform⟩

/-- Evaluating a decision for one scenario comes to what the subproblem that is held for it gives
at the decision. -/
theorem Consistent.evaluateScenario_answers (hp : p.Consistent) (hcurrent : p.isDeferred = false)
    {i : Nat} (hi : i < p.scenarioCount) {ref : ScenarioRef (Exact F)} {c : Scenario (Exact F)}
    (hc : p.scenarios[i]? = some c) (href : p.resolve ref = .ok c)
    {answer : Except (Fault (Exact F)) (SolveResult (Exact F))}
    (hanswer : (p.backendFor solver).optimize (p.recourse i) (some x) = .ofExcept answer) :
    (evaluateScenario ref x solver).Answers p (outcomeOf (p.firstValue x) ref.index? answer) := by
  refine Change.answers_of_ensures fun env => ?_
  unfold evaluateScenario
  refine Change.ensures_bind ((hp.outcomeModel_ensures env hcurrent hi hc href).mono ?_ ?_)
  swap
  · intro f _ hf
    rw [firstValue, hf]
    rfl
  intro m q ⟨hmarked, hx, hform⟩
  have hcheck : q.checkDecision x = .ok () := by
    obtain ⟨g, rfl⟩ := hmarked
    exact hx
  have hmaster : q.stageOneModel = .ok p.firstStage := by
    obtain ⟨g, rfl⟩ := hmarked
    exact stageOneModel_eq (p := p) hcurrent
  have hsolve : (q.backendFor solver).optimize m none = .ofExcept answer := by
    obtain ⟨g, rfl⟩ := hmarked
    rw [← hanswer, Backend.optimize, hform]
    rfl
  have hfirst : p.firstValue x = firstStageValue p.firstStage x := by rw [firstValue, hx]; rfl
  refine Change.ensures_bind (Change.ensures_state ?_)
  rw [hcheck, hmaster, hsolve, hfirst]
  refine Change.ensures_bind (Change.ensures_pure (Change.ensures_bind (Change.ensures_pure ?_)))
  refine Change.ensures_bind (Change.ensures_lift ?_)
  refine (Settles.exactly (firstStageValue p.firstStage x)).mono (fun first hvalue => ?_)
    fun f hf => by rw [hf]; rfl
  rw [hvalue]
  refine Change.ensures_bind (Change.ensures_ofAct (Act.ensures_ofExcept ?_))
  refine (Settles.exactly answer).mono (fun r hr => ?_) fun f hf => by rw [hf]; rfl
  rw [hr]
  dsimp only
  split
  · rename_i hstatus
    exact Change.ensures_bind (Change.ensures_fail (outcomeOf_of_not_optimal _ _ hstatus))
  · rename_i hstatus
    exact Change.ensures_pure (outcomeOf_of_optimal _ _ (not_not.1 hstatus))

/-! ## What it is worth in all scenarios -/

/-- What is collected from the subproblems of a program that is built, up to the first refusal
in global order. -/
theorem collect_eq_mapM {α : Type} (hcurrent : p.isDeferred = false)
    (job : Int × Scenario (Exact F) × Option (Model (Exact F)) → Except (Fault (Exact F)) α)
    (ledger : Ledger σ (Exact F)) :
    ((p.collect true fun i c m => .ofExcept (job (i, c, m))).run.run ledger).1 =
      (List.range p.scenarioCount).mapM fun i : Nat =>
        job (i, (p.slots.getD i default).scenario, some (p.recourse i)) := by
  have hslots := p.collect_agrees_slots
    (fun _ : true = true => isCurrent_of_not_isDeferred hcurrent)
    (fun i c m => (.ofExcept (job (i, c, m)) : Act σ (Exact F) α))
  have hjobs : jobAt true (fun i c m => (.ofExcept (job (i, c, m)) : Act σ (Exact F) α)) =
      fun s => .ofExcept (job (s.2, s.1.scenario, s.1.model?)) := rfl
  rw [hjobs, Act.forEach_ofExcept] at hslots
  refine ((hslots ledger).1.eq fun _ _ h => h).symm.trans ?_
  show p.slots.zipIdx.mapM _ = _
  rw [zipIdx_eq_map_range p.slots default, List.mapM_map]
  -- The model in the slot of a scenario is its recourse, since nothing is deferred.
  refine mapM_congr fun i hi => ?_
  obtain ⟨s, hs, hbuilt⟩ := exists_slot hcurrent (List.mem_range.1 hi)
  have hmodel : s.model? = some (p.recourse i) := by rw [Slot.model?, hbuilt]; rfl
  simp only [Function.comp_apply, List.getD_eq_getElem?_getD, hs, Option.getD_some, hmodel]

/-- What is answered for the subproblem of a scenario, if there is one. -/
def valueIn (answer : Model (Exact F) → Except (Fault (Exact F)) (SolveResult (Exact F)))
    (s : Int × Scenario (Exact F) × Option (Model (Exact F))) :
    Except (Fault (Exact F)) (Exact F) :=
  match s.2.2 with
  | some m => answer m >>= optimumOf (some s.1)
  | none => .error (.misuse .attribute)

theorem recourseValues_eq_collect {b : Backend σ (Exact F)}
    {answer : Model (Exact F) → Except (Fault (Exact F)) (SolveResult (Exact F))}
    (hanswer : ∀ m, b.optimize m (some x) = .ofExcept (answer m)) :
    p.recourseValues x b = p.collect true fun i c m => .ofExcept (valueIn answer (i, c, m)) := by
  unfold recourseValues
  congr 1
  funext i c m
  cases m with
  | none => rfl
  | some m =>
    show (b.optimize m (some x) >>= fun r => _) = .ofExcept (answer m >>= optimumOf (some i))
    rw [hanswer]
    cases answer m with
    | error f => rfl
    | ok r =>
      show (if r.status ≠ .optimal then _ else _) = Act.ofExcept (optimumOf (some i) r)
      unfold optimumOf
      split <;> rfl

/-- The values of the subproblems at a decision, up to the first that has none. -/
theorem recourseValues_run (hcurrent : p.isDeferred = false) {b : Backend σ (Exact F)}
    {answer : Model (Exact F) → Except (Fault (Exact F)) (SolveResult (Exact F))}
    (hanswer : ∀ m, b.optimize m (some x) = .ofExcept (answer m)) (ledger : Ledger σ (Exact F)) :
    ((p.recourseValues x b).run.run ledger).1 =
      (List.range p.scenarioCount).mapM fun i : Nat =>
        answer (p.recourse i) >>= optimumOf (some i) := by
  rw [recourseValues_eq_collect hanswer]
  exact collect_eq_mapM hcurrent (valueIn answer) ledger

/-- The first-stage value of a decision and the values of the subproblems, up to the first
refusal. -/
def valuesOf (p : Program σ (Exact F)) (x : List (Exact F))
    (answer : Model (Exact F) → Except (Fault (Exact F)) (SolveResult (Exact F))) :
    Except (Fault (Exact F)) (Exact F × List (Exact F)) := do
  let first ← p.firstValue x
  let values ← (List.range p.scenarioCount).mapM fun i : Nat =>
    answer (p.recourse i) >>= optimumOf (some i)
  return (first, values)

section Values

variable {answer : Model (Exact F) → Except (Fault (Exact F)) (SolveResult (Exact F))}

theorem recourseValues_settled (hcurrent : p.isDeferred = false) {b : Backend σ (Exact F)}
    (hanswer : ∀ m, b.optimize m (some x) = .ofExcept (answer m)) {first : Exact F}
    (hfirst : p.firstValue x = .ok first) :
    (p.recourseValues x b).Ensures (fun values => p.valuesOf x answer = .ok (first, values))
      fun f => p.valuesOf x answer = .error f := by
  intro ledger
  rw [recourseValues_run hcurrent hanswer]
  refine (Settles.exactly _).mono (fun values hvalues => ?_) fun f hf => ?_
  · rw [valuesOf, hfirst, hvalues]
    rfl
  · rw [valuesOf, hfirst, hf]
    rfl

/-- That is what is looked up. -/
theorem valuesAt_settled (hcurrent : p.isDeferred = false)
    (hanswer : ∀ m, (p.backendFor solver).optimize m (some x) = .ofExcept (answer m)) :
    (valuesAt x solver).Ensures p (fun r q => q = p ∧ p.valuesOf x answer = .ok r)
      fun f _ => p.valuesOf x answer = .error f := by
  unfold valuesAt
  refine Change.ensures_bind (Change.ensures_state (Change.ensures_bind (Change.ensures_lift ?_)))
  refine (Settles.exactly (p.checkDecision x)).mono (fun _ hx => ?_) fun f hf => ?_
  swap
  · rw [valuesOf, firstValue, hf]
    rfl
  have hfirst : p.firstValue x = firstStageValue p.firstStage x := by rw [firstValue, hx]; rfl
  rw [stageOneModel_eq hcurrent]
  refine Change.ensures_bind (Change.ensures_pure (Change.ensures_bind (Change.ensures_lift ?_)))
  refine (Settles.exactly (firstStageValue p.firstStage x)).mono (fun first hvalue => ?_)
    fun f hf => ?_
  swap
  · rw [valuesOf, hfirst, hf]
    rfl
  refine Change.ensures_bind (Change.ensures_ofAct ((recourseValues_settled hcurrent hanswer
    (hfirst.trans hvalue)).mono (fun values hvalues => ?_) fun _ h => h))
  exact Change.ensures_pure ⟨rfl, hvalues⟩

/-- They are also looked up in a program that was noted to be built. -/
theorem Marked.valuesAt_settled {q : Program σ (Exact F)} (h : Marked p q)
    (hcurrent : p.isDeferred = false) (hnonempty : 0 < p.scenarioCount)
    (hanswer : ∀ m, (p.backendFor solver).optimize m (some x) = .ofExcept (answer m)) :
    (valuesAt x solver).Ensures q (fun r q' => q' = q ∧ p.valuesOf x answer = .ok r)
      fun f _ => p.valuesOf x answer = .error f := by
  obtain ⟨g, rfl⟩ := h
  exact Program.valuesAt_settled (p := { p with generatedEpoch := g })
    (isDeferred_noted hcurrent hnonempty g) hanswer

/-- A call that builds, perhaps weighs, looks these values up and goes on with them. -/
theorem answers_of_values {α : Type} {c : Edit σ (Exact F) Unit}
    {f : Exact F × List (Exact F) → Edit σ (Exact F) α} {g : Exact F × List (Exact F) → α}
    (hc : c.Ensures p (fun _ q => Marked p q) fun _ _ => False)
    (hf : ∀ v q, Marked p q → (f v).Ensures q (fun a _ => a = g v) fun _ _ => False)
    (hcurrent : p.isDeferred = false) (hnonempty : 0 < p.scenarioCount)
    (hanswer : ∀ m, (p.backendFor solver).optimize m (some x) = .ofExcept (answer m)) :
    (do c; f (← valuesAt x solver) : Edit σ (Exact F) α).Answers p
      ((p.valuesOf x answer).map g) := by
  refine Change.answers_of_ensures fun _ => Change.ensures_bind (hc.mono ?_ fun _ _ h => h.elim)
  intro _ q hmarked
  refine Change.ensures_bind ((hmarked.valuesAt_settled hcurrent hnonempty hanswer).mono ?_ ?_)
  · rintro v _ ⟨rfl, hvalues⟩
    refine (hf v _ hmarked).mono (fun a _ ha => ?_) fun _ _ h => h.elim
    rw [hvalues, ha]
    rfl
  · intro e _ he
    rw [he]
    rfl

/-- The outcomes are the first-stage value plus the value of each subproblem. -/
theorem outcomes_answers (hcurrent : p.isDeferred = false) (hnonempty : 0 < p.scenarioCount)
    (hanswer : ∀ m, (p.backendFor solver).optimize m (some x) = .ofExcept (answer m)) :
    (outcomes x solver).Answers p ((p.valuesOf x answer).map fun v => v.2.map (v.1 + ·)) :=
  answers_of_values ((generate_ensures hcurrent).mono (fun _ _ h => ⟨_, h⟩) fun _ _ h => h)
    (fun _ _ _ => Change.ensures_pure rfl) hcurrent hnonempty hanswer

/-- A well-formed program that is built is neither built nor weighed again. -/
theorem generate_validate_marks (hcurrent : p.isDeferred = false) (hp : p.isWellFormed = true) :
    (do generate; validate none : Edit σ (Exact F) Unit).Ensures p (fun _ q => Marked p q)
      fun _ _ => False := by
  rw [isWellFormed, Bool.and_eq_true, decide_eq_true_iff] at hp
  refine Change.ensures_bind ((generate_ensures hcurrent).mono ?_ fun _ _ h => h)
  rintro _ _ rfl
  refine (validate_of_isTotal (p := { p with generatedEpoch := some p.secondEpoch }) none hp.1
    hp.2).mono (fun _ _ h => ?_) fun _ _ h => h
  exact ⟨_, h⟩

/-- The value of a decision is its first-stage value plus the expectation of the subproblems. -/
theorem evaluate_answers (hcurrent : p.isDeferred = false) (hp : p.isWellFormed = true)
    (hnonempty : 0 < p.scenarioCount)
    (hanswer : ∀ m, (p.backendFor solver).optimize m (some x) = .ofExcept (answer m)) :
    (evaluate x solver).Answers p
      ((p.valuesOf x answer).map fun v => v.1 + Scalar.dot p.probabilities v.2) := by
  rw [evaluate_eq]
  refine answers_of_values (generate_validate_marks hcurrent hp) ?_ hcurrent hnonempty hanswer
  rintro v _ ⟨g, rfl⟩
  exact Change.ensures_bind (Change.ensures_state (Change.ensures_pure rfl))

/-- With statistics. -/
theorem evaluateFully_answers (hcurrent : p.isDeferred = false) (hp : p.isWellFormed = true)
    (hnonempty : 0 < p.scenarioCount)
    (hanswer : ∀ m, (p.backendFor solver).optimize m (some x) = .ofExcept (answer m)) :
    (evaluateFully x solver).Answers p
      ((p.valuesOf x answer).map fun v => Evaluation.summary v.1 p.probabilities v.2) := by
  have hsplit : (evaluateFully x solver : Edit σ (Exact F) (Evaluation (Exact F))) = do
      (do generate; validate none : Edit σ (Exact F) Unit)
      let v ← valuesAt x solver
      return Evaluation.summary v.1 (← Change.state).probabilities v.2 := by
    unfold evaluateFully
    rw [bind_assoc]
    rfl
  rw [hsplit]
  refine answers_of_values (generate_validate_marks hcurrent hp) ?_ hcurrent hnonempty hanswer
  rintro v _ ⟨g, rfl⟩
  exact Change.ensures_bind (Change.ensures_state (Change.ensures_pure rfl))

end Values

/-! ## The calls agree -/

/-- The same answer, but a solve that fails does not say for which scenario. -/
def Unnumbered (i : Nat) (r r' : Except (Fault (Exact F)) (Exact F)) : Prop :=
  r' = r ∨ ∃ status, r = .error (.solveFailure status (some (i : Int)) .solve) ∧
    r' = .error (.solveFailure status none .solve)

/-- The calls that evaluate a decision agree on what it is worth in every scenario. -/
structure EvaluatedAlike (p : Program σ (Exact F)) (x : List (Exact F))
    (solver : Option (Solver σ (Exact F)))
    (outcome : Nat → Except (Fault (Exact F)) (Exact F)) : Prop where
  /-- It is worth the first-stage value plus the value of the subproblem that the program holds,
  and where a solve fails, that is reported with the index and the status. -/
  held : ∀ i < p.scenarioCount, ∃ answer,
    (p.backendFor solver).optimize (p.recourse i) (some x) = .ofExcept answer ∧
      outcome i = outcomeOf (p.firstValue x) (some (i : Int)) answer
  /-- It is evaluated to that for the index of the scenario. -/
  index : ∀ i < p.scenarioCount,
    (evaluateScenario (.index (.ofInt i)) x solver).Answers p (outcome i)
  /-- So it is for the scenario itself, but for the index of a solve that fails. -/
  scenario : ∀ i < p.scenarioCount, ∃ c r, p.scenario (.ofInt i) = .ok c ∧
    (evaluateScenario (.scenario c) x solver).Answers p r ∧ Unnumbered i (outcome i) r
  /-- Where it is worth something in every scenario, all outcomes are in global order, and they
  are the first-stage value plus values of which the others give expectation and statistics. -/
  valued : ∀ value : Nat → Exact F, (∀ i < p.scenarioCount, outcome i = .ok (value i)) →
    (outcomes x solver).Answers p (.ok ((List.range p.scenarioCount).map value)) ∧
      ∃ first recourse, p.firstValue x = .ok first ∧
        (∀ i < p.scenarioCount, value i = first + recourse i) ∧
        (Scalar.isFinite first = true → ∀ i < p.scenarioCount, recourse i = value i - first) ∧
        ∃ e : Evaluation (Exact F),
          e.Summarizes first p.probabilities ((List.range p.scenarioCount).map recourse) ∧
            (evaluateFully x solver).Answers p (.ok e) ∧
            (evaluate x solver).Answers p (.ok e.objective)
  /-- With numbers this is the first-stage value plus what is expected beyond it. -/
  expectation : ∀ (c : F) (value : Nat → F), p.firstValue x = .ok (.finite c) →
    (∀ i < p.scenarioCount, outcome i = .ok (.finite (value i))) →
      (evaluate x solver).Answers p (.ok (.finite
        (c + ∑ i ∈ Finset.range p.scenarioCount, p.weight i * (value i - c))))
  /-- Otherwise what surfaces is the refusal of the first scenario that has one. -/
  refused : ∀ i < p.scenarioCount, ∀ f, outcome i = .error f →
    (∀ j < i, ∃ v, outcome j = .ok v) →
      (outcomes x solver).Answers p (.error f) ∧ (evaluate x solver).Answers p (.error f) ∧
        (evaluateFully x solver).Answers p (.error f)

/-- A scenario is handed out by its index. -/
theorem scenario_eq_ok {i : Nat} {c : Scenario (Exact F)} (hc : p.scenarios[i]? = some c) :
    p.scenario (.ofInt i) = .ok c := by
  rw [scenarios, List.getElem?_map, Option.map_eq_some_iff] at hc
  obtain ⟨s, hs, rfl⟩ := hc
  obtain ⟨hi, rfl⟩ := List.getElem?_eq_some_iff.1 hs
  obtain ⟨q, j, hlocate, hslot⟩ := exists_locate hi
  have hfound : q.slot j .scenario = .ok p.slots[i] :=
    slot_eq_ok.2 ⟨Int.natCast_nonneg j, hslot⟩
  show (p.locate (.ofInt i) >>= fun found => found.1.scenario found.2) = _
  rw [hlocate]
  show (q.slot j .scenario).map _ = _
  rw [hfound]
  rfl

theorem unnumbered_outcomeOf (first : Except (Fault (Exact F)) (Exact F)) (i : Nat)
    (answer : Except (Fault (Exact F)) (SolveResult (Exact F))) :
    Unnumbered i (outcomeOf first (some (i : Int)) answer) (outcomeOf first none answer) := by
  cases first with
  | error f => exact Or.inl rfl
  | ok first =>
    cases answer with
    | error f => exact Or.inl rfl
    | ok r =>
      by_cases hstatus : r.status = .optimal
      · rw [outcomeOf_of_optimal _ _ hstatus, outcomeOf_of_optimal _ _ hstatus]
        exact Or.inl rfl
      · rw [outcomeOf_of_not_optimal _ _ hstatus, outcomeOf_of_not_optimal _ _ hstatus]
        exact Or.inr ⟨r.status, rfl, rfl⟩

section Values

variable {answer : Model (Exact F) → Except (Fault (Exact F)) (SolveResult (Exact F))}
  {outcome : Nat → Except (Fault (Exact F)) (Exact F)}

/-- Outcomes in all scenarios come from values of all subproblems. -/
theorem valuesOf_of_valued (hnonempty : 0 < p.scenarioCount) {value : Nat → Exact F}
    (hvalue : ∀ i < p.scenarioCount, outcomeOf (p.firstValue x) (some (i : Int))
      (answer (p.recourse i)) = .ok (value i)) :
    ∃ first recourse, p.firstValue x = .ok first ∧
      (∀ i < p.scenarioCount, value i = first + recourse i) ∧
      p.valuesOf x answer = .ok (first, (List.range p.scenarioCount).map recourse) := by
  cases hfirst : p.firstValue x with
  | error f =>
    have hzero := hvalue 0 hnonempty
    rw [hfirst] at hzero
    cases hzero
  | ok first =>
    simp only [hfirst, outcomeOf_eq_ok] at hvalue
    choose! recourse hsolve hsum using hvalue
    refine ⟨first, recourse, rfl, hsum, ?_⟩
    rw [valuesOf, hfirst, mapM_eq_ok _ fun i hi => hsolve i (List.mem_range.1 hi)]
    rfl

/-- The first scenario without an outcome is where looking up the values stops. -/
theorem valuesOf_of_refused {i : Nat} (hi : i < p.scenarioCount) {f : Fault (Exact F)}
    (hf : outcomeOf (p.firstValue x) (some (i : Int)) (answer (p.recourse i)) = .error f)
    (hbefore : ∀ j < i, ∃ v, outcomeOf (p.firstValue x) (some (j : Int))
      (answer (p.recourse j)) = .ok v) :
    p.valuesOf x answer = .error f := by
  -- A first-stage refusal is that of every scenario; otherwise the solves stop at scenario `i`.
  cases hfirst : p.firstValue x with
  | error e =>
    rw [hfirst] at hf
    obtain rfl : e = f := Except.error.inj hf
    rw [valuesOf, hfirst]
    rfl
  | ok first =>
    simp only [hfirst, outcomeOf_eq_ok, outcomeOf_eq_error] at hf hbefore
    obtain ⟨after, hafter⟩ := exists_range_eq_append hi
    have hstops : (List.range p.scenarioCount).mapM (fun i : Nat =>
        answer (p.recourse i) >>= optimumOf (some (i : Int))) = .error f := by
      refine mapM_eq_error_iff.2 ⟨_, i, after, hafter, fun j hj => ?_, hf⟩
      obtain ⟨v, r, hr, -⟩ := hbefore j (List.mem_range.1 hj)
      exact ⟨r, hr⟩
    rw [valuesOf, hfirst, hstops]
    rfl

end Values

/-- The probabilities of a program that is in order are numbers. -/
theorem Consistent.finite_probabilities (hp : p.Consistent) :
    ∀ c ∈ p.scenarios, Scalar.isFinite c.probability = true := by
  intro c hc
  obtain ⟨s, hs, rfl⟩ := List.mem_map.1 hc
  obtain ⟨q, hq, -⟩ := (Exact.isWeight_iff _).1 (hp.weighted s hs)
  rw [hq]
  exact Exact.isFinite_finite q

/-- Taking a number away again. -/
theorem finite_add_sub (c : F) (r : Exact F) : .finite c + r - .finite c = r := by
  cases r with
  | finite r => rw [Exact.finite_add, Exact.finite_sub, add_sub_cancel_left]
  | plusInfinity => rfl
  | minusInfinity => rfl
  | undefined => rfl

/-- Every way of evaluating a decision agrees.  In every state a program gets to where everything
is built and the probabilities sum to one, in any layout, with pure recipes and a backend that is
a function, a decision has one outcome in every scenario, whether the subproblem that is held is
solved at it or one that is built anew.  All outcomes together, their expectation and its
statistics come from these, and where a scenario has none, the refusal of the first one
surfaces. -/
theorem Reachable.evaluated_alike (hp : Reachable p) (hcurrent : p.isDeferred = false)
    (hwell : p.isWellFormed = true) (x : List (Exact F))
    (hb : (p.backendFor solver).Functional) : ∃ outcome, p.EvaluatedAlike x solver outcome := by
  have hconsistent : p.Consistent := (hp.invariant Exact.weighing).toConsistent
  have hnonempty : 0 < p.scenarioCount := by
    rw [isWellFormed, Bool.and_eq_true, decide_eq_true_iff] at hwell
    exact hwell.1
  -- A backend that is a function answers a subproblem alike, held or built anew.
  choose answer hanswer using fun m => hb.optimize_effectless m (some x)
  have houtcomes := outcomes_answers hcurrent hnonempty hanswer
  have hevaluate := evaluate_answers hcurrent hwell hnonempty hanswer
  have hfully := evaluateFully_answers hcurrent hwell hnonempty hanswer
  have hscenario : ∀ i < p.scenarioCount, ∃ c, p.scenarios[i]? = some c := fun i hi => by
    obtain ⟨s, hs, -⟩ := exists_slot hcurrent hi
    exact ⟨s.scenario, by rw [scenarios, List.getElem?_map, hs]; rfl⟩
  refine ⟨fun i => outcomeOf (p.firstValue x) (some (i : Int)) (answer (p.recourse i)), ?_⟩
  refine
    { held := fun i _ => ⟨_, hanswer _, rfl⟩
      index := fun i hi => ?_
      scenario := fun i hi => ?_
      valued := fun value hvalue => ?_
      expectation := fun c value hc hvalue => ?_
      refused := fun i hi f hf hbefore => ?_ }
  · obtain ⟨c, hc⟩ := hscenario i hi
    have hresolve : p.resolve (.index (.ofInt i)) = .ok c := scenario_eq_ok hc
    exact hconsistent.evaluateScenario_answers hcurrent hi hc hresolve (hanswer _)
  · obtain ⟨c, hc⟩ := hscenario i hi
    exact ⟨c, _, scenario_eq_ok hc,
      hconsistent.evaluateScenario_answers hcurrent hi hc rfl (hanswer _),
      unnumbered_outcomeOf _ _ _⟩
  · obtain ⟨first, recourse, hfirst, hsum, hvalues⟩ := valuesOf_of_valued hnonempty hvalue
    rw [hvalues] at houtcomes hevaluate hfully
    have hall : ((List.range p.scenarioCount).map recourse).map (first + ·) =
        (List.range p.scenarioCount).map value := by
      rw [List.map_map]
      exact List.map_congr_left fun i hi => (hsum i (List.mem_range.1 hi)).symm
    have hne : (List.range p.scenarioCount).map recourse ≠ [] := by
      simpa using hnonempty.ne'
    refine ⟨hall ▸ houtcomes, first, recourse, hfirst, hsum, fun hfinite i hi => ?_, _,
      Evaluation.summary_summarizes first p.probabilities hne, hfully, hevaluate⟩
    rw [hsum i hi, ← Exact.finite_value hfinite, finite_add_sub]
  · obtain ⟨first, recourse, hfirst, hsum, hvalues⟩ := valuesOf_of_valued hnonempty hvalue
    obtain rfl : first = .finite c := Except.ok.inj (hfirst.symm.trans hc)
    have hrecourse : ∀ i < p.scenarioCount, recourse i = .finite (value i - c) := fun i hi => by
      rw [← finite_add_sub c (recourse i), ← hsum i hi, Exact.finite_sub]
    rw [hvalues] at hevaluate
    have hobjective := dot_probabilities (p := p) hconsistent.finite_probabilities hrecourse
    simpa only [Except.map, hobjective, Exact.finite_add] using hevaluate
  · have hvalues := valuesOf_of_refused hi hf hbefore
    rw [hvalues] at houtcomes hevaluate hfully
    exact ⟨houtcomes, hevaluate, hfully⟩

/-! ### A stock on a workbench -/

/-- A stock of at most three at unit cost, and a cost that is there anyway. -/
def leasedStock (constant : Exact ℚ) : Model (Exact ℚ) :=
  { LShaped.stock with objective? := some ⟨[(0, 1)], constant, []⟩ }

/-- What the stock lacks to three is bought at a price, and there is one unit of it only. -/
def lastUnit (price : Exact ℚ) : Model (Exact ℚ) :=
  { LShaped.shortage 0 with
    columns := [⟨0, .minusInfinity, .plusInfinity, some "x", some 0⟩, ⟨1, 0, 1, some "y", none⟩]
    objective? := some ⟨[(1, price)], 0, []⟩ }

/-- The stock, whatever the data. -/
def leasedRecipe (constant : Exact ℚ) : FirstRecipe (Bench (Exact ℚ)) (Exact ℚ) where
  name := "stock"
  build := fun _ => pure (.model (leasedStock constant))

/-- The last unit at the price that the payload names. -/
def lastUnitRecipe : SecondRecipe (Bench (Exact ℚ)) (Exact ℚ) where
  name := "unit"
  build := fun _ _ payload =>
    match payload with
    | .real price => pure (.model (lastUnit price))
    | _ => Act.fail (.misuse .value)

/-- The stock is set up on two workers, with prices and their probabilities. -/
def leaseOrders (constant : Exact ℚ) (prices : List (ℚ × Exact ℚ)) :
    List (Operation (Bench (Exact ℚ)) (Exact ℚ)) :=
  [.rebalance (.ofInt 2), .register (.ofInt 1) (.recipe (.first (leasedRecipe constant))) true,
    .register (.ofInt 2) (.recipe (.second lastUnitRecipe)) true,
    .addAll (prices.map fun c => .scenario ⟨.finite c.1, .real c.2, none⟩) none false]

theorem leaseOrders_allowed (constant : Exact ℚ) {prices : List (ℚ × Exact ℚ)}
    (h : ∀ c ∈ prices, 0 ≤ c.1 ∧ c.1 ≤ 1) : ∀ op ∈ leaseOrders constant prices, op.Allowed := by
  simp only [leaseOrders, List.forall_mem_cons, List.not_mem_nil, false_implies, implies_true,
    and_true, true_and, Operation.Allowed]
  refine ⟨fun _ => Act.effectless_pure _, fun _ _ payload => ?_, fun o ho => ?_⟩
  · cases payload <;> first | exact Act.effectless_pure _ | exact Act.effectless_fail _
  · obtain ⟨c, hc, rfl⟩ := List.mem_map.1 ho
    exact (Exact.isWeight_iff _).2 ⟨c.1, rfl, h c hc⟩

/-- The simplex method on a workbench is a function. -/
theorem bench_functional : (Backend.plain : Backend (Bench (Exact ℚ)) (Exact ℚ)).Functional where
  engine _ _ := Act.effectless_pure _
  report _ := Act.effectless_pure _

/-- What a call answers on a fresh workbench: a value, or else the status and the index of a solve
that failed. -/
def observed {α : Type} (c : Edit (Bench (Exact ℚ)) (Exact ℚ) α)
    (p : Program (Bench (Exact ℚ)) (Exact ℚ)) : Option α × Option (Status × Option Int) :=
  match ((c.runOn p).run ⟨Bench.fresh, [], 0⟩).1.1 with
  | .ok a => (some a, none)
  | .error (.solveFailure status i _) => (none, some (status, i))
  | .error _ => (none, none)

/-- A program without a solver of its own is solved by the simplex method. -/
theorem backendFor_functional {p : Program (Bench (Exact ℚ)) (Exact ℚ)} (h : p.solver = none) :
    (p.backendFor none).Functional := by
  unfold backendFor
  simp only [h]
  exact bench_functional

/-- A leased stock can be made for every price list that passes a check. -/
theorem exists_leased (constant : Exact ℚ) (prices : List (ℚ × Exact ℚ))
    (hprices : ∀ c ∈ prices, 0 ≤ c.1 ∧ c.1 ≤ 1)
    (q : Program (Bench (Exact ℚ)) (Exact ℚ) → Bool)
    (h : (programAfter Setup.standard (leaseOrders constant prices) ⟨Bench.fresh, [], 0⟩).any
      (fun p => !p.isDeferred && p.isWellFormed && p.solver.isNone && q p) = true) :
    ∃ p, Reachable p ∧ p.isDeferred = false ∧ p.isWellFormed = true ∧
      (p.backendFor none).Functional ∧ q p = true := by
  obtain ⟨p, hp, hstate⟩ := exists_reachable _ (leaseOrders_allowed constant hprices) _ _ h
  simp only [Bool.and_eq_true, Bool.not_eq_true', Option.isNone_iff_eq_none] at hstate
  obtain ⟨⟨⟨hcurrent, hwell⟩, hsolver⟩, hq⟩ := hstate
  exact ⟨p, hp, hcurrent, hwell, backendFor_functional hsolver, hq⟩

/-- What is observed of a call that answers. -/
theorem eq_ok_of_observed {α : Type} {c : Edit (Bench (Exact ℚ)) (Exact ℚ) α}
    {p : Program (Bench (Exact ℚ)) (Exact ℚ)} {r : Except (Fault (Exact ℚ)) α} {a : α}
    (h : c.Answers p r) (hobserved : (observed c p).1 = some a) : r = .ok a := by
  have hanswer := h ⟨Bench.fresh, [], 0⟩
  unfold observed at hobserved
  rw [hanswer] at hobserved
  split at hobserved
  · exact congrArg Except.ok (Option.some.inj hobserved)
  · cases hobserved
  · cases hobserved

/-- Two units are stocked, and the last one is bought at either price. -/
theorem lastUnit_evaluated_alike : ∃ p : Program (Bench (Exact ℚ)) (Exact ℚ), Reachable p ∧
    p.isDeferred = false ∧ p.isWellFormed = true ∧ (p.backendFor none).Functional ∧
      p.partitionSizes = [1, 1] ∧ ∃ outcome, p.EvaluatedAlike [.finite 2] none outcome ∧
        outcome 0 = .ok (.finite 5) ∧ outcome 1 = .ok (.finite 3) := by
  obtain ⟨p, hp, hcurrent, hwell, hb, hstate⟩ := exists_leased 0
    [(1 / 2, .finite 3), (1 / 2, .finite 1)] (by decide +kernel)
    (fun p => p.partitionSizes == [1, 1] && p.scenarioCount == 2 &&
      (observed (evaluateScenario (.index (.ofInt 0)) [.finite 2] none) p).1 == some (.finite 5) &&
      (observed (evaluateScenario (.index (.ofInt 1)) [.finite 2] none) p).1 == some (.finite 3))
    (by decide +kernel)
  simp only [Bool.and_eq_true, beq_iff_eq] at hstate
  obtain ⟨⟨⟨hsizes, hcount⟩, hzero⟩, hone⟩ := hstate
  obtain ⟨outcome, halike⟩ := hp.evaluated_alike hcurrent hwell [.finite 2] hb
  exact ⟨p, hp, hcurrent, hwell, hb, hsizes, outcome, halike,
    eq_ok_of_observed (halike.index 0 (by omega)) hzero,
    eq_ok_of_observed (halike.index 1 (by omega)) hone⟩

/-- An infinite price hides that there are not enough units at the other one, and with an infinite
cost that is there anyway nothing is left to expect beyond it. -/
theorem lastUnit_evaluated_alike_false :
    (∃ p : Program (Bench (Exact ℚ)) (Exact ℚ), Reachable p ∧ p.isDeferred = false ∧
      p.isWellFormed = true ∧ (p.backendFor none).Functional ∧
      observed (evaluateScenario (.index (.ofInt 0)) [1] none) p = (none, none) ∧
      observed (evaluateScenario (.index (.ofInt 1)) [1] none) p =
        (none, some (.infeasible, some 1)) ∧
      observed (outcomes [1] none) p = (none, none)) ∧
    ∃ p : Program (Bench (Exact ℚ)) (Exact ℚ), Reachable p ∧ p.isDeferred = false ∧
      p.isWellFormed = true ∧ (p.backendFor none).Functional ∧
      (p.firstValue [.finite 3]).toOption = some .plusInfinity ∧
      observed (outcomes [.finite 3] none) p = (some [.plusInfinity], none) ∧
      observed (evaluate [.finite 3] none) p = (some .plusInfinity, none) ∧
      .plusInfinity + Scalar.dot p.probabilities [.plusInfinity - .plusInfinity] =
        (.undefined : Exact ℚ) := by
  obtain ⟨p, hp, hcurrent, hwell, hb, hstate⟩ := exists_leased 0
    [(1 / 2, .plusInfinity), (1 / 2, .finite 1)] (by decide +kernel)
    (fun p => observed (evaluateScenario (.index (.ofInt 0)) [1] none) p == (none, none) &&
      observed (evaluateScenario (.index (.ofInt 1)) [1] none) p ==
        (none, some (.infeasible, some 1)) &&
      observed (outcomes [1] none) p == (none, none)) (by decide +kernel)
  obtain ⟨q, hq, hcurrent', hwell', hb', hstate'⟩ := exists_leased .plusInfinity
    [(1, .finite 1)] (by decide +kernel)
    (fun p => (p.firstValue [.finite 3]).toOption == some .plusInfinity &&
      observed (outcomes [.finite 3] none) p == (some [.plusInfinity], none) &&
      observed (evaluate [.finite 3] none) p == (some .plusInfinity, none) &&
      .plusInfinity + Scalar.dot p.probabilities [.plusInfinity - .plusInfinity] ==
        (.undefined : Exact ℚ)) (by decide +kernel)
  simp only [Bool.and_eq_true, beq_iff_eq] at hstate hstate'
  obtain ⟨⟨hzero, hone⟩, hall⟩ := hstate
  obtain ⟨⟨⟨hfirst, houtcomes⟩, hevaluate⟩, hformula⟩ := hstate'
  exact ⟨⟨p, hp, hcurrent, hwell, hb, hzero, hone, hall⟩,
    q, hq, hcurrent', hwell', hb', hfirst, houtcomes, hevaluate, hformula⟩

end Program

end Recourse
