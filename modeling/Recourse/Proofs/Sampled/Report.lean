/-
  Proofs/Sampled/Report.lean --- a study reports what it ran.

  A study runs trials and evaluates the decision of the best one on a program of its own.  Trials
  and evaluation use up consecutive blocks of the random stream, and what is reported are the
  decision and the value of the first best trial, the mean of the values of the trials as the
  bound on their side, and the value of the decision as the bound on the other
  (`Plan.run_reports`).
-/
import Recourse.Proofs.Sampled.Trial
import Recourse.Proofs.Sampled.Worth
import Recourse.Script.Bench
import Mathlib.Data.Rat.Sqrt

set_option autoImplicit false
set_option linter.unusedSectionVars false

namespace Recourse

/-! ## Courses -/

/-- The bound on the side that the values of the trials bound. -/
def Estimate.replicated {K : Type} (e : Estimate K) (g : Goal) : K :=
  match g with
  | .minimize => e.lowerBound
  | .maximize => e.upperBound

/-- The bound on the side that the evaluation bounds. -/
def Estimate.evaluated {K : Type} (e : Estimate K) (g : Goal) : K :=
  match g with
  | .minimize => e.upperBound
  | .maximize => e.lowerBound

/-- What a study goes through. -/
structure Course (σ K : Type) where
  /-- The trials. -/
  trials : List (Trial σ K)
  /-- The trial whose decision is evaluated. -/
  best : Trial σ K
  /-- The program that it is evaluated on. -/
  fresh : Program σ K
  /-- What it is worth there. -/
  value : K

namespace Course

variable {σ K : Type} [Scalar K]

/-- The trials have numbers as values. -/
def Numeric (c : Course σ K) : Prop := ∀ t ∈ c.trials, Scalar.isFinite t.value = true

/-- From a ledger to a ledger, the trials are run one after the other and the decision of one of
them is evaluated. -/
structure Runs [Host σ K] (c : Course σ K) (plan : Plan σ K) (s : Study σ K)
    (ledger ledger' : Ledger σ K) : Prop where
  /-- The trials, then the evaluation. -/
  steps : ∃ between, Series s plan.samples plan.solver c.trials ledger between ∧
    s.Evaluates plan.evaluation plan.solver c.best.decision c.fresh c.value between ledger'
  /-- As many trials as the plan says. -/
  count : c.trials.length = plan.replications.toNat
  /-- One of them is evaluated. -/
  mem : c.best ∈ c.trials

variable {F : Type} [Field F] [LinearOrder F] [IsStrictOrderedRing F] [FloorRing F]

/-- The programs are made from consecutive blocks of a tape. -/
structure Consumes (c : Course σ (Exact F)) (plan : Plan σ (Exact F)) (t : Tape (Exact F)) :
    Prop where
  /-- A block for each trial. -/
  trial : ∀ (i : Nat) (u : Trial σ (Exact F)), c.trials[i]? = some u →
    u.program.On (t.advance (i * plan.samples.toNat)) plan.samples.toNat
  /-- The block behind them for the evaluation. -/
  fresh : c.fresh.On (t.advance (plan.replications.toNat * plan.samples.toNat))
    plan.evaluation.toNat
  /-- Together they are one block, in which every draw is used once. -/
  all : (c.trials.flatMap fun u => u.program.scenarios.map (·.data)) ++
    c.fresh.scenarios.map (·.data) =
      t.block (plan.replications.toNat * plan.samples.toNat + plan.evaluation.toNat)

/-- What is reported of a course under a sense. -/
structure Reports (c : Course σ (Exact F)) (g : Goal) (e : Estimate (Exact F)) : Prop where
  /-- The decision and the value are those of the solution of the trial that is evaluated. -/
  solution : ∃ r, c.best.solved.solution = some r ∧ e.decision = r.decision ∧
    e.objective = r.objective
  /-- This is the first best trial. -/
  best : c.Numeric → g.FirstBest Trial.value c.trials c.best
  /-- The bound on the side of the trials is the mean of their values. -/
  mean : c.Numeric → e.replicated g =
    .finite ((c.trials.map fun t => t.value.value).sum / c.trials.length)
  /-- The value is not above it in minimization. -/
  below : c.Numeric → g = .minimize → Scalar.atMost e.objective e.lowerBound = true
  /-- The value is not below it in maximization. -/
  above : c.Numeric → g = .maximize → Scalar.atMost e.upperBound e.objective = true
  /-- The other bound is what the decision is worth. -/
  worth : Scalar.isFinite c.value = true → e.evaluated g = c.value
  /-- The gap is the distance of the bounds. -/
  gap : e.gap = e.upperBound - e.lowerBound

end Course

/-! ## Steps of a study -/

namespace Plan

variable {F : Type} [Field F] [LinearOrder F] [IsStrictOrderedRing F] [FloorRing F] [Curves F]
  {σ : Type}

/-- Put the random stream where the plan says that it starts. -/
def start (plan : Plan σ (Exact F)) (s : Study σ (Exact F)) : Act σ (Exact F) Unit :=
  match plan.seed with
  | some seed => s.sampler.reseed (some seed)
  | none => pure ()

/-- The factor of replications under one sense is that of the sense. -/
theorem factor_replicates (g : Goal) {ts : List (Trial σ (Exact F))} (hne : ts ≠ []) :
    factor (ts.map (Trial.replicate g)) = g.sign := by
  rw [factor, List.getLast?_map, List.getLast?_eq_some_getLast hne]
  rfl

/-- A trial is picked, the first best one if the values are numbers. -/
theorem exists_picked (g : Goal) {ts : List (Trial σ (Exact F))} (hne : ts ≠ []) :
    ∃ t ∈ ts, best g.sign (ts.map (Trial.replicate g)) = some (t.replicate g) ∧
      ((∀ u ∈ ts, Scalar.isFinite u.value = true) → g.FirstBest Trial.value ts t) := by
  have hmap : ts.map (Trial.replicate g) ≠ [] := mt List.map_eq_nil_iff.1 hne
  by_cases hnumeric : ∀ u ∈ ts, Scalar.isFinite u.value = true
  · obtain ⟨b, hb, hbest⟩ := best_firstBest (g := g) hmap (List.forall_mem_map.2 hnumeric)
    obtain ⟨t, rfl, ht⟩ := hbest.of_map
    exact ⟨t, ht.mem, hb, fun _ => ht⟩
  · obtain ⟨b, hmem, hb⟩ := exists_best g.sign hmap
    obtain ⟨t, ht, rfl⟩ := List.mem_map.1 hmem
    exact ⟨t, ht, hb, fun h => absurd h hnumeric⟩

/-! ### What is concluded -/

section Conclusion

variable (plan : Plan σ (Exact F)) (g : Goal) (b : Study.Replicate (Exact F))
  (bound estimate : Interval (Exact F))

theorem conclude_replicated :
    (plan.conclude g.sign b bound estimate).replicated g = bound.midpoint := by
  cases g <;> simp [conclude, Goal.less_zero_sign, Estimate.replicated]

theorem conclude_evaluated :
    (plan.conclude g.sign b bound estimate).evaluated g = estimate.midpoint := by
  cases g <;> simp [conclude, Goal.less_zero_sign, Estimate.evaluated]

end Conclusion

/-! ### What is run -/

variable [Host σ (Exact F)] {plan : Plan σ (Exact F)} {s : Study σ (Exact F)}
  {ledger ledger₀ ledger' : Ledger σ (Exact F)}

/-- The replications follow the start of the random stream, and then the evaluation. -/
theorem run_eq (plan : Plan σ (Exact F)) (s : Study σ (Exact F)) : plan.run s = (do
    plan.start s
    let rs ← s.replications (.ofInt plan.samples) (.ofInt plan.replications) plan.solver
    match best (factor rs) rs with
    | none => Act.fail (.misuse .value)
    | some b => do
        let i ← s.estimate b.decision (.ofInt plan.evaluation) (.number (.real plan.confidence))
          plan.solver
        return plan.conclude (factor rs) b
          (Interval.ofValues (rs.map (·.value)) plan.confidence .student) i) := by
  unfold run start
  cases plan.seed with
  | some seed =>
    dsimp only
    refine bind_congr fun _ => bind_congr fun rs => ?_
    cases best (factor rs) rs <;> rfl
  | none =>
    dsimp only
    rw [pure_bind]
    refine bind_congr fun rs => ?_
    cases best (factor rs) rs <;> rfl

theorem run_ok_iff (hstart : (plan.start s).run.run ledger = (.ok (), ledger₀))
    {e : Estimate (Exact F)} : (plan.run s).run.run ledger = (.ok e, ledger') ↔
      ∃ rs between b i, (s.replications (.ofInt plan.samples) (.ofInt plan.replications)
          plan.solver).run.run ledger₀ = (.ok rs, between) ∧ best (factor rs) rs = some b ∧
        (s.estimate b.decision (.ofInt plan.evaluation) (.number (.real plan.confidence))
          plan.solver).run.run between = (.ok i, ledger') ∧
        e = plan.conclude (factor rs) b
          (Interval.ofValues (rs.map (·.value)) plan.confidence .student) i := by
  rw [run_eq, Act.run_bind, hstart]
  dsimp only
  rw [Act.run_bind_eq_ok_iff]
  constructor
  · rintro ⟨rs, between, hrs, hrest⟩
    split at hrest
    · cases hrest
    · rename_i b hb
      obtain ⟨i, last, hi, he⟩ := Act.run_bind_eq_ok_iff.1 hrest
      cases he
      exact ⟨rs, between, b, i, hrs, hb, hi, rfl⟩
  · rintro ⟨rs, between, b, i, hrs, hb, hi, rfl⟩
    refine ⟨rs, between, hrs, ?_⟩
    rw [hb]
    exact Act.run_bind_eq_ok_iff.2 ⟨i, ledger', hi, rfl⟩

/-- Where the replications are refused, the study is. -/
theorem run_failed (hstart : (plan.start s).run.run ledger = (.ok (), ledger₀))
    {f : Fault (Exact F)} (hrs : (s.replications (.ofInt plan.samples) (.ofInt plan.replications)
      plan.solver).run.run ledger₀ = (.error f, ledger')) :
    (plan.run s).run.run ledger = (.error f, ledger') := by
  rw [run_eq, Act.run_bind, hstart]
  dsimp only
  rw [Act.run_bind, hrs]

/-- The middle of the interval around the values of trials is their mean. -/
theorem midpoint_trials (g : Goal) {ts : List (Trial σ (Exact F))} (hne : ts ≠ [])
    (hnumeric : ∀ t ∈ ts, Scalar.isFinite t.value = true) {d : F} (h0 : 0 < d) (h1 : d < 1)
    (k : CriticalValue) :
    (Interval.ofValues ((ts.map (Trial.replicate g)).map (·.value)) (.finite d) k).midpoint =
      .finite ((ts.map fun t => t.value.value).sum / ts.length) := by
  have hvalues : (ts.map (Trial.replicate g)).map (·.value) =
      (ts.map fun t => t.value.value).map .finite := by
    rw [List.map_map, List.map_map]
    exact List.map_congr_left fun t ht => (Exact.finite_value (hnumeric t ht)).symm
  rw [hvalues, Interval.midpoint_ofValues (mt List.map_eq_nil_iff.1 hne) h0 h1, List.length_map]

end Plan

/-! ## Courses on a tape -/

section Tape

variable {F : Type} [Field F] [LinearOrder F] [IsStrictOrderedRing F] [FloorRing F] [Curves F]
  {σ : Type} [Host σ (Exact F)] {plan : Plan σ (Exact F)} {s : Study σ (Exact F)}
  {ledger ledger₀ ledger' : Ledger σ (Exact F)} {tape : σ → Tape (Exact F)} {g : Goal}
  (h : s.Reads plan.solver tape g)

include h

/-- A course uses up one block for each trial and one for the evaluation. -/
theorem Course.Runs.consumes {c : Course σ (Exact F)} (hc : c.Runs plan s ledger ledger') :
    c.Consumes plan (tape ledger.env) ∧ tape ledger'.env = (tape ledger.env).advance
      (plan.replications.toNat * plan.samples.toNat + plan.evaluation.toNat) := by
  obtain ⟨⟨between, hseries, hv⟩, hcount, -⟩ := hc
  obtain ⟨htrials, hmoved⟩ := hseries.block h
  have hall := hseries.payloads h
  obtain ⟨hfresh, hlast⟩ := hv.block h
  rw [hcount] at hmoved hall
  rw [hmoved] at hfresh hlast
  refine ⟨⟨htrials, hfresh, ?_⟩, hlast.trans (Tape.advance_advance ..)⟩
  rw [hall, Tape.block_add, hfresh.fills.payloads]

/-- What is concluded from the trials and an estimate is a report of the course. -/
theorem Course.Runs.reports {c : Course σ (Exact F)} (hc : c.Runs plan s ledger ledger')
    {d : F} (hd : plan.confidence = .finite d) (h0 : 0 < d) (h1 : d < 1)
    (hbest : c.Numeric → g.FirstBest Trial.value c.trials c.best) {i : Interval (Exact F)}
    (hworth : Scalar.isFinite c.value = true → i.midpoint = c.value) {e : Estimate (Exact F)}
    (he : e = plan.conclude g.sign (c.best.replicate g) (Interval.ofValues
      ((c.trials.map (Trial.replicate g)).map (·.value)) plan.confidence .student) i) :
    c.Reports g e := by
  have hne := List.ne_nil_of_mem hc.mem
  have hdecision : e.decision = c.best.decision := by rw [he]; rfl
  have hobjective : e.objective = c.best.value := by rw [he]; rfl
  have hmean (hnumeric : c.Numeric) : e.replicated g =
      .finite ((c.trials.map fun t => t.value.value).sum / c.trials.length) := by
    rw [he, Plan.conclude_replicated, hd, Plan.midpoint_trials g hne hnumeric h0 h1]
  have hle (hnumeric : c.Numeric) := (hbest hnumeric).le_mean hnumeric
  obtain ⟨⟨_, hseries, -⟩, -, hmem⟩ := hc
  have hvalue (hnumeric : c.Numeric) := Exact.finite_value (hnumeric _ hmem)
  refine ⟨?_, hbest, hmean, fun hnumeric hg => ?_, fun hnumeric hg => ?_, fun hnumber => ?_, ?_⟩
  · obtain ⟨r, hr⟩ := (hseries.concluded c.best hmem).solution
    rw [hdecision, hobjective, Trial.decision, Trial.value, hr]
    exact ⟨r, rfl, rfl, rfl⟩
  · subst hg
    rw [hobjective, ← hvalue hnumeric, show e.lowerBound = _ from hmean hnumeric,
      Exact.atMost_finite]
    exact decide_eq_true (Goal.le_of_factor_le (hle hnumeric))
  · subst hg
    rw [hobjective, ← hvalue hnumeric, show e.upperBound = _ from hmean hnumeric,
      Exact.atMost_finite]
    exact decide_eq_true (Goal.le_of_factor_le (hle hnumeric))
  · rw [he, Plan.conclude_evaluated, hworth hnumber]
  · rw [he]
    rfl

/-- A study that comes to an end ran a course. -/
theorem Study.Reads.exists_course (hstart : (plan.start s).run.run ledger = (.ok (), ledger₀))
    {e : Estimate (Exact F)} (hrun : (plan.run s).run.run ledger = (.ok e, ledger')) :
    ∃ c : Course σ (Exact F), c.Runs plan s ledger₀ ledger' ∧ c.Reports g e := by
  obtain ⟨rs, between, b, i, hrs, hb, hi, rfl⟩ := (Plan.run_ok_iff hstart).1 hrun
  have hcount := Study.one_le_of_replications hrs
  obtain ⟨ts, hseries, hlength, rfl⟩ := (h.replications_ok_iff hcount).1 hrs
  have hne : ts ≠ [] := List.ne_nil_of_length_pos (by omega)
  rw [Plan.factor_replicates g hne] at hb ⊢
  obtain ⟨t, ht, hpicked, hfirst⟩ := Plan.exists_picked g hne
  obtain rfl := Option.some.inj (hpicked.symm.trans hb)
  obtain ⟨⟨d, hd, h0, h1⟩, p, v, hv⟩ := h.exists_estimate_iff.1 ⟨i, hi⟩
  have hc : Course.Runs ⟨ts, t, p, v⟩ plan s ledger₀ ledger' :=
    ⟨⟨between, hseries, hv⟩, hlength, ht⟩
  exact ⟨_, hc, hc.reports h hd h0 h1 hfirst (h.midpoint_estimate hi hv) rfl⟩

/-- A course whose first best trial is evaluated is that of a study that comes to an end. -/
theorem Course.Runs.exists_estimate (hstart : (plan.start s).run.run ledger = (.ok (), ledger₀))
    {c : Course σ (Exact F)} (hc : c.Runs plan s ledger₀ ledger') (hnumeric : c.Numeric)
    (hbest : g.FirstBest Trial.value c.trials c.best)
    (hconfidence : ∃ d : F, plan.confidence = .finite d ∧ 0 < d ∧ d < 1) :
    ∃ e, (plan.run s).run.run ledger = (.ok e, ledger') := by
  have hne := List.ne_nil_of_mem hc.mem
  obtain ⟨⟨between, hseries, hv⟩, hcount, -⟩ := hc
  have hpositive := List.length_pos_iff.2 hne
  have hrs := (h.replications_ok_iff (by omega)).2 ⟨c.trials, hseries, hcount, rfl⟩
  obtain ⟨t, -, hpicked, hfirst⟩ := Plan.exists_picked g hne
  obtain rfl := hbest.unique (hfirst hnumeric)
  obtain ⟨i, hi⟩ := h.exists_estimate_iff.2 ⟨hconfidence, _, _, hv⟩
  rw [← Plan.factor_replicates g hne] at hpicked
  exact ⟨_, (Plan.run_ok_iff hstart).2 ⟨_, between, _, i, hrs, hpicked, hi, rfl⟩⟩

/-- The first replication without an optimum ends a study, when it has used up its own block. -/
theorem Study.Reads.run_refused (hstart : (plan.start s).run.run ledger = (.ok (), ledger₀))
    {ts : List (Trial σ (Exact F))} {between drawn : Ledger σ (Exact F)}
    (hts : Series s plan.samples plan.solver ts ledger₀ between)
    (hcount : ts.length < plan.replications.toNat) {p p' : Program σ (Exact F)}
    (hsampled : (s.sampled (.ofInt plan.samples)).run.run between = (.ok p, drawn))
    {status : Status} (hoptimize : (Program.optimize plan.solver).run.run (p, drawn) =
      (.ok status, p', ledger')) (hstatus : status ≠ .optimal) :
    (plan.run s).run.run ledger =
        (.error (.solveFailure status none (.replication ts.length)), ledger') ∧
      tape ledger'.env = (tape ledger₀.env).advance ((ts.length + 1) * plan.samples.toNat) := by
  constructor
  · refine Plan.run_failed hstart (h.replications_failed hts hcount hsampled hoptimize ?_)
    cases status with
    | optimal => exact absurd rfl hstatus
    | _ => rfl
  · obtain ⟨-, -, hmoved⟩ := h.optimized_on hsampled hoptimize
    rw [hmoved, (hts.block h).2, Tape.advance_advance, Nat.succ_mul]

/-- A study reports what it ran.  Where it comes to an end, it ran trials and an evaluation on
consecutive blocks of the random stream, and reports them.  It does come to an end where the trials
have numbers as values and the decision of the first best one can be evaluated.  The first
replication without an optimum is a refusal, raised when its own block is used up and nothing
else. -/
theorem Plan.run_reports (hstart : (plan.start s).run.run ledger = (.ok (), ledger₀)) :
    (∀ e ledger', (plan.run s).run.run ledger = (.ok e, ledger') →
      ∃ c : Course σ (Exact F), c.Runs plan s ledger₀ ledger' ∧
        c.Consumes plan (tape ledger₀.env) ∧
        tape ledger'.env = (tape ledger₀.env).advance
          (plan.replications.toNat * plan.samples.toNat + plan.evaluation.toNat) ∧
        c.Reports g e) ∧
    (∀ (c : Course σ (Exact F)) (ledger' : Ledger σ (Exact F)), c.Runs plan s ledger₀ ledger' →
      c.Numeric → g.FirstBest Trial.value c.trials c.best →
      (∃ d : F, plan.confidence = .finite d ∧ 0 < d ∧ d < 1) →
        ∃ e, (plan.run s).run.run ledger = (.ok e, ledger')) ∧
    ∀ (ts : List (Trial σ (Exact F))) (p p' : Program σ (Exact F)) (status : Status)
      (between drawn ledger' : Ledger σ (Exact F)),
      Series s plan.samples plan.solver ts ledger₀ between →
      ts.length < plan.replications.toNat →
      (s.sampled (.ofInt plan.samples)).run.run between = (.ok p, drawn) →
      (Program.optimize plan.solver).run.run (p, drawn) = (.ok status, p', ledger') →
      status ≠ .optimal →
        (plan.run s).run.run ledger =
            (.error (.solveFailure status none (.replication ts.length)), ledger') ∧
          tape ledger'.env = (tape ledger₀.env).advance ((ts.length + 1) * plan.samples.toNat) := by
  refine ⟨fun e ledger' hrun => ?_, fun c ledger' hc hnumeric hbest hconfidence => ?_,
    fun ts p p' status between drawn ledger' hts hcount hsampled hoptimize hstatus => ?_⟩
  · obtain ⟨c, hc, hreports⟩ := h.exists_course hstart hrun
    obtain ⟨hconsumes, hmoved⟩ := hc.consumes h
    exact ⟨c, hc, hconsumes, hmoved, hreports⟩
  · exact hc.exists_estimate h hstart hnumeric hbest hconfidence
  · exact h.run_refused hstart hts hcount hsampled hoptimize hstatus

end Tape

/-! ## A stock on a workbench -/

/-- Roots of squares, and the quantiles for 95% of four values. -/
instance : Curves ℚ where
  sqrt := Rat.sqrt
  exp x := 1 + x
  normalQuantile _ := 1.959963984540054
  studentQuantile _ _ := 3.182446305284263
  sqrt_pos {x} hx := by
    have hnumerator : 0 < Int.sqrt x.num := by
      obtain ⟨n, hn⟩ := Int.eq_ofNat_of_zero_le (Rat.num_pos.2 hx).le
      have hpos := Rat.num_pos.2 hx
      rw [hn] at hpos ⊢
      exact_mod_cast Nat.sqrt_pos.2 (by exact_mod_cast hpos)
    have hdenominator : 0 < Nat.sqrt x.den := Nat.sqrt_pos.2 x.den_pos
    rw [Rat.sqrt, Rat.mkRat_eq_div]
    positivity

namespace Bench

section Reading

variable {K : Type} [Scalar K] (values : List (Value K))

/-- What a list gives when it is read in a circle. -/
def tape (b : Bench K) : Tape K :=
  ⟨fun k => ((circular (K := K) values k).toOption).getD .null, b.position⟩

/-- A list is read from the position of the stream on. -/
theorem listSampler_reads : (listSampler values).Reads (tape values) := by
  intro ledger data ledger' hrun
  obtain ⟨b, _, hb, hrest⟩ := Act.run_bind_eq_ok_iff.1 hrun
  cases hb
  obtain ⟨x, hx, hmoved⟩ := Act.run_lift_bind_eq_ok_iff.1 hrest
  cases hmoved
  refine ⟨?_, rfl⟩
  show [((circular (K := K) values (ledger.env.position + 0)).toOption).getD .null] = _
  rw [Int.add_zero, hx]
  rfl

/-- Neither solving nor looking at the clock moves the stream. -/
theorem spares : Host.Spares fun ledger : Ledger (Bench K) K => tape values ledger.env where
  optimize _ _ _ := rfl
  clock _ := rfl
  records _ _ _ := rfl

end Reading

/-- A stock of at most three at unit cost. -/
def tradedStock : Model (Exact ℚ) :=
  { (Model.empty "stock" : Model (Exact ℚ)) with
    goal := .maximize
    columns := [⟨0, 0, .finite 3, some "x", none⟩]
    objective? := some ⟨[(0, -1)], 0, []⟩ }

/-- At a price, at most the stock is sold, or any amount is bought. -/
def trade (price : ℚ) : Model (Exact ℚ) :=
  { (Model.empty "trade" : Model (Exact ℚ)) with
    goal := .maximize
    columns := [⟨0, .minusInfinity, .plusInfinity, some "x", some 0⟩,
      ⟨1, .minusInfinity, .plusInfinity, some "y", none⟩]
    rows := [⟨⟨[(0, -1), (1, 1)], 0, []⟩, .atMost, 0, none, 0, 0⟩]
    objective? := some ⟨[(1, .finite price)], 0, []⟩ }

/-- The stock, and what it brings at the price that is drawn. -/
def tradeTemplate : Template (Bench (Exact ℚ)) (Exact ℚ) where
  first := some ⟨"stock", fun _ => return .model tradedStock⟩
  second := some ⟨"trade", fun _ _ payload => return match payload with
    | .real (.finite price) => .model (trade price)
    | _ => .value .null⟩

/-- Prices as payloads. -/
def quoted (prices : List ℚ) : List (Value (Exact ℚ)) := prices.map fun p => .real (.finite p)

/-- Sampled programs of the stock, on prices in turn. -/
def tradeStudy (prices : List ℚ) : Study (Bench (Exact ℚ)) (Exact ℚ) :=
  ⟨tradeTemplate, listSampler (quoted prices), Program.Setup.standard, false⟩

/-- Four replications of one price each, and four prices for the evaluation. -/
def tradePlan : Plan (Bench (Exact ℚ)) (Exact ℚ) where
  samples := 1
  replications := 4
  evaluation := 4
  confidence := .finite (19 / 20)
  solver := some (.structured ⟨.extensive, Config.default Method.extensive.configKind,
    Backend.plain⟩)
  seed := some 0

theorem tradeStudy_reads (prices : List ℚ) :
    (tradeStudy prices).Reads tradePlan.solver (tape (quoted prices)) .maximize where
  sampler := listSampler_reads _
  host := spares _
  first r hr := by
    cases hr
    refine ⟨fun _ _ => rfl, fun _ => Act.ensures_pure ?_⟩
    rintro m ⟨⟩
    rfl
  second r hr := by
    cases hr
    exact fun _ _ _ _ => rfl
  setup _ hb := nomatch hb
  solver b hb := by
    cases hb
    exact fun _ _ => rfl

/-- How the next replication ends. -/
def ending (prices : List ℚ) : Act (Bench (Exact ℚ)) (Exact ℚ) Status := do
  let p ← (tradeStudy prices).sampled (.ofInt 1)
  return (← (Program.optimize tradePlan.solver).apply p).1

/-- A workbench on which nothing happened yet. -/
def start : Ledger (Bench (Exact ℚ)) (Exact ℚ) := ⟨fresh, [], 0⟩

/-- Prices of four replications and of an evaluation. -/
def prices : List ℚ := [1 / 2, 2, 1 / 2, 1 / 2, 1, 1, 1, 4 / 3]

/-- Of four replications the second one is the best, which buys three units at the price of two.
They are worth a quarter at the prices that follow, and the replications are worth three quarters
on average.  Where the second price is negative the study ends with the second replication. -/
theorem tradeStudy_reports :
    (∃ (e : Estimate (Exact ℚ)) (ledger' : Ledger (Bench (Exact ℚ)) (Exact ℚ))
        (c : Course (Bench (Exact ℚ)) (Exact ℚ)),
      (tradePlan.run (tradeStudy prices)).run.run start = (.ok e, ledger') ∧
        (e.decision, e.objective, e.lowerBound, e.upperBound) =
          ([.finite 3], .finite 3, .finite (1 / 4), .finite (3 / 4)) ∧
        c.Runs tradePlan (tradeStudy prices) start ledger' ∧ c.Numeric ∧
        c.Consumes tradePlan (tape (quoted prices) fresh) ∧ c.Reports .maximize e ∧
        ledger'.env.position = 8) ∧
    ∃ ledger' : Ledger (Bench (Exact ℚ)) (Exact ℚ),
      (tradePlan.run (tradeStudy [2, -1])).run.run start =
        (.error (.solveFailure .unbounded none (.replication 1)), ledger') ∧
      ledger'.env.position = 2 := by
  constructor
  · have hreads := tradeStudy_reads prices
    have hstart : (tradePlan.start (tradeStudy prices)).run.run start = (.ok (), start) := rfl
    obtain ⟨hok, -⟩ := Plan.run_reports hreads hstart
    obtain ⟨e, ledger', hrun, hends⟩ := Act.exists_of_map_eq_some
      (tradePlan.run (tradeStudy prices)) start
      (fun e => (e.decision, e.objective, e.lowerBound, e.upperBound))
      (b := ([.finite 3], .finite 3, .finite (1 / 4), .finite (3 / 4))) (by decide +kernel)
    obtain ⟨rs, after, hrs, hvalues⟩ := Act.exists_of_map_eq_some
      ((tradeStudy prices).replications (.ofInt 1) (.ofInt 4) tradePlan.solver)
      start (fun rs => rs.map (·.value))
      (b := [.finite 0, .finite 3, .finite 0, .finite 0]) (by decide +kernel)
    obtain ⟨c, hc, hconsumes, hmoved, hreports⟩ := hok e ledger' hrun
    have hnumeric : c.Numeric := by
      obtain ⟨⟨between, hseries, -⟩, hcount, -⟩ := id hc
      have hagree := (hreads.replications_ok_iff (by decide)).2 ⟨c.trials, hseries, hcount, rfl⟩
      obtain rfl : rs = _ := Except.ok.inj (congrArg Prod.fst (hrs.symm.trans hagree))
      intro t ht
      have hvalue : t.value ∈ [Exact.finite 0, .finite 3, .finite 0, .finite 0] := by
        rw [← hvalues, List.map_map]
        exact List.mem_map_of_mem ht
      have hfinite : ∀ v ∈ [Exact.finite (0 : ℚ), .finite 3, .finite 0, .finite 0],
          Scalar.isFinite v = true := by decide
      exact hfinite _ hvalue
    exact ⟨e, ledger', c, hrun, hends, hc, hnumeric, hconsumes, hreports,
      congrArg Tape.position hmoved⟩
  · have hreads := tradeStudy_reads [2, -1]
    have hstart : (tradePlan.start (tradeStudy [2, -1])).run.run start = (.ok (), start) := rfl
    obtain ⟨-, -, hfails⟩ := Plan.run_reports hreads hstart
    obtain ⟨status, ledger', hrun, rfl⟩ := Act.exists_of_map_eq_some
      (do let _ ← (tradeStudy [2, -1]).replicate (.ofInt 1) tradePlan.solver 0; ending [2, -1])
      start id (b := .unbounded) (by decide +kernel)
    obtain ⟨r, between, hfirst, hsecond⟩ := Act.run_bind_eq_ok_iff.1 hrun
    obtain ⟨t, ht, -⟩ := hreads.replicate_ok_iff.1 hfirst
    obtain ⟨p, drawn, hsampled, hrest⟩ := Act.run_bind_eq_ok_iff.1 hsecond
    obtain ⟨⟨status, p'⟩, last, hoptimize, hending⟩ := Act.run_bind_eq_ok_iff.1 hrest
    cases hending
    rw [Change.run_apply_eq_ok_iff] at hoptimize
    obtain ⟨hfailed, hmoved⟩ := hfails [t] p p' .unbounded between drawn ledger'
      (.cons ht (.nil _)) (show 1 < 4 by decide) hsampled hoptimize (by decide)
    exact ⟨ledger', hfailed, congrArg Tape.position hmoved⟩

end Bench

end Recourse
