/-
  Proofs/LShaped/Termination.lean --- the L-shaped method ends, phase by phase.

  Nothing here asks whether the answers of the backend are right, only that an optimum
  comes with numbers.  `State.AtPhase` says what holds of a run that is about to enter a
  phase, `turnsLeft` counts the steps that are left at most, and every phase that is not
  refused hands on the one and lowers the other.  From there follows what holds of every
  state a run visits (`Visited.orderly`): the run is over after four steps per iteration
  and two, each phase finds what it needs, and a run that is asked to stop does so at its
  next step and leaves nothing to commit.

  One phase can be entered without what it needs.  A value of positive infinity is no
  better than having none, so a first-stage constant of positive infinity in minimization
  form leaves a run without an incumbent, and the phase that puts the solution together
  is refused (`step_refused`).
-/
import Recourse.Proofs.LShaped.Bounds
import Recourse.Proofs.Program.Weighing
import Recourse.Proofs.Solver.Results

set_option autoImplicit false
set_option linter.unusedSectionVars false

namespace Recourse

variable {F : Type} [Field F] [LinearOrder F] [IsStrictOrderedRing F] [FloorRing F] {σ : Type}

/-! ## Numbers -/

theorem isFinite_dot {xs ys : List (Exact F)} (hx : AllFinite xs) (hy : AllFinite ys) :
    Scalar.isFinite (Scalar.dot xs ys) = true := by
  rw [hx.eq_map, hy.eq_map, Exact.dot_finite]
  exact Exact.isFinite_finite _

theorem isFinite_sum {xs : List (Exact F)} (h : AllFinite xs) :
    Scalar.isFinite (Scalar.sum xs) = true := by
  rw [sum_eq_of_allFinite h]
  exact Exact.isFinite_finite _

theorem isFinite_mul {x y : Exact F} (hx : Scalar.isFinite x = true)
    (hy : Scalar.isFinite y = true) : Scalar.isFinite (x * y) = true := by
  rw [← Exact.finite_value hx, ← Exact.finite_value hy, Exact.finite_mul]
  exact Exact.isFinite_finite _

/-- Numbers beside a constant do not decide whether a sum is less than infinity. -/
theorem less_infinity_iff {a b c : Exact F} (ha : Scalar.isFinite a = true)
    (hb : Scalar.isFinite b = true) :
    Scalar.less (a + c + b) Scalar.infinity = Scalar.less c Scalar.infinity := by
  rw [← Exact.finite_value ha, ← Exact.finite_value hb]
  cases c <;> rfl

/-- What is less than something is less than infinity. -/
theorem less_infinity_of_less {a b : Exact F} (h : Scalar.less a b = true) :
    Scalar.less a Scalar.infinity = true := by
  cases a <;> cases b <;> first | rfl | cases h

namespace LShaped

variable {s s' : State (Exact F)} {m : LShaped σ (Exact F)} {p : Program σ (Exact F)} {N : Nat}

/-! ## What a run keeps -/

namespace State

/-- What holds of a run at any time. -/
structure Frame (s : State (Exact F)) (p : Program σ (Exact F)) (m : LShaped σ (Exact F))
    (N : Nat) : Prop where
  /-- It is one on the program. -/
  program : s.programId = p.id
  /-- The sense is a number. -/
  sign : Scalar.isFinite s.sign = true
  /-- Iterations are counted from zero, and not beyond the limit. -/
  iterations : 0 ≤ s.iterations ∧ s.iterations ≤ N
  /-- The recourse variables are all active or all inactive. -/
  active : ∃ b, s.active = List.replicate (groupCount m.rules.multicut p.scenarioCount) b
  /-- Without an incumbent there is no upper bound. -/
  bound : s.incumbent = none → s.upperBound = .plusInfinity
  /-- An incumbent has a value that is less than infinity. -/
  incumbent : s.incumbent.isSome = true → Scalar.less s.first.constant Scalar.infinity = true

/-- What holds of a run that is not over. -/
structure Underway (s : State (Exact F)) (p : Program σ (Exact F)) (m : LShaped σ (Exact F))
    (N : Nat) : Prop extends s.Frame p m N where
  /-- It has no status. -/
  status : s.status = .unsolved
  /-- It has no decision. -/
  decision : s.decision = none

/-- What holds of a run that is over. -/
structure Over (s : State (Exact F)) (p : Program σ (Exact F)) (m : LShaped σ (Exact F))
    (N : Nat) : Prop extends s.Frame p m N where
  /-- It has a status. -/
  status : s.status ≠ .unsolved
  /-- It has a decision at an optimum only. -/
  decision : s.decision.isSome = true → s.status = .optimal

/-- A decision with a cost. -/
def Priced (s : State (Exact F)) (x : List (Exact F)) : Prop :=
  AllFinite x ∧ AllFinite s.first.cost

/-- What a phase needs. -/
def Ready (s : State (Exact F)) (p : Program σ (Exact F)) : Phase → Prop
  | .broadcast => ∃ x, s.candidate = some x ∧ s.Priced x
  | .subproblemSolve => ∃ r, s.round = some r ∧ s.Priced r.decision
  | .aggregate => ∃ r, s.round = some r ∧ s.Priced r.decision ∧ (r.isComplete = true →
      r.outcomes.map (·.index) = (List.range p.scenarioCount).map Int.ofNat ∧
        Scalar.isFinite r.expectedRecourse = true)
  | .converged => Scalar.less s.first.constant Scalar.infinity = true → s.incumbent.isSome = true
  | _ => True

/-- What holds of a run that is about to enter a phase. -/
def AtPhase (s : State (Exact F)) (p : Program σ (Exact F)) (m : LShaped σ (Exact F)) (N : Nat)
    (phase : Phase) : Prop :=
  if phase = .terminated then s.Over p m N else s.Underway p m N ∧ s.Ready p phase

theorem AtPhase.underway {phase : Phase} (h : s.AtPhase p m N phase) (hphase : phase ≠ .terminated) :
    s.Underway p m N ∧ s.Ready p phase := by
  rwa [AtPhase, if_neg hphase] at h

theorem AtPhase.frame {phase : Phase} (h : s.AtPhase p m N phase) : s.Frame p m N := by
  unfold AtPhase at h
  split at h
  · exact h.toFrame
  · exact h.1.toFrame

/-- Nothing that is kept was touched but the status and the phase. -/
theorem Frame.congr (h : s.Frame p m N) (hprogram : s'.programId = s.programId)
    (hsign : s'.sign = s.sign) (hiterations : s'.iterations = s.iterations)
    (hactive : s'.active = s.active) (hupper : s'.upperBound = s.upperBound)
    (hincumbent : s'.incumbent = s.incumbent) (hfirst : s'.first = s.first) :
    s'.Frame p m N :=
  ⟨hprogram ▸ h.program, hsign ▸ h.sign, hiterations ▸ h.iterations, hactive ▸ h.active,
    hupper ▸ hincumbent ▸ h.bound, hincumbent ▸ hfirst ▸ h.incumbent⟩

end State

/-- The steps that are left at most. -/
def turnsLeft (N : Nat) (iterations : Int) : Phase → Nat
  | .init => 4 * (N - iterations.toNat) + 2
  | .masterSolve => 4 * (N - iterations.toNat) + 1
  | .broadcast => 4 * (N - iterations.toNat) + 4
  | .subproblemSolve => 4 * (N - iterations.toNat) + 3
  | .aggregate => 4 * (N - iterations.toNat) + 2
  | .converged => 4 * (N - iterations.toNat) + 1
  | .terminated => 0

theorem turnsLeft_pos (N : Nat) (iterations : Int) {phase : Phase} (h : phase ≠ .terminated) :
    0 < turnsLeft N iterations phase := by
  cases phase with
  | terminated => exact absurd rfl h
  | _ => exact Nat.succ_pos _

/-- A phase that is not refused gets a run on: it leaves what the next phase needs and
fewer steps, and unless the run is over, the master problem was solved as often as
iterations were counted. -/
def Advances (p : Program σ (Exact F)) (m : LShaped σ (Exact F)) (N : Nat) (phase : Phase)
    (s₀ s : State (Exact F)) (c : Run σ (Exact F) Phase) : Prop :=
  c.Ensures s
    (fun next s' => s'.AtPhase p m N next ∧
      turnsLeft N s'.iterations next < turnsLeft N s₀.iterations phase ∧
      (next ≠ .terminated →
        s'.iterations = s₀.iterations + if phase = .masterSolve then 1 else 0))
    fun _ _ => True

/-! ## Phases -/

section Phases

variable {s₀ : State (Exact F)} {phase : Phase}

/-- A run that ends without an optimum. -/
theorem State.Underway.ended (h : s.Underway p m N) (status : Status)
    (hstatus : status ≠ .unsolved) :
    ({ s with status } : State (Exact F)).AtPhase p m N .terminated := by
  refine ⟨h.toFrame.congr rfl rfl rfl rfl rfl rfl rfl, hstatus, fun hdecision => ?_⟩
  rw [show ({ s with status } : State (Exact F)).decision = none from h.decision] at hdecision
  cases hdecision

theorem State.Underway.finish (h : s.Underway p m N) (hphase : phase ≠ .terminated)
    {status : Status} (hstatus : status ≠ .unsolved) :
    Advances p m N phase s₀ s (LShaped.finish (σ := σ) status) :=
  Change.ensures_bind (Change.ensures_update (Change.ensures_pure
    ⟨h.ended _ hstatus, turnsLeft_pos _ _ hphase, fun hnext => absurd rfl hnext⟩))

theorem init_advances [Host σ (Exact F)] (h : s.AtPhase p m N .init) :
    Advances p m N .init s s (runPhase m p .init) := by
  obtain ⟨hs, -⟩ := h.underway nofun
  refine Change.ensures_bind (Change.ensures_update (Change.ensures_pure
    ⟨⟨⟨⟨hs.program, hs.sign, hs.iterations, hs.active, fun _ => rfl, hs.incumbent⟩, hs.status,
      hs.decision⟩, trivial⟩, Nat.lt_succ_self _, fun _ => (add_zero _).symm⟩))

/-- Optimal results of the backend of a method are made of numbers, right or wrong. -/
structure ReturnsNumbers [Host σ (Exact F)] (m : LShaped σ (Exact F)) (p : Program σ (Exact F)) :
    Prop where
  /-- The points of master problems. -/
  master : ∀ q : LinearProgram (Exact F), (q.solve m.backend.params : Act σ (Exact F) _).Ensures
    (fun r => r.status = .optimal → AllFinite r.point) fun _ => True
  /-- The values of subproblems. -/
  subproblem : ∀ slot ∈ p.slots, ∀ model ∈ slot.model?, ∀ x, AllFinite x →
    (m.backend.optimize model (some x)).Ensures
      (fun r => r.status = .optimal → Scalar.isFinite r.objective = true) fun _ => True

/-- The limit on iterations is not reached yet. -/
theorem iterations_lt (hN : m.rules.maxIterations = .finite N)
    (h : ¬ Scalar.atMost m.rules.maxIterations (Scalar.ofInt s.iterations) = true) :
    s.iterations < N := by
  rw [hN] at h
  have hcast : ¬ ((N : F) ≤ (s.iterations : F)) := fun hle =>
    h ((Exact.atMost_finite _ _).trans (decide_eq_true hle))
  exact_mod_cast not_le.1 hcast

/-- An answer to the master problem of an iteration. -/
theorem verdict_advances (hs : s.Underway p m N)
    (hlimit : 0 ≤ s₀.iterations ∧ s₀.iterations < N)
    (hcount : s.iterations = s₀.iterations + 1) (hcost : AllFinite s.first.cost)
    {r : SolveResult (Exact F)} (hr : r.status = .optimal → AllFinite r.point) :
    Advances p m N .masterSolve s₀ s (match r.status with
      | .optimal => do Change.update (takeMaster r); return .broadcast
      | .infeasible => finish .infeasible
      | .unbounded => finish .unbounded
      | status => Change.fail (.solveFailure status none .master) : Run σ (Exact F) Phase) := by
  split
  · rename_i hoptimal
    refine Change.ensures_bind (Change.ensures_update (Change.ensures_pure ⟨⟨⟨hs.toFrame.congr rfl rfl rfl rfl rfl rfl rfl,
      hs.status, hs.decision⟩, r.point.take s.firstColumns, rfl, (hr hoptimal).take _, hcost⟩, ?_, fun _ => ?_⟩))
    · show 4 * (N - s.iterations.toNat) + 4 < 4 * (N - s₀.iterations.toNat) + 1
      omega
    · exact hcount
  · exact hs.finish (by decide) (by decide)
  · exact hs.finish (by decide) (by decide)
  · exact Change.ensures_fail trivial

theorem masterSolve_advances [Host σ (Exact F)] (hN : m.rules.maxIterations = .finite N)
    (hm : ReturnsNumbers m p) (h : s.AtPhase p m N .masterSolve) :
    Advances p m N .masterSolve s s (masterSolve m) := by
  obtain ⟨hs, -⟩ := h.underway nofun
  unfold masterSolve
  refine Change.ensures_bind (Change.ensures_state ?_)
  split
  · exact hs.finish (by decide) (by decide)
  rename_i hlimit
  have hlimit : s.iterations < N := iterations_lt hN hlimit
  have hbegun := hs.iterations.1
  have hstarted : ∀ boxed, ({ s with iterations := s.iterations + 1, boxed } :
      State (Exact F)).Underway p m N := fun boxed =>
    ⟨⟨hs.program, hs.sign, ⟨by simp only; omega, by simp only; omega⟩,
      hs.active, hs.bound, hs.incumbent⟩, hs.status, hs.decision⟩
  have hcost : ∀ lower upper, AllFinite (s.master lower upper).cost → AllFinite s.first.cost :=
    fun _ _ hmaster a ha => hmaster a (List.mem_append_left _ ha)
  refine Change.ensures_bind (Change.ensures_update (Change.ensures_bind (Change.ensures_ofAct
    (((hm.master _).and (LinearProgram.solve_cost _ _)).mono ?_ fun _ _ => trivial))))
  rintro free ⟨hfree, hfinite⟩
  refine Change.ensures_bind (Change.ensures_update ?_)
  dsimp only
  split
  · refine Change.ensures_bind (Change.ensures_ofAct ((hm.master _).mono ?_ fun _ _ => trivial))
    exact fun r hr => verdict_advances (hstarted _) ⟨hbegun, hlimit⟩ rfl (hcost _ _ hfinite) hr
  · exact Change.ensures_bind (Change.ensures_pure
      (verdict_advances (hstarted _) ⟨hbegun, hlimit⟩ rfl (hcost _ _ hfinite) hfree))

theorem broadcast_advances (h : s.AtPhase p m N .broadcast) :
    Advances p m N .broadcast s s (broadcast : Run σ (Exact F) Phase) := by
  obtain ⟨hs, x, hx, hpriced⟩ := h.underway nofun
  refine Change.ensures_bind (Change.ensures_update (Change.ensures_pure
    ⟨⟨⟨hs.toFrame.congr rfl rfl rfl rfl rfl rfl rfl, hs.status, hs.decision⟩,
      Round.announced x, ?_, hpriced⟩, Nat.lt_succ_self _, fun _ => (add_zero _).symm⟩))
  show some (Round.announced (s.candidate.getD [])) = _
  rw [hx]
  rfl

/-- A round on a backend whose optima are numbers, at a decision made of numbers: unless a
subproblem failed there is an outcome per scenario, and the expected value is a number. -/
theorem solveRound_numbers [Host σ (Exact F)] (hm : ReturnsNumbers m p)
    (hweights : ∀ slot ∈ p.slots, Scalar.isWeight slot.scenario.probability = true)
    (hcurrent : p.isDeferred = false) {x : List (Exact F)} (hx : AllFinite x) :
    (p.solveRound m.backend x).Ensures
      (fun r => r.decision = x ∧ (r.isComplete = true →
        r.outcomes.map (·.index) = (List.range p.scenarioCount).map Int.ofNat ∧
          Scalar.isFinite r.expectedRecourse = true)) fun _ => True := by
  have hjob : ∀ (i : Nat) (slot : Slot (Exact F)), p.slots[i]? = some slot →
      (Program.answer m.backend x (i : Int) slot.scenario slot.model?).Ensures
        (Sum.elim (fun o => o.index = (i : Int) ∧
          Scalar.isFinite (o.probability * o.objective) = true) fun _ => True)
        fun _ => True := by
    intro i slot hslot
    have hmem : slot ∈ p.slots := List.mem_of_getElem? hslot
    obtain ⟨w, hw, -⟩ := (Exact.isWeight_iff _).1 (hweights slot hmem)
    unfold Program.answer
    cases hmodel : slot.model? with
    | none => exact Act.ensures_bind (Act.ensures_fail trivial)
    | some model =>
      refine Act.ensures_bind (Act.ensures_pure (Act.ensures_bind
        ((hm.subproblem slot hmem model hmodel x hx).mono (fun r hr => ?_) fun _ h => h)))
      split
      · exact Act.ensures_pure trivial
      · rename_i hoptimal
        refine Act.ensures_lift_bind (fun g _ => ?_) fun _ => trivial
        exact Act.ensures_pure ⟨rfl, isFinite_mul (hw ▸ Exact.isFinite_finite w)
          (hr (not_not.1 hoptimal))⟩
  unfold Program.solveRound
  refine Act.ensures_bind ((Program.collect_ensures hcurrent hjob).mono ?_ fun _ h => h)
  intro answers hanswers
  refine Act.ensures_pure ⟨rfl, fun hcomplete => ?_⟩
  have houtcomes := forall₂_outcomes hanswers (List.isEmpty_iff.1 hcomplete)
  constructor
  · exact eq_map_of_forall₂ (List.forall₂_map_right_iff.2 (houtcomes.imp fun _ _ h => h.1))
  · refine isFinite_sum fun a ha => ?_
    obtain ⟨o, ho, rfl⟩ := List.mem_map.1 ha
    exact ((List.forall₂_and_left _ _).1 (houtcomes.flip.imp fun _ _ h => ⟨h.2, h.1⟩)).1 o ho

theorem subproblemSolve_advances [Host σ (Exact F)] (hm : ReturnsNumbers m p)
    (hweights : ∀ slot ∈ p.slots, Scalar.isWeight slot.scenario.probability = true)
    (hcurrent : p.isDeferred = false) (h : s.AtPhase p m N .subproblemSolve) :
    Advances p m N .subproblemSolve s s (subproblemSolve m p) := by
  obtain ⟨hs, announced, hround, hpriced⟩ := h.underway nofun
  unfold subproblemSolve
  refine Change.ensures_bind (Change.ensures_state ?_)
  rw [hround]
  refine Change.ensures_bind (Change.ensures_ofAct
    ((solveRound_numbers hm hweights hcurrent hpriced.1).mono ?_ fun _ _ => trivial))
  rintro r ⟨hdecision, hr⟩
  exact Change.ensures_bind (Change.ensures_update (Change.ensures_pure
    ⟨⟨⟨hs.toFrame.congr rfl rfl rfl rfl rfl rfl rfl, hs.status, hs.decision⟩,
      r, rfl, hdecision ▸ hpriced, hr⟩, Nat.lt_succ_self _, fun _ => (add_zero _).symm⟩))

/-! ## Aggregating -/

/-- What the failure of a scenario leads to: a cut, or a verdict. -/
theorem handleFailure_cuts [Host σ (Exact F)] (x : List (Exact F)) (f : RoundFailure (Exact F)) :
    (handleFailure m p x f).Ensures s
      (fun verdict s' => (∃ cuts, s' = { s with cuts }) ∧ verdict ≠ some .unsolved)
      fun _ _ => True := by
  unfold handleFailure
  refine Change.ensures_bind (Change.ensures_state ?_)
  split
  · split
    · exact Change.ensures_pure ⟨⟨s.cuts, rfl⟩, by decide⟩
    refine Change.ensures_lift_bind (fun sub _ => ?_) fun _ => trivial
    refine Change.ensures_ofAct_bind (fun found => ?_) fun _ => trivial
    dsimp only
    split
    · exact Change.ensures_bind (Change.ensures_fail trivial)
    · exact Change.ensures_bind (Change.ensures_update (Change.ensures_pure
        ⟨⟨_, rfl⟩, by decide⟩))
  · exact Change.ensures_pure ⟨⟨s.cuts, rfl⟩, by decide⟩
  · exact Change.ensures_fail trivial

theorem handleFailures_advances [Host σ (Exact F)] (hs : s.Underway p m N)
    (hcount : s.iterations = s₀.iterations) (x : List (Exact F))
    (failures : List (RoundFailure (Exact F))) :
    Advances p m N .aggregate s₀ s (handleFailures m p x failures) := by
  induction failures generalizing s with
  | nil =>
    refine Change.ensures_pure ⟨⟨hs, trivial⟩, ?_, fun _ => hcount.trans (add_zero _).symm⟩
    rw [hcount]
    exact Nat.lt_succ_self _
  | cons f failures ih =>
    unfold handleFailures
    refine Change.ensures_bind ((handleFailure_cuts x f).mono ?_ fun _ _ h => h)
    rintro verdict _ ⟨⟨cuts, rfl⟩, hverdict⟩
    have hs' : ({ s with cuts } : State (Exact F)).Underway p m N :=
      ⟨hs.toFrame.congr rfl rfl rfl rfl rfl rfl rfl, hs.status, hs.decision⟩
    cases verdict with
    | none => exact ih hs' hcount
    | some status => exact hs'.finish (by decide) fun hstatus => hverdict (congrArg some hstatus)

/-- Marking positions of a list marks them and keeps the rest. -/
theorem foldl_set_true (positions : List Nat) (marks : List Bool) :
    (positions.foldl (fun marks k => marks.set k true) marks).length = marks.length ∧
      ∀ k < marks.length, (k ∈ positions ∨ marks[k]? = some true) →
        (positions.foldl (fun marks k => marks.set k true) marks)[k]? = some true := by
  induction positions generalizing marks with
  | nil => exact ⟨rfl, fun k _ h => h.resolve_left List.not_mem_nil⟩
  | cons i positions ih =>
    obtain ⟨hlength, hmarked⟩ := ih (marks.set i true)
    rw [List.length_set] at hlength hmarked
    refine ⟨hlength, fun k hk h => hmarked k hk ?_⟩
    by_cases hki : i = k
    · subst hki
      exact Or.inr (by rw [List.getElem?_set_self hk])
    · rw [List.getElem?_set_ne hki]
      exact h.imp_left fun hmem => (List.mem_cons.1 hmem).resolve_left fun h => hki h.symm

theorem foldl_set_range (marks : List Bool) :
    (List.range marks.length).foldl (fun marks k => marks.set k true) marks =
      List.replicate marks.length true := by
  obtain ⟨hlength, hmarked⟩ := foldl_set_true (List.range marks.length) marks
  refine List.ext_getElem? fun k => ?_
  by_cases hk : k < marks.length
  · rw [hmarked k hk (Or.inl (List.mem_range.2 hk)), List.getElem?_replicate, if_pos hk]
  · rw [List.getElem?_eq_none (by omega), List.getElem?_eq_none (by simpa using hk)]

/-- The recourse variable of a group is active once its cut was looked at. -/
theorem addOptimalityCut_active (x recourse : List (Exact F))
    (group : Nat × List (Outcome (Exact F))) :
    (addOptimalityCut m x recourse group).Ensures s
      (fun _ s' => ∃ cuts, s' = { s with active := s.active.set group.1 true, cuts })
      fun _ _ => True := by
  unfold addOptimalityCut
  refine Change.ensures_bind (Change.ensures_state (Change.ensures_lift_bind (fun value _ => ?_)
    fun _ => trivial))
  split
  · rename_i hsatisfied
    refine Change.ensures_pure ⟨s.cuts, ?_⟩
    have hactive : s.active.getD group.1 false = true := (Bool.and_eq_true_iff.1 hsatisfied).1
    have hset : s.active.set group.1 true = s.active := by
      refine List.ext_getElem? fun k => ?_
      rw [List.getElem?_set]
      split
      · rename_i hk
        subst hk
        rw [List.getD_eq_getElem?_getD] at hactive
        split <;> simp_all
      · rfl
    rw [hset]
  · exact Change.ensures_bind (Change.ensures_update (Change.ensures_pure ⟨_, rfl⟩))

theorem addOptimalityCuts_active (x recourse : List (Exact F))
    (groups : List (Nat × List (Outcome (Exact F)))) :
    (addOptimalityCuts m x recourse groups).Ensures s
      (fun _ s' => ∃ cuts, s' = { s with
        active := (groups.map (·.1)).foldl (fun marks k => marks.set k true) s.active, cuts })
      fun _ _ => True := by
  induction groups generalizing s with
  | nil => exact Change.ensures_pure ⟨s.cuts, rfl⟩
  | cons group groups ih =>
    unfold addOptimalityCuts
    refine Change.ensures_bind ((addOptimalityCut_active x recourse group).mono ?_ fun _ _ h => h)
    rintro added _ ⟨cuts, rfl⟩
    refine Change.ensures_bind (ih.mono ?_ fun _ _ h => h)
    rintro others _ ⟨cuts', rfl⟩
    exact Change.ensures_pure ⟨cuts', rfl⟩

/-- The outcomes of all scenarios make up a group for every recourse variable. -/
theorem map_fst_groups {outcomes : List (Outcome (Exact F))} {count : Nat}
    (h : outcomes.map (·.index) = (List.range count).map Int.ofNat) (multicut : Bool) :
    (groups multicut outcomes).map (·.1) = List.range (groupCount multicut count) := by
  cases multicut with
  | false => rfl
  | true =>
    have hindices := congrArg (List.map Int.toNat) h
    rw [List.map_map, List.map_map] at hindices
    rw [groups, if_pos rfl, List.map_map, groupCount, if_pos rfl]
    exact hindices.trans (List.map_id _)

/-- Remembering a decision leaves an incumbent wherever a value can be less than
infinity. -/
theorem State.Underway.improve (hs : s.Underway p m N) {r : Round (Exact F)}
    (hpriced : s.Priced r.decision) (hrecourse : Scalar.isFinite r.expectedRecourse = true)
    (master : SolveResult (Exact F)) :
    (LShaped.improve r master s).Underway p m N ∧
      ((LShaped.improve r master s).incumbent.isSome = true ↔
        Scalar.less s.first.constant Scalar.infinity = true) := by
  have hvalue : Scalar.less (valueOf s r) Scalar.infinity =
      Scalar.less s.first.constant Scalar.infinity :=
    less_infinity_iff (isFinite_dot hpriced.2 hpriced.1) (isFinite_mul hs.sign hrecourse)
  unfold LShaped.improve
  dsimp only
  split
  · rename_i hless
    have hconstant := hvalue.symm.trans (less_infinity_of_less hless)
    exact ⟨⟨⟨hs.program, hs.sign, hs.iterations, hs.active, nofun, fun _ => hconstant⟩, hs.status,
      hs.decision⟩, fun _ => hconstant, fun _ => rfl⟩
  · rename_i hnot
    refine ⟨hs, hs.incumbent, fun hconstant => ?_⟩
    by_contra hnone
    have hbound := hs.bound (Option.not_isSome_iff_eq_none.1 hnone)
    rw [hbound] at hnot
    exact hnot (hvalue.trans hconstant)

theorem aggregate_advances [Host σ (Exact F)] (h : s.AtPhase p m N .aggregate) :
    Advances p m N .aggregate s s (aggregate m p) := by
  obtain ⟨hs, r, hround, hpriced, hcomplete⟩ := h.underway (by decide)
  unfold aggregate
  refine Change.ensures_bind (Change.ensures_state (Change.ensures_bind (Change.ensures_update ?_)))
  split
  · rename_i r' master hr hmaster
    obtain rfl := Option.some.inj (hround.symm.trans hr)
    have hidle : ({ s with round := none } : State (Exact F)).Underway p m N :=
      ⟨hs.toFrame.congr rfl rfl rfl rfl rfl rfl rfl, hs.status, hs.decision⟩
    split
    · exact handleFailures_advances hidle rfl _ _
    rename_i hall
    obtain ⟨hindices, hrecourse⟩ := hcomplete (by simpa using hall)
    obtain ⟨himproved, hincumbent⟩ := hidle.improve hpriced hrecourse master
    obtain ⟨upperBound, incumbent, heq⟩ := State.improve_eq r master { s with round := none }
    rw [heq] at himproved hincumbent
    refine Change.ensures_bind (Change.ensures_update ?_)
    rw [heq]
    refine Change.ensures_bind ((addOptimalityCuts_active _ _ _).mono ?_ fun _ _ h => h)
    rintro added _ ⟨cuts, rfl⟩
    refine Change.ensures_bind (Change.ensures_state ?_)
    obtain ⟨b, hactive⟩ := hs.active
    have hgroups : ((groups m.rules.multicut r.outcomes).map (·.1)).foldl
        (fun marks k => marks.set k true) s.active =
          List.replicate (groupCount m.rules.multicut p.scenarioCount) true := by
      have hlength : s.active.length = groupCount m.rules.multicut p.scenarioCount := by
        rw [hactive, List.length_replicate]
      rw [map_fst_groups hindices, ← hlength, foldl_set_range]
    have hs' : ({ s with
        round := none, upperBound, incumbent, cuts
        active := ((groups m.rules.multicut r.outcomes).map (·.1)).foldl
          (fun marks k => marks.set k true) s.active } : State (Exact F)).Underway p m N :=
      ⟨⟨himproved.program, himproved.sign, himproved.iterations, ⟨true, hgroups⟩,
        himproved.bound, himproved.incumbent⟩, himproved.status, himproved.decision⟩
    split
    · split
      · exact hs'.finish (by decide) (by decide)
      · exact Change.ensures_pure ⟨⟨hs', hincumbent.2⟩, Nat.lt_succ_self _,
          fun _ => (add_zero _).symm⟩
    · exact Change.ensures_pure ⟨⟨hs', trivial⟩, Nat.lt_succ_self _, fun _ => (add_zero _).symm⟩
  · exact Change.ensures_fail trivial

theorem converge_advances [Host σ (Exact F)] (h : s.AtPhase p m N .converged) :
    Advances p m N .converged s s (converge : Run σ (Exact F) Phase) := by
  obtain ⟨hs, -⟩ := h.underway (by decide)
  unfold converge
  refine Change.ensures_bind (Change.ensures_state ?_)
  split
  · refine Change.ensures_ofAct_bind (fun now => ?_) fun _ => trivial
    refine Change.ensures_bind (Change.ensures_update (Change.ensures_bind (Change.ensures_update
      (Change.ensures_pure ⟨⟨hs.toFrame.congr rfl rfl rfl rfl rfl rfl rfl, nofun,
        fun _ => rfl⟩, turnsLeft_pos _ _ (by decide), fun hnext => absurd rfl hnext⟩))))
  · exact Change.ensures_fail trivial

end Phases

/-! ## Steps -/

section Steps

variable [Host σ (Exact F)]

theorem runPhase_advances (hN : m.rules.maxIterations = .finite N) (hm : ReturnsNumbers m p)
    (hweights : ∀ slot ∈ p.slots, Scalar.isWeight slot.scenario.probability = true)
    (hcurrent : p.isDeferred = false) {phase : Phase} (h : s.AtPhase p m N phase)
    (hphase : phase ≠ .terminated) : Advances p m N phase s s (runPhase m p phase) := by
  cases phase with
  | init => exact init_advances h
  | masterSolve => exact masterSolve_advances hN hm h
  | broadcast => exact broadcast_advances h
  | subproblemSolve => exact subproblemSolve_advances hm hweights hcurrent h
  | aggregate => exact aggregate_advances h
  | converged => exact converge_advances h
  | terminated => exact absurd rfl hphase

namespace State

/-- The name of the phase and the wish to stop are not part of what is kept. -/
theorem AtPhase.relabel {phase : Phase} (h : s.AtPhase p m N phase) (label : Phase)
    (cancelled : Bool) :
    ({ s with phase := label, cancelled } : State (Exact F)).AtPhase p m N phase := by
  unfold AtPhase at h ⊢
  split at h
  · rename_i hphase
    rw [if_pos hphase]
    exact ⟨h.toFrame.congr rfl rfl rfl rfl rfl rfl rfl, h.status, h.decision⟩
  · rename_i hphase
    rw [if_neg hphase]
    exact ⟨⟨h.1.toFrame.congr rfl rfl rfl rfl rfl rfl rfl, h.1.status, h.1.decision⟩, h.2⟩

/-- A run is over when its phase is named so. -/
theorem AtPhase.isDone_iff {phase : Phase} (h : s.AtPhase p m N phase) :
    s.isDone = true ↔ phase = .terminated := by
  rw [RunState.isDone, bne_iff_ne]
  unfold AtPhase at h
  split at h
  · rename_i hphase
    exact ⟨fun _ => hphase, fun _ => h.status⟩
  · rename_i hphase
    exact ⟨fun hstatus => absurd h.1.status hstatus, fun hover => absurd hover hphase⟩

/-- A step from this state may solve the master problem. -/
def mayStart (s : State (Exact F)) (m : LShaped σ (Exact F)) : Bool :=
  s.phase == .masterSolve && !Scalar.atMost m.rules.maxIterations (Scalar.ofInt s.iterations)

end State

/-- What a step that is not refused makes of a run: one that is over stays as it is, any
other gets on. -/
structure State.Proceeds (s s' : State (Exact F)) (p : Program σ (Exact F))
    (m : LShaped σ (Exact F)) (N : Nat) : Prop where
  /-- The next phase finds what it needs. -/
  kept : s'.AtPhase p m N s'.phase
  /-- A run that is over stays as it is. -/
  stays : s.phase = .terminated → s' = s
  /-- Fewer steps are left of any other. -/
  fewer : s.phase ≠ .terminated →
    turnsLeft N s'.iterations s'.phase < turnsLeft N s.iterations s.phase
  /-- The master phase, and no other, begins an iteration. -/
  counted : s.phase ≠ .terminated → s'.phase ≠ .terminated →
    s'.iterations = s.iterations + if s.phase = .masterSolve then 1 else 0

theorem step_proceeds (hN : m.rules.maxIterations = .finite N) (hm : ReturnsNumbers m p)
    (hweights : ∀ slot ∈ p.slots, Scalar.isWeight slot.scenario.probability = true)
    (hcurrent : p.isDeferred = false) (h : s.AtPhase p m N s.phase) :
    (step m p).Ensures s (fun _ s' => s.Proceeds s' p m N) fun _ _ => True := by
  have hopen : s.isDone = false → s.phase ≠ .terminated := fun hrunning hphase =>
    Bool.eq_false_iff.1 hrunning (h.isDone_iff.2 hphase)
  refine ensures_step (fun _ => trivial) (fun hdone => ?_) (fun hrunning _ => ?_)
    (fun hrunning => ?_) fun hrunning => ?_
  · have hphase := h.isDone_iff.1 hdone
    exact ⟨h, fun _ => rfl, fun hnot => absurd hphase hnot, fun hnot => absurd hphase hnot⟩
  · have hphase := hopen hrunning
    have hs := (h.underway hphase).1
    have hidle : ({ s with round := none } : State (Exact F)).Underway p m N :=
      ⟨hs.toFrame.congr rfl rfl rfl rfl rfl rfl rfl, hs.status, hs.decision⟩
    exact ⟨(hidle.ended .iterationLimit nofun).relabel .terminated s.cancelled,
      fun hover => absurd hover hphase, fun _ => turnsLeft_pos _ _ hphase,
      fun _ hnext => absurd rfl hnext⟩
  · have hphase := hopen hrunning
    exact ⟨((h.underway hphase).1.ended .timeLimit nofun).relabel .terminated s.cancelled,
      fun hover => absurd hover hphase, fun _ => turnsLeft_pos _ _ hphase,
      fun _ hnext => absurd rfl hnext⟩
  · have hphase := hopen hrunning
    refine (runPhase_advances hN hm hweights hcurrent h hphase).mono ?_ fun _ _ => id
    rintro next s' ⟨hnext, hfewer, hcount⟩
    exact ⟨hnext.relabel next s'.cancelled, fun hover => absurd hover hphase, fun _ => hfewer,
      fun _ => hcount⟩

/-- A run that was asked to stop does so at its next step, whatever the phase, and drops
the round in flight. -/
theorem step_cancelled (hstatus : s.status = .unsolved) (ledger : Ledger σ (Exact F)) :
    ((step m p).runOn { s with cancelled := true }).run ledger =
      ((.ok .terminated, { s with
        cancelled := true, round := none, status := .iterationLimit, phase := .terminated }),
        ledger) := by
  obtain ⟨⟨_, _, status, _⟩, _⟩ := s
  subst hstatus
  rfl

/-- Without an incumbent no solution can be put together: the step of a run that is neither
cancelled nor out of time is refused. -/
theorem step_refused (htime : m.rules.timeLimit = none) (hphase : s.phase = .converged)
    (hstatus : s.status = .unsolved) (hcancelled : s.cancelled = false)
    (hincumbent : s.incumbent = none) (ledger : Ledger σ (Exact F)) :
    ((step m p).runOn s).run ledger = ((.error (.misuse .kind), s), ledger) := by
  obtain ⟨⟨_, _, status, _, _, _, _, _, _, _, _, cancelled⟩, phase, _, _, _, _, _, _, _, _,
    incumbent, _⟩ := s
  obtain ⟨⟨_, _, timeLimit, _, _, _, _⟩, _⟩ := m
  subst htime hphase hstatus hcancelled hincumbent
  rfl

/-- Nothing is committed of a run without a decision. -/
theorem commitRun_refused {r : RunState (Exact F)} (hdecision : r.decision = none)
    (solver : String) {q : Program σ (Exact F)} (hid : r.programId = q.id) :
    (Program.commitRun solver r : Edit σ (Exact F) Unit).Ensures q (fun _ _ => False)
      fun f q' => f = .solveFailure r.status none .nothingToCommit ∧ q' = q := by
  unfold Program.commitRun
  refine Change.ensures_bind (Change.ensures_state ?_)
  rw [if_neg (not_not.2 hid), hdecision]
  cases r.status <;> exact Change.ensures_bind (Change.ensures_pure (Change.ensures_fail ⟨rfl, rfl⟩))

/-! ## Runs -/

/-- A run that was built is about to begin. -/
theorem build_atPhase :
    (m.build : Edit σ (Exact F) (State (Exact F))).Ensures p
      (fun s p' => p' = p ∧ p.isDeferred = false ∧ s.AtPhase p m N .init ∧ s.phase = .init ∧
        s.iterations = 0) fun _ _ => True := by
  unfold build
  refine Change.ensures_bind ((Program.requireSolvable_leaves p).mono ?_ fun _ _ _ => trivial)
  rintro master _ ⟨rfl, hcurrent, -⟩
  refine Change.ensures_lift_bind (fun form _ => ?_) fun _ => trivial
  refine Change.ensures_bind (Change.ensures_state (Change.ensures_ofAct_bind (fun started => ?_)
    fun _ => trivial))
  refine Change.ensures_pure ⟨rfl, hcurrent, ⟨⟨⟨rfl, ?_, ⟨le_rfl, Int.natCast_nonneg N⟩,
    ⟨false, rfl⟩, fun _ => rfl, nofun⟩, rfl, rfl⟩, trivial⟩, rfl, rfl⟩
  show Scalar.isFinite master.goal.sign = true
  rw [Goal.sign_eq]
  exact Exact.isFinite_finite _

/-- The states a run visits as long as no step is refused, with the number of steps that
were taken and the number of those that may have solved the master problem.  A run may be
asked to stop at any time. -/
inductive Visited (m : LShaped σ (Exact F)) (p : Program σ (Exact F)) :
    Nat → Nat → State (Exact F) → Prop where
  /-- A run that was built. -/
  | built {ledger ledger' : Ledger σ (Exact F)} {s : State (Exact F)} {p' : Program σ (Exact F)}
      (h : (m.build.runOn p).run ledger = ((.ok s, p'), ledger')) : Visited m p 0 0 s
  /-- A step that is not refused. -/
  | step {steps masters : Nat} {s s' : State (Exact F)} {ledger ledger' : Ledger σ (Exact F)}
      {next : Phase} (h : Visited m p steps masters s)
      (hstep : ((LShaped.step m p).runOn s).run ledger = ((.ok next, s'), ledger')) :
      Visited m p (steps + 1) (if s.mayStart m then masters + 1 else masters) s'
  /-- A wish to stop. -/
  | cancel {steps masters : Nat} {s : State (Exact F)} (h : Visited m p steps masters s) :
      Visited m p steps masters { s with cancelled := true }

/-- What holds of every state a run visits. -/
structure State.Tracked (s : State (Exact F)) (p : Program σ (Exact F)) (m : LShaped σ (Exact F))
    (N steps masters : Nat) : Prop where
  /-- The phase finds what it needs. -/
  kept : s.AtPhase p m N s.phase
  /-- The steps that were taken and those that are left have a bound. -/
  bound : s.phase = .terminated ∨ steps + turnsLeft N s.iterations s.phase ≤ 4 * N + 2
  /-- The master problem was solved at most once per iteration. -/
  capped : masters ≤ N
  /-- As long as the run goes on these iterations were counted. -/
  counted : s.phase ≠ .terminated → masters ≤ s.iterations

variable {steps masters : Nat}

theorem State.Tracked.step {s' : State (Exact F)} (hN : m.rules.maxIterations = .finite N)
    (h : s.Tracked p m N steps masters) (hs : s.Proceeds s' p m N) :
    s'.Tracked p m N (steps + 1) (if s.mayStart m then masters + 1 else masters) := by
  by_cases hphase : s.phase = .terminated
  · have hmay : s.mayStart m = false := by rw [mayStart, hphase]; rfl
    rw [hs.stays hphase, hmay]
    exact ⟨h.kept, Or.inl hphase, h.capped, fun hnot => absurd hphase hnot⟩
  have hcount := h.counted hphase
  have hfewer := hs.fewer hphase
  have hbound := h.bound.resolve_left hphase
  by_cases hmay : s.mayStart m = true
  · rw [if_pos hmay]
    obtain ⟨hmaster, hlimit⟩ := Bool.and_eq_true_iff.1 hmay
    have hmaster : s.phase = .masterSolve := beq_iff_eq.1 hmaster
    have hlimit : s.iterations < N := iterations_lt hN (by simpa using hlimit)
    refine ⟨hs.kept, Or.inr (by omega), by omega, fun hnext => ?_⟩
    rw [hs.counted hphase hnext, if_pos hmaster]
    omega
  · rw [if_neg hmay]
    refine ⟨hs.kept, Or.inr (by omega), h.capped, fun hnext => ?_⟩
    rw [hs.counted hphase hnext]
    split <;> omega

/-- Every state a run visits is tracked, and everything is built. -/
theorem Visited.tracked (hN : m.rules.maxIterations = .finite N) (hm : ReturnsNumbers m p)
    (hweights : ∀ slot ∈ p.slots, Scalar.isWeight slot.scenario.probability = true)
    (h : Visited m p steps masters s) :
    s.Tracked p m N steps masters ∧ p.isDeferred = false := by
  induction h with
  | built h =>
    obtain ⟨-, hcurrent, hinit, hphase, hiterations⟩ := (build_atPhase (N := N)).of_runOn h
    refine ⟨⟨hphase ▸ hinit, Or.inr ?_, Nat.zero_le N, fun _ => hiterations.ge⟩, hcurrent⟩
    rw [hphase, hiterations]
    exact (Nat.zero_add _).le
  | step h hstep ih =>
    obtain ⟨htracked, hcurrent⟩ := ih
    have hproceeds := (step_proceeds hN hm hweights hcurrent htracked.kept).of_runOn hstep
    exact ⟨htracked.step hN hproceeds, hcurrent⟩
  | cancel h ih =>
    exact ⟨⟨ih.1.kept.relabel _ true, ih.1.bound, ih.1.capped, ih.1.counted⟩, ih.2⟩

theorem State.Tracked.ends (h : s.Tracked p m N steps masters) (hsteps : 4 * N + 2 ≤ steps) :
    s.phase = .terminated := by
  by_contra hphase
  have hpos := turnsLeft_pos N s.iterations hphase
  have hbound := h.bound.resolve_left hphase
  omega

/-- What is promised of every state a run visits with at most `N` iterations, after some
steps, some of which may have solved the master problem. -/
structure State.Orderly (s : State (Exact F)) (p : Program σ (Exact F)) (m : LShaped σ (Exact F))
    (N steps masters : Nat) : Prop where
  /-- After four steps per iteration and two the run is over. -/
  ends : 4 * N + 2 ≤ steps → s.status ≠ .unsolved
  /-- The master problem is solved at most once per iteration. -/
  capped : masters ≤ N
  /-- A run is over when its last phase is named so. -/
  terminated : s.phase = .terminated ↔ s.status ≠ .unsolved
  /-- Where a round is looked at, there is one. -/
  round : s.phase = .subproblemSolve ∨ s.phase = .aggregate → s.round.isSome = true
  /-- Where the solution is put together there is an incumbent, if a value can be less than
  infinity, and otherwise there is none. -/
  incumbent : s.phase = .converged →
    (s.incumbent.isSome = true ↔ Scalar.less s.first.constant Scalar.infinity = true)
  /-- The recourse variables are all active or all inactive. -/
  active : (∀ a ∈ s.active, a = true) ∨ ∀ a ∈ s.active, a = false
  /-- Only an optimum comes with a decision. -/
  decision : s.decision.isSome = true → s.status = .optimal
  /-- A run that is asked to stop does so at its next step.  It drops its round, has no
  decision, and nothing of it can be committed. -/
  cancels : s.status = .unsolved → ∀ ledger, ∃ s',
    ((step m p).runOn { s with cancelled := true }).run ledger = ((.ok .terminated, s'), ledger) ∧
      s'.status = .iterationLimit ∧ s'.round = none ∧ s'.decision = none ∧
      ∀ (solver : StructuredSolver σ (Exact F)) (q : Program σ (Exact F)), q.id = p.id →
        (solver.commit (.lshaped s')).Ensures q (fun _ _ => False)
          fun f q' => f = .solveFailure .iterationLimit none .nothingToCommit ∧ q' = q

theorem Visited.orderly (hN : m.rules.maxIterations = .finite N) (hm : ReturnsNumbers m p)
    (hweights : ∀ slot ∈ p.slots, Scalar.isWeight slot.scenario.probability = true)
    (h : Visited m p steps masters s) : s.Orderly p m N steps masters := by
  obtain ⟨htracked, -⟩ := h.tracked hN hm hweights
  have hkept := htracked.kept
  -- A run is over once it has a status, and it has one exactly in the last phase.
  have hover : s.phase = .terminated ↔ s.status ≠ .unsolved := by
    rw [← hkept.isDone_iff, RunState.isDone, bne_iff_ne]
  have hready : ∀ phase, s.phase = phase → phase ≠ .terminated → s.Ready p phase := by
    rintro _ rfl hphase
    exact (hkept.underway hphase).2
  refine ⟨fun hsteps => hover.1 (htracked.ends hsteps), htracked.capped, hover, ?_,
    fun hphase => ?_, ?_, fun hdecision => ?_, fun hstatus ledger => ?_⟩
  · rintro (hphase | hphase)
    · obtain ⟨r, hr, -⟩ := hready _ hphase (by decide)
      rw [hr]
      rfl
    · obtain ⟨r, hr, -⟩ := hready _ hphase (by decide)
      rw [hr]
      rfl
  · exact ⟨hkept.frame.incumbent, hready _ hphase (by decide)⟩
  · obtain ⟨b, hb⟩ := hkept.frame.active
    have hall : ∀ a ∈ s.active, a = b := fun a ha => List.eq_of_mem_replicate (hb ▸ ha)
    cases b with
    | true => exact Or.inl hall
    | false => exact Or.inr hall
  · by_cases hphase : s.phase = .terminated
    · rw [hphase] at hkept
      exact hkept.decision hdecision
    · rw [(hkept.underway hphase).1.decision] at hdecision
      cases hdecision
  · have hphase : s.phase ≠ .terminated := fun hphase => hover.1 hphase hstatus
    have hs := (hkept.underway hphase).1
    refine ⟨_, step_cancelled hstatus ledger, rfl, rfl, hs.decision, fun solver q hid => ?_⟩
    exact commitRun_refused (r := { s.toRunState with
      cancelled := true, status := .iterationLimit }) hs.decision solver.label
        (hs.program.trans hid.symm)

/-- Steps go on to states a run visits. -/
theorem Visited.step_visited (h : Visited m p steps masters s) :
    (LShaped.step m p).Ensures s (fun _ s' => Visited m p (steps + 1)
      (if s.mayStart m then masters + 1 else masters) s') fun _ _ => True := by
  refine (Change.ensures_runOn _ s).mono ?_ fun _ _ _ => trivial
  rintro next s' ⟨ledger, ledger', hstep⟩
  exact h.step hstep

/-- Several steps are taken unless the run ends before. -/
theorem Visited.runSteps_visited (n : Nat) (h : Visited m p steps masters s) :
    (runSteps m p n).Ensures s
      (fun _ s' => ∃ steps' masters', Visited m p steps' masters' s' ∧
        (s'.isDone = true ∨ steps + n ≤ steps')) fun _ _ => True := by
  induction n generalizing s steps masters with
  | zero => exact Change.ensures_pure ⟨steps, masters, h, Or.inr le_rfl⟩
  | succ n ih =>
    unfold runSteps
    refine Change.ensures_bind (Change.ensures_state ?_)
    split
    · rename_i hdone
      exact Change.ensures_pure ⟨steps, masters, h, Or.inl hdone⟩
    · refine Change.ensures_bind (h.step_visited.mono ?_ fun _ _ h => h)
      intro _ s' hs'
      refine (ih hs').mono ?_ fun _ _ h => h
      rintro _ s'' ⟨steps', masters', hvisited, hend⟩
      exact ⟨steps', masters', hvisited, hend.imp_right fun hsteps => by omega⟩

/-- The number of steps that a run is given is enough: it ends with a status. -/
theorem Visited.run_ends (hN : m.rules.maxIterations = .finite N) (hm : ReturnsNumbers m p)
    (hweights : ∀ slot ∈ p.slots, Scalar.isWeight slot.scenario.probability = true)
    (h : Visited m p steps masters s) :
    (run m p).Ensures s (fun status _ => status ≠ .unsolved) fun _ _ => True := by
  have hlimit : stepLimit m.rules = 4 * (N + 1) + 4 := by
    have hwhole : Scalar.truncate (.finite (N : F) : Exact F) = some (N : Int) := by
      show some (if (N : F) < 0 then ⌈(N : F)⌉ else ⌊(N : F)⌋) = _
      rw [if_neg (not_lt.2 (Nat.cast_nonneg N)), Int.floor_natCast]
    rw [stepLimit, hN, hwhole]
    rfl
  unfold run
  refine Change.ensures_bind ((h.runSteps_visited _).mono ?_ fun _ _ h => h)
  rintro _ s' ⟨steps', masters', hvisited, hend⟩
  refine Change.ensures_bind (Change.ensures_state (Change.ensures_pure (bne_iff_ne.1 ?_)))
  have htracked := (hvisited.tracked hN hm hweights).1
  exact hend.elim id fun hsteps => htracked.kept.isDone_iff.2 (htracked.ends (by omega))

/-- The state after some steps of a run none of which is refused, with the number of those
that may have solved the master problem. -/
def afterSteps (m : LShaped σ (Exact F)) (p : Program σ (Exact F)) (ledger : Ledger σ (Exact F)) :
    Nat → Option (State (Exact F) × Nat × Ledger σ (Exact F))
  | 0 => match (m.build.runOn p).run ledger with
    | ((.ok s, _), ledger) => some (s, 0, ledger)
    | _ => none
  | n + 1 => do
    let (s, masters, ledger) ← afterSteps m p ledger n
    match ((LShaped.step m p).runOn s).run ledger with
    | ((.ok _, s'), ledger) => some (s', if s.mayStart m then masters + 1 else masters, ledger)
    | _ => none

theorem visited_of_afterSteps {ledger ledger' : Ledger σ (Exact F)}
    (h : afterSteps m p ledger steps = some (s, masters, ledger')) :
    Visited m p steps masters s := by
  induction steps generalizing s masters ledger' with
  | zero =>
    unfold afterSteps at h
    split at h
    · rename_i hbuild
      cases h
      exact .built hbuild
    · cases h
  | succ steps ih =>
    unfold afterSteps at h
    obtain ⟨⟨s₀, masters₀, ledger₀⟩, hbefore, hstep⟩ := Option.bind_eq_some_iff.1 h
    dsimp only at hstep
    split at hstep
    · rename_i hstep'
      cases hstep
      exact (ih hbefore).step hstep'
    · cases hstep

/-- A run that can be evaluated visits a state that passes a check. -/
theorem exists_visited (m : LShaped σ (Exact F)) (p : Program σ (Exact F))
    (ledger : Ledger σ (Exact F)) (steps : Nat) (q : State (Exact F) → Nat → Bool)
    (h : (afterSteps m p ledger steps).any (fun a => q a.1 a.2.1) = true) :
    ∃ s masters, Visited m p steps masters s ∧ q s masters = true := by
  cases hs : afterSteps m p ledger steps with
  | none =>
    rw [hs] at h
    cases h
  | some a =>
    rw [hs] at h
    exact ⟨a.1, a.2.1, visited_of_afterSteps hs, h⟩

/-- A sound engine behind a backend that hands out what was found returns numbers. -/
theorem returnsNumbers_of_sound (host : Host.Sound σ F) (hb : m.backend.Faithful)
    (hsecond : ∀ slot ∈ p.slots, ∀ model ∈ slot.model?, model.Proper) : ReturnsNumbers m p where
  master q := LinearProgram.solve_point host q _
  subproblem := by
    intro slot hslot model hmodel x hx
    have hproper := hsecond slot hslot model hmodel
    by_cases hlength : model.decisionCount = 0 ∨ model.decisionCount = x.length
    · refine (Backend.optimize_ensures host hb hproper hx hlength).mono (fun r hr hstatus => ?_)
        fun _ _ => trivial
      rw [hr.objective hproper hstatus]
      exact Exact.isFinite_finite _
    · have hrefused : model.standardForm (some x) =
          .error (.dimension (.modelDecision x.length model.decisionCount)) := by
        rw [not_or] at hlength
        rw [Model.standardForm_eq hproper, Model.decisionFor, if_neg hlength.1]
        show Except.map _ (do model.checkDecision x; pure x) = _
        rw [Model.checkDecision, if_neg fun h => hlength.2 h.symm]
        rfl
      unfold Backend.optimize
      rw [hrefused]
      exact Act.ensures_bind (Act.ensures_fail trivial)

end Steps

/-! ## A small program -/

/-- The run on the stock is over after ten steps and two master problems, where it may have
taken 4002 steps and a thousand master problems. -/
theorem stock_orderly : ∃ s masters, Visited exactMethod stockProgram 10 masters s ∧
    s.status = .optimal ∧ masters = 2 ∧ s.Orderly stockProgram exactMethod 1000 10 masters := by
  obtain ⟨s, masters, hvisited, hstate⟩ := exists_visited exactMethod stockProgram
    ⟨stockTranscript, [], 0⟩ 10 (fun s masters => s.status == .optimal && masters == 2)
    (by decide +kernel)
  simp only [Bool.and_eq_true, beq_iff_eq] at hstate
  exact ⟨s, masters, hvisited, hstate.1, hstate.2, Visited.orderly rfl
    (returnsNumbers_of_sound Transcript.sound Backend.plain_faithful (by decide +kernel))
    (by decide +kernel) hvisited⟩

/-- The stock at an infinite fixed cost. -/
def endlessProgram : Program (Transcript ℚ) (Exact ℚ) :=
  .ofModels { stock with objective? := some ⟨[(0, 1)], .plusInfinity, []⟩ }
    [(.finite (1 / 2), shortage 3), (.finite (1 / 2), shortage 1)]

/-- It is not true that there is always an incumbent where the solution is put together:
after nine steps the run at an infinite cost has none, and its next step is refused. -/
theorem endless_orderly_false : ReturnsNumbers exactMethod endlessProgram ∧
    (¬ ∀ steps masters s, Visited exactMethod endlessProgram steps masters s →
      s.phase = .converged → s.incumbent.isSome = true) ∧
    ∃ s, Visited exactMethod endlessProgram 9 2 s ∧ ∀ ledger,
      ((step exactMethod endlessProgram).runOn s).run ledger =
        ((.error (.misuse .kind), s), ledger) := by
  obtain ⟨s, masters, hvisited, hstate⟩ := exists_visited exactMethod endlessProgram
    ⟨stockTranscript, [], 0⟩ 9 (fun s masters => s.phase == .converged && s.incumbent.isNone &&
      s.status == .unsolved && !s.cancelled && masters == 2) (by decide +kernel)
  simp only [Bool.and_eq_true, beq_iff_eq, Option.isNone_iff_eq_none, Bool.not_eq_true'] at hstate
  obtain ⟨⟨⟨⟨hphase, hincumbent⟩, hstatus⟩, hcancelled⟩, rfl⟩ := hstate
  refine ⟨returnsNumbers_of_sound Transcript.sound Backend.plain_faithful (by decide +kernel),
    fun hclaim => ?_, s, hvisited, step_refused rfl hphase hstatus hcancelled hincumbent⟩
  have hsome := hclaim _ _ _ hvisited hphase
  rw [hincumbent] at hsome
  cases hsome

end LShaped

end Recourse
