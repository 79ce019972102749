/-
  Proofs/Sampled/Trial.lean --- replications as trials.

  A trial is a program on a fresh sample that is solved to an optimum, and replications are
  trials one after the other (`Study.Reads.replications_ok_iff`).  Each uses up the next
  block of the tape (`Series.block`).  The first one without an optimum ends the study, with
  its own block used up and no other (`Study.Reads.replications_failed`).
-/
import Recourse.Proofs.Sampled.Tape

set_option autoImplicit false
set_option linter.unusedSectionVars false

namespace Recourse

/-! ## Optima are committed -/

namespace Program

variable {σ K : Type} [Scalar K] [Host σ K]

/-- There is a solution, and the first stage is built. -/
structure Concluded (p : Program σ K) : Prop where
  /-- The solution. -/
  solution : ∃ c, p.solution = some c
  /-- The model of the first stage. -/
  master : ∃ m, p.master = some (m, p.firstEpoch)

theorem concluded_install {p p₁ : Program σ K} (hp : p.isDeferred = false) (hmarked : Marked p p₁)
    (c : Solution K) (results : List (SolveResult K)) (master : Option (SolveResult K)) :
    (p₁.install c results master).Concluded := by
  obtain ⟨generated, rfl⟩ := hmarked
  obtain ⟨m, hm⟩ := (isBuilt_of_not_isDeferred hp).master
  refine ⟨⟨c, rfl⟩, ?_⟩
  cases master with
  | none => exact ⟨m, hm⟩
  | some r =>
    refine ⟨m.load r, ?_⟩
    show p.master.map _ = _
    rw [hm]
    rfl

/-- An optimization that ends with an optimum leaves a solution. -/
theorem optimize_concluded (solver : Option (Solver σ K)) (p : Program σ K) :
    (optimize solver).Ensures p (fun status p' => status = .optimal → p'.Concluded)
      fun _ _ => True := by
  unfold optimize
  refine Change.ensures_bind (Change.ensures_state (Change.ensures_bind
    ((Change.ensures_anything _ p).mono (fun _ p₁ _ => ?_) fun _ _ h => h)))
  refine Change.ensures_bind ((Change.ensures_anything _ p₁).mono (fun _ p₂ _ => ?_)
    fun _ _ h => h)
  split
  · exact Change.ensures_fail trivial
  rename_i s hs
  have hsolve : (s.solve >>= fun a => do
      if a.1 = .optimal then s.commit a.2
      return a.1 : Edit σ K Status).Ensures p₂
      (fun status p' => status = .optimal → p'.Concluded) fun _ _ => True := by
    refine Change.ensures_bind ((solve_leaves s p₂).mono ?_ fun _ _ _ => trivial)
    rintro ⟨status, r⟩ p₃ ⟨hmarked, hcurrent, -⟩
    dsimp only
    split
    · refine Change.ensures_bind ((commitRun_ensures s.label r.common p₃).mono ?_
        fun _ _ _ => trivial)
      rintro _ _ ⟨-, c, rfl, -⟩
      exact Change.ensures_pure fun _ => concluded_install hcurrent hmarked c _ _
    · rename_i hstatus
      exact Change.ensures_pure fun h => absurd h hstatus
  unfold StructuredSolver.solve at hsolve
  simp only [bind_assoc] at hsolve
  exact hsolve

/-- The factor of a program with a sense is that of the sense. -/
theorem sign_eq_of_poses {τ : Type} {view : Ledger σ K → τ} {g : Goal} {p : Program σ K}
    (h : p.Poses view g) (hp : p.Concluded) : p.sign = .ok g.sign := by
  obtain ⟨m, hm⟩ := hp.master
  rw [sign, goal, stageOneModel_eq_ok.2 hm]
  show Except.ok m.goal.sign = _
  rw [h.goal m _ hm]

end Program

/-! ## Trials -/

/-- A replication that ended with an optimum. -/
structure Trial (σ K : Type) where
  /-- The program on its sample. -/
  program : Program σ K
  /-- The program after it was solved. -/
  solved : Program σ K

namespace Trial

variable {σ K : Type} [Scalar K]

/-- The value of the program. -/
def value (t : Trial σ K) : K := (t.solved.solution.map (·.objective)).getD Scalar.undefined

/-- The decision. -/
def decision (t : Trial σ K) : List K := (t.solved.solution.map (·.decision)).getD []

/-- What a study keeps of a trial of a program with a sense. -/
def replicate (g : Goal) (t : Trial σ K) : Study.Replicate K :=
  { value := t.value, decision := t.decision, sign := g.sign }

variable [Host σ K]

/-- From a ledger to a ledger, a program is drawn and solved to an optimum. -/
def Runs (s : Study σ K) (n : Int) (solver : Option (Solver σ K)) (t : Trial σ K)
    (ledger ledger' : Ledger σ K) : Prop :=
  ∃ drawn, (s.sampled (.ofInt n)).run.run ledger = (.ok t.program, drawn) ∧
    (Program.optimize solver).run.run (t.program, drawn) = (.ok .optimal, t.solved, ledger')

end Trial

/-- Trials one after the other, from a ledger to a ledger. -/
inductive Series {σ K : Type} [Scalar K] [Host σ K] (s : Study σ K) (n : Int)
    (solver : Option (Solver σ K)) : List (Trial σ K) → Ledger σ K → Ledger σ K → Prop
  /-- No trial. -/
  | nil (ledger : Ledger σ K) : Series s n solver [] ledger ledger
  /-- A trial and the others. -/
  | cons {t : Trial σ K} {ts : List (Trial σ K)} {ledger between ledger' : Ledger σ K}
      (first : t.Runs s n solver ledger between) (rest : Series s n solver ts between ledger') :
      Series s n solver (t :: ts) ledger ledger'

namespace Study

variable {σ K : Type} [Scalar K] [Host σ K] {s : Study σ K} {n : Int}
  {solver : Option (Solver σ K)}

/-- What a replication makes of how an optimization ended. -/
def conclusion (number : Nat) (p : Program σ K) :
    Except (Fault K) Status → Except (Fault K) (Replicate K)
  | .ok .optimal => do
      let solution ← p.committed
      return { value := solution.objective, decision := solution.decision, sign := ← p.sign }
  | .ok status => .error (.solveFailure status none (.replication number))
  | .error f => .error f

/-- A replication is the optimization of a program on a fresh sample. -/
theorem replicate_run {p p' : Program σ K} {ledger drawn ledger' : Ledger σ K}
    (hsampled : (s.sampled (.ofInt n)).run.run ledger = (.ok p, drawn))
    {r : Except (Fault K) Status}
    (hoptimize : (Program.optimize solver).run.run (p, drawn) = (r, p', ledger')) (number : Nat) :
    (s.replicate (.ofInt n) solver number).run.run ledger = (conclusion number p' r, ledger') := by
  unfold replicate
  rw [Act.run_bind, hsampled]
  dsimp only
  rw [Act.run_bind, Change.run_apply, Change.run_bind, hoptimize]
  cases r with
  | error f => rfl
  | ok status =>
    cases status with
    | optimal =>
      dsimp only
      rw [if_neg (not_not.2 rfl), Change.run_state_bind, conclusion]
      cases p'.committed with
      | error f => rfl
      | ok c => cases p'.sign <;> rfl
    | _ => rfl

theorem replications_ofInt (s : Study σ K) (n : Int) {count : Int} (hcount : 1 ≤ count)
    (solver : Option (Solver σ K)) : s.replications (.ofInt n) (.ofInt count) solver =
      Act.forEach (s.replicate (.ofInt n) solver) (List.range count.toNat) := by
  show (if count < 1 then _ else _) = _
  rw [if_neg (by omega)]

theorem one_le_of_replications {count : Int} {rs : List (Replicate K)}
    {ledger ledger' : Ledger σ K}
    (h : (s.replications (.ofInt n) (.ofInt count) solver).run.run ledger = (.ok rs, ledger')) :
    1 ≤ count := by
  by_contra hcount
  have hfail : s.replications (.ofInt n) (.ofInt count) solver =
      (Act.fail (.invalid (.notPositive "replications" (.ofInt count))) >>= fun (_ : Unit) =>
        Act.forEach (s.replicate (.ofInt n) solver) (List.range count.toNat)) := by
    show (if count < 1 then _ else _) = _
    rw [if_pos (by omega)]
  rw [hfail] at h
  cases h

end Study

/-! ## On a tape -/

section Tape

variable {F : Type} [Field F] [LinearOrder F] [IsStrictOrderedRing F] [FloorRing F] {σ : Type}
  [Host σ (Exact F)] {s : Study σ (Exact F)} {n : Int} {solver : Option (Solver σ (Exact F))}
  {tape : σ → Tape (Exact F)} {g : Goal} (h : s.Reads solver tape g)

include h

/-- However the optimization of a program on a fresh sample ends, the tape stands behind the
block of the program, which has the sense of the study. -/
theorem Study.Reads.optimized_on {p p' : Program σ (Exact F)}
    {ledger drawn ledger' : Ledger σ (Exact F)}
    (hsampled : (s.sampled (.ofInt n)).run.run ledger = (.ok p, drawn))
    {r : Except (Fault (Exact F)) Status}
    (hoptimize : (Program.optimize solver).run.run (p, drawn) = (r, p', ledger')) :
    p.On (tape ledger.env) n.toNat ∧ p'.Poses (fun ledger => tape ledger.env) g ∧
      tape ledger'.env = (tape ledger.env).advance n.toNat := by
  obtain ⟨hon, hposes, hdrawn⟩ := h.sampled_on hsampled
  obtain ⟨hkept, hposes'⟩ := hposes.optimize_keeps h.host h.solver drawn
  rw [hoptimize] at hkept hposes'
  exact ⟨hon, hposes', hkept.trans hdrawn⟩

namespace Trial

variable {t : Trial σ (Exact F)} {ledger ledger' : Ledger σ (Exact F)}

/-- A trial uses up the next block. -/
theorem Runs.block (ht : t.Runs s n solver ledger ledger') :
    t.program.On (tape ledger.env) n.toNat ∧
      tape ledger'.env = (tape ledger.env).advance n.toNat := by
  obtain ⟨drawn, hsampled, hoptimize⟩ := ht
  obtain ⟨hon, -, hmoved⟩ := h.optimized_on hsampled hoptimize
  exact ⟨hon, hmoved⟩

omit h in
/-- A trial has a solution. -/
theorem Runs.concluded (ht : t.Runs s n solver ledger ledger') : t.solved.Concluded := by
  obtain ⟨drawn, -, hoptimize⟩ := ht
  have hconcluded := Program.optimize_concluded solver t.program drawn
  rw [hoptimize] at hconcluded
  exact hconcluded rfl

theorem Runs.conclusion_eq (ht : t.Runs s n solver ledger ledger') (number : Nat) :
    Study.conclusion number t.solved (.ok .optimal) = .ok (t.replicate g) := by
  obtain ⟨c, hc⟩ := ht.concluded.solution
  have hsign := Program.sign_eq_of_poses (h.optimized_on ht.choose_spec.1 ht.choose_spec.2).2.1
    ht.concluded
  rw [Study.conclusion, Program.committed, hc, hsign, replicate, value, decision, hc]
  rfl

end Trial

/-- Replications that are not refused are trials. -/
theorem Study.Reads.replicate_ok_iff {number : Nat} {r : Study.Replicate (Exact F)}
    {ledger ledger' : Ledger σ (Exact F)} :
    (s.replicate (.ofInt n) solver number).run.run ledger = (.ok r, ledger') ↔
      ∃ t : Trial σ (Exact F), t.Runs s n solver ledger ledger' ∧ r = t.replicate g := by
  constructor
  · intro hrun
    obtain ⟨p, drawn, hsampled, -⟩ := Act.run_bind_eq_ok_iff.1 hrun
    rcases hoptimize : (Program.optimize solver).run.run (p, drawn) with ⟨end', p', last⟩
    rw [Study.replicate_run hsampled hoptimize] at hrun
    obtain ⟨hconclusion, rfl⟩ := Prod.mk.inj hrun
    have hoptimal : end' = .ok .optimal := by
      cases end' with
      | error f => cases hconclusion
      | ok status =>
        cases status with
        | optimal => rfl
        | _ => cases hconclusion
    subst hoptimal
    have ht : Trial.Runs s n solver ⟨p, p'⟩ ledger last := ⟨drawn, hsampled, hoptimize⟩
    rw [ht.conclusion_eq h number] at hconclusion
    exact ⟨_, ht, (Except.ok.inj hconclusion).symm⟩
  · rintro ⟨t, ht, rfl⟩
    obtain ⟨drawn, hsampled, hoptimize⟩ := id ht
    rw [Study.replicate_run hsampled hoptimize, ht.conclusion_eq h number]

theorem Study.Reads.forEach_replicate_ok_iff (numbers : List Nat)
    {rs : List (Study.Replicate (Exact F))} {ledger ledger' : Ledger σ (Exact F)} :
    (Act.forEach (s.replicate (.ofInt n) solver) numbers).run.run ledger = (.ok rs, ledger') ↔
      ∃ ts, Series s n solver ts ledger ledger' ∧ ts.length = numbers.length ∧
        rs = ts.map (Trial.replicate g) := by
  induction numbers generalizing rs ledger with
  | nil =>
    constructor
    · intro hrun
      cases hrun
      exact ⟨[], .nil _, rfl, rfl⟩
    · rintro ⟨ts, hseries, hlength, rfl⟩
      cases hseries with
      | nil => rfl
      | cons => cases hlength
  | cons number numbers ih =>
    constructor
    · intro hrun
      obtain ⟨r, between, hfirst, hothers⟩ := Act.run_bind_eq_ok_iff.1 hrun
      obtain ⟨rs, last, hrest, hall⟩ := Act.run_bind_eq_ok_iff.1 hothers
      cases hall
      obtain ⟨t, ht, rfl⟩ := h.replicate_ok_iff.1 hfirst
      obtain ⟨ts, hseries, hlength, rfl⟩ := ih.1 hrest
      exact ⟨t :: ts, .cons ht hseries, congrArg (· + 1) hlength, rfl⟩
    · rintro ⟨ts, hseries, hlength, rfl⟩
      cases hseries with
      | nil => cases hlength
      | @cons t ts _ between _ ht hrest =>
        refine Act.run_bind_eq_ok_iff.2 ⟨_, between, h.replicate_ok_iff.2 ⟨t, ht, rfl⟩, ?_⟩
        have hothers := ih.2 ⟨ts, hrest, Nat.succ.inj hlength, rfl⟩
        exact Act.run_bind_eq_ok_iff.2 ⟨_, ledger', hothers, rfl⟩

/-- Replications that are not refused are trials, one after the other. -/
theorem Study.Reads.replications_ok_iff {count : Int} (hcount : 1 ≤ count)
    {rs : List (Study.Replicate (Exact F))} {ledger ledger' : Ledger σ (Exact F)} :
    (s.replications (.ofInt n) (.ofInt count) solver).run.run ledger = (.ok rs, ledger') ↔
      ∃ ts, Series s n solver ts ledger ledger' ∧ ts.length = count.toNat ∧
        rs = ts.map (Trial.replicate g) := by
  rw [Study.replications_ofInt s n hcount, h.forEach_replicate_ok_iff, List.length_range]

/-- The first replication without an optimum ends them. -/
theorem Study.Reads.replications_failed {count : Int} {ts : List (Trial σ (Exact F))}
    {ledger between drawn ledger' : Ledger σ (Exact F)} (hts : Series s n solver ts ledger between)
    (hcount : ts.length < count.toNat) {p p' : Program σ (Exact F)}
    (hsampled : (s.sampled (.ofInt n)).run.run between = (.ok p, drawn))
    {r : Except (Fault (Exact F)) Status}
    (hoptimize : (Program.optimize solver).run.run (p, drawn) = (r, p', ledger'))
    {f : Fault (Exact F)} (hf : Study.conclusion ts.length p' r = .error f) :
    (s.replications (.ofInt n) (.ofInt count) solver).run.run ledger = (.error f, ledger') := by
  obtain ⟨k, hk⟩ := Nat.exists_eq_add_of_lt hcount
  rw [Study.replications_ofInt s n (by omega), hk, Nat.add_assoc, List.range_add,
    List.range_succ_eq_map, List.map_cons, Nat.add_zero]
  refine Act.run_forEach_error ((h.forEach_replicate_ok_iff _).2 ⟨ts, hts, ?_, rfl⟩) ?_
  · rw [List.length_range]
  · rw [Study.replicate_run hsampled hoptimize, hf]

/-- Trials use up consecutive blocks. -/
theorem Series.block {ts : List (Trial σ (Exact F))} {ledger ledger' : Ledger σ (Exact F)}
    (hts : Series s n solver ts ledger ledger') :
    (∀ i (t : Trial σ (Exact F)), ts[i]? = some t →
      t.program.On ((tape ledger.env).advance (i * n.toNat)) n.toNat) ∧
      tape ledger'.env = (tape ledger.env).advance (ts.length * n.toNat) := by
  induction hts with
  | nil ledger => exact ⟨fun i t ht => by simp at ht, by simp⟩
  | @cons t ts ledger between ledger' ht _ ih =>
    obtain ⟨hon, hmoved⟩ := ht.block h
    obtain ⟨hblocks, hlast⟩ := ih
    rw [hmoved] at hblocks hlast
    constructor
    · intro i u hu
      cases i with
      | zero =>
        cases hu
        rwa [Nat.zero_mul, Tape.advance_zero]
      | succ i =>
        have hblock := hblocks i u hu
        rwa [Tape.advance_advance, Nat.add_comm, ← Nat.succ_mul] at hblock
    · rw [hlast, Tape.advance_advance, List.length_cons, Nat.succ_mul, Nat.add_comm]

omit h in
theorem Series.concluded {ts : List (Trial σ (Exact F))} {ledger ledger' : Ledger σ (Exact F)}
    (hts : Series s n solver ts ledger ledger') : ∀ t ∈ ts, t.solved.Concluded := by
  induction hts with
  | nil => exact fun t ht => absurd ht List.not_mem_nil
  | cons ht _ ih => exact List.forall_mem_cons.2 ⟨ht.concluded, ih⟩

/-- The programs of trials hold one block together. -/
theorem Series.payloads {ts : List (Trial σ (Exact F))} {ledger ledger' : Ledger σ (Exact F)}
    (hts : Series s n solver ts ledger ledger') :
    (ts.flatMap fun t => t.program.scenarios.map (·.data)) =
      (tape ledger.env).block (ts.length * n.toNat) := by
  induction hts with
  | nil ledger => rw [List.flatMap_nil, List.length_nil, Nat.zero_mul]; rfl
  | @cons t ts ledger between ledger' ht _ ih =>
    obtain ⟨hon, hmoved⟩ := ht.block h
    rw [List.flatMap_cons, ih, hmoved, List.length_cons, Nat.succ_mul, Nat.add_comm,
      Tape.block_add, hon.fills.payloads]

end Tape

end Recourse
