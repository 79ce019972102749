/-
  Proofs/Sampled/Tape.lean --- samples as blocks of a random stream.

  A random stream is a tape: draws give its entries in order, and nothing else moves it.
  A program on a fresh sample holds the next entries as equally likely scenarios, in order,
  and the tape stands behind them afterwards (`Study.Reads.sampled_on`).
-/
import Recourse.Proofs.Program.Reweighting
import Recourse.Proofs.Program.Untouched
import Recourse.Sampled.Study

set_option autoImplicit false
set_option linter.unusedSectionVars false

namespace Recourse

/-- A random stream: what each draw gives, and where the next one is. -/
structure Tape (K : Type) where
  /-- What each draw gives. -/
  entries : Int → Value K
  /-- The place of the next draw. -/
  position : Int

namespace Tape

variable {K : Type}

/-- The tape after some more draws. -/
def advance (t : Tape K) (n : Nat) : Tape K := { t with position := t.position + n }

/-- What the next draws give. -/
def block (t : Tape K) (n : Nat) : List (Value K) :=
  (List.range n).map fun (k : Nat) => t.entries (t.position + k)

@[simp] theorem advance_zero (t : Tape K) : t.advance 0 = t :=
  congrArg (Tape.mk t.entries) (Int.add_zero t.position)

theorem advance_advance (t : Tape K) (m n : Nat) : (t.advance m).advance n = t.advance (m + n) := by
  rw [advance, advance, advance, Nat.cast_add, Int.add_assoc]

theorem block_add (t : Tape K) (m n : Nat) :
    t.block (m + n) = t.block m ++ (t.advance m).block n := by
  rw [block, List.range_add, List.map_append, List.map_map, block, block]
  refine congrArg _ (List.map_congr_left fun k _ => congrArg t.entries ?_)
  show t.position + ((m + k : Nat) : Int) = t.position + m + k
  rw [Nat.cast_add, Int.add_assoc]

@[simp] theorem length_block (t : Tape K) (n : Nat) : (t.block n).length = n := by
  rw [block, List.length_map, List.length_range]

end Tape

/-! ## Draws -/

/-- A draw that is not refused gives the next entry of a tape in the environment and moves the
tape on. -/
def Sampler.Reads {σ K : Type} (s : Sampler σ K) (tape : σ → Tape K) : Prop :=
  ∀ ledger data ledger', s.draw.run.run ledger = (.ok data, ledger') →
    (tape ledger.env).block 1 = [data] ∧ tape ledger'.env = (tape ledger.env).advance 1

/-- Scenarios that carry the next entries of a tape, each with the same probability. -/
structure Tape.Fills {K : Type} (t : Tape K) (q : K) (n : Nat) (scenarios : List (Scenario K)) :
    Prop where
  /-- The payloads, in order. -/
  payloads : scenarios.map (·.data) = t.block n
  /-- The probabilities. -/
  share : ∀ c ∈ scenarios, c.probability = q

theorem Tape.Fills.length_eq {K : Type} {t : Tape K} {q : K} {n : Nat}
    {scenarios : List (Scenario K)} (h : t.Fills q n scenarios) : scenarios.length = n := by
  rw [← t.length_block n, ← h.payloads, List.length_map]

theorem Scenario.make_eq_ok {K : Type} [Scalar K] {q : K} {data : Value K} {c : Scenario K}
    (h : Scenario.make (.real q) data none = .ok c) : c = ⟨q, data, none⟩ := by
  unfold Scenario.make at h
  dsimp only at h
  split at h
  · cases h
  · cases h
    rfl

namespace Sampler.Reads

variable {σ K : Type} [Scalar K] {s : Sampler σ K} {tape : σ → Tape K} (h : s.Reads tape)

include h

/-- Scenarios are drawn one after the other. -/
theorem drawMany {q : K} {n : Nat} {scenarios : List (Scenario K)} {ledger ledger' : Ledger σ K}
    (hrun : (s.drawMany q n).run.run ledger = (.ok scenarios, ledger')) :
    (tape ledger.env).Fills q n scenarios ∧ tape ledger'.env = (tape ledger.env).advance n := by
  induction n generalizing scenarios ledger with
  | zero =>
    cases hrun
    exact ⟨⟨rfl, fun c hc => absurd hc List.not_mem_nil⟩, (Tape.advance_zero _).symm⟩
  | succ n ih =>
    obtain ⟨data, drawn, hdraw, hmade⟩ := Act.run_bind_eq_ok_iff.1 hrun
    obtain ⟨c, _, hscenario, hothers⟩ := Act.run_bind_eq_ok_iff.1 hmade
    obtain ⟨rest, last, hrest, hall⟩ := Act.run_bind_eq_ok_iff.1 hothers
    obtain ⟨hmake, rfl⟩ := Prod.mk.inj hscenario
    cases hall
    obtain ⟨hentry, hmoved⟩ := h ledger data drawn hdraw
    obtain ⟨hfills, hlast⟩ := ih hrest
    rw [hmoved] at hfills hlast
    obtain rfl := Scenario.make_eq_ok hmake
    refine ⟨⟨?_, List.forall_mem_cons.2 ⟨rfl, hfills.share⟩⟩, ?_⟩
    · rw [List.map_cons, hfills.payloads, Nat.add_comm, Tape.block_add, hentry]
      rfl
    · rw [hlast, Tape.advance_advance, Nat.add_comm]

end Sampler.Reads

/-! ## Programs on a sample -/

variable {F : Type} [Field F] [LinearOrder F] [IsStrictOrderedRing F] [FloorRing F] {σ : Type}

theorem Exact.ofNat_eq (n : Nat) : (Scalar.ofNat n : Exact F) = .finite n :=
  congrArg Exact.finite (Int.cast_natCast n)

theorem Sampler.sampleSize_ofInt {n : Int} (hn : 1 ≤ n) :
    Sampler.sampleSize (.ofInt n : Setting (Exact F)) = .ok n.toNat := by
  have hless : Scalar.less (Scalar.ofInt n : Exact F) 1 = false := by
    show decide ((n : F) < 1) = false
    rw [decide_eq_false_iff_not, not_lt]
    exact_mod_cast hn
  show (if Scalar.less (Scalar.ofInt n : Exact F) 1 then _ else _) = _
  rw [hless]
  rfl

/-- A sample holds the next entries, which share the probability. -/
theorem Sampler.Reads.sample {s : Sampler σ (Exact F)} {tape : σ → Tape (Exact F)}
    (h : s.Reads tape) {n : Int} (hn : 1 ≤ n) {scenarios : List (Scenario (Exact F))}
    {ledger ledger' : Ledger σ (Exact F)}
    (hrun : (s.sample (.ofInt n)).run.run ledger = (.ok scenarios, ledger')) :
    (tape ledger.env).Fills (.finite (1 / n.toNat)) n.toNat scenarios ∧
      tape ledger'.env = (tape ledger.env).advance n.toNat := by
  have hsize : (n.toNat : F) ≠ 0 := Nat.cast_ne_zero.2 (by omega)
  unfold Sampler.sample at hrun
  rw [Sampler.sampleSize_ofInt hn] at hrun
  have hdrawn := h.drawMany (q := 1 / Scalar.ofNat n.toNat) (n := n.toNat) hrun
  rwa [Exact.ofNat_eq, Exact.one_eq, Exact.finite_div hsize] at hdrawn

namespace Program

/-- The scenarios of a program are the next entries of a tape, in order, and they share the
probability. -/
structure On (p : Program σ (Exact F)) (t : Tape (Exact F)) (n : Nat) : Prop where
  /-- There are partitions. -/
  workers : p.partitions ≠ []
  /-- The scenarios in global order. -/
  fills : t.Fills (.finite (1 / n)) n p.scenarios

theorem On.scenarioCount_eq {p : Program σ (Exact F)} {t : Tape (Exact F)} {n : Nat}
    (h : p.On t n) : p.scenarioCount = n := by
  rw [scenarioCount_eq_length, h.fills.length_eq]

theorem On.equally {p : Program σ (Exact F)} {t : Tape (Exact F)} {n : Nat} (h : p.On t n) :
    p.Equally :=
  ⟨h.workers, by rw [h.scenarioCount_eq]; exact h.fills.share⟩

variable {K : Type}

theorem joined_of_forall_eq_nil {α : Type} {xss chunks : List (List α)} (h : ∀ xs ∈ xss, xs = [])
    (hlength : chunks.length = xss.length) : joined xss chunks = chunks := by
  induction xss generalizing chunks with
  | nil => exact (List.eq_nil_of_length_eq_zero hlength).symm
  | cons xs xss ih =>
    obtain ⟨rfl, hnil⟩ := List.forall_mem_cons.1 h
    cases chunks with
    | nil => rfl
    | cons chunk chunks => exact congrArg (chunk :: ·) (ih hnil (Nat.succ.inj hlength))

/-- What an empty program is filled with are its scenarios, in order. -/
theorem Filled.scenarios_eq {p p' : Program σ K} {scenarios : List (Scenario K)}
    (h : p.Filled p' scenarios) (hp : p.scenarios = []) : p'.scenarios = scenarios := by
  obtain ⟨chunks, hreceives, rfl⟩ := h.receives
  rw [← flatten_placement, List.flatten_eq_nil_iff] at hp
  rw [← flatten_placement, hreceives.placement, joined_of_forall_eq_nil hp]
  rw [hreceives.length, length_placement]

/-- A program that has partitions and holds some scenarios in order. -/
structure Holds (p : Program σ K) (scenarios : List (Scenario K)) : Prop where
  /-- There are partitions. -/
  workers : p.partitions ≠ []
  /-- The scenarios in global order. -/
  scenarios_eq : p.scenarios = scenarios

theorem Holds.of_placement {p p' : Program σ K} {scenarios : List (Scenario K)}
    (h : p.Holds scenarios) (hp : p'.placement = p.placement) : p'.Holds scenarios where
  workers := partitions_ne_nil h.workers (by rw [← length_placement, hp, length_placement])
  scenarios_eq := by rw [← flatten_placement, hp, flatten_placement, h.scenarios_eq]

theorem Holds.filled {p p' : Program σ K} {scenarios : List (Scenario K)} (h : p.Holds [])
    (hp : p.Filled p' scenarios) : p'.Holds scenarios := by
  obtain ⟨chunks, hreceives, -⟩ := hp.receives
  exact ⟨partitions_ne_nil h.workers hreceives.partitions_length, hp.scenarios_eq h.scenarios_eq⟩

variable [Scalar K] [Host σ K]

theorem create_holds (s : Setup σ K) : (create s).Ensures (fun p => p.Holds []) fun _ => True :=
  (create_evenly s).mono (fun p hp => ⟨hp.workers, List.eq_nil_of_length_eq_zero (by
    rw [← scenarioCount_eq_length, hp.count])⟩) fun _ h => h

/-- What is added to an empty program is all there, in order, unless it is refused. -/
theorem addAll_holds {p : Program σ K} (h : p.Holds []) (scenarios : List (Scenario K)) :
    (addAll (scenarios.map Offered.scenario) none true).Ensures p (fun _ p' => p'.Holds scenarios)
      fun _ _ => True := by
  refine (addAll_fills h.workers _ true).mono ?_ fun _ _ _ => trivial
  rintro _ p' ⟨hfilled, hall⟩
  have hinjective : Function.Injective (Offered.scenario : Scenario K → Offered K) :=
    fun _ _ heq => Offered.scenario.inj heq
  rw [← List.map_injective_iff.2 hinjective hall] at hfilled
  exact h.filled hfilled

/-- A program that is made from a template holds the scenarios. -/
theorem instantiate_holds (t : Template σ K) (s : Setup σ K) (scenarios : List (Scenario K))
    (defer : Bool) : (t.instantiate s scenarios defer).Ensures (fun p => p.Holds scenarios)
      fun _ => True := by
  unfold Template.instantiate
  split
  · exact Act.ensures_fail trivial
  · exact Act.ensures_fail trivial
  rename_i first second _ _
  refine Act.ensures_bind ((create_holds s).mono (fun p hp => ?_) fun _ h => h)
  refine Act.ensures_bind ((Change.ensures_apply (Q := fun a => a.2.Holds scenarios)
    (E := fun _ => True) ?_).mono (fun _ h => Act.ensures_pure h) fun _ h => h)
  refine Change.ensures_bind ((setRecipe_preserves_placement (.first first) p).mono
    (fun _ p₁ h₁ => ?_) fun _ _ _ => trivial)
  refine Change.ensures_bind ((setRecipe_preserves_placement (.second second) p₁).mono
    (fun _ p₂ h₂ => ?_) fun _ _ _ => trivial)
  refine Change.ensures_bind ((addAll_holds ((hp.of_placement h₁).of_placement h₂) scenarios).mono
    (fun _ p₃ h₃ => ?_) fun _ _ h => h)
  split
  · exact (generate_preserves_placement p₃).mono (fun _ _ h => h₃.of_placement h)
      fun _ _ _ => trivial
  · exact Change.ensures_pure h₃

end Program

/-! ## Studies -/

variable {K : Type} [Scalar K] [Host σ K]

/-- What a study relies on.  Draws come from a tape that nothing else moves, and the models of
the first stage have a sense. -/
structure Study.Reads (s : Study σ K) (solver : Option (Solver σ K)) (tape : σ → Tape K)
    (g : Goal) : Prop where
  /-- The sampler. -/
  sampler : s.sampler.Reads tape
  /-- The engine and the clock. -/
  host : Host.Spares fun ledger : Ledger σ K => tape ledger.env
  /-- The recipe of the first stage. -/
  first : ∀ r, s.template.first = some r → r.Poses (fun ledger => tape ledger.env) g
  /-- The recipe of the second stage. -/
  second : ∀ r, s.template.second = some r → r.Spares fun ledger => tape ledger.env
  /-- The solver of the programs. -/
  setup : ∀ b, s.setup.solver = some b → b.Spares fun ledger => tape ledger.env
  /-- The solver that is named. -/
  solver : ∀ b, solver = some b → b.Spares fun ledger => tape ledger.env

theorem Study.sampled_ofInt (s : Study σ K) {n : Int} (hn : 1 ≤ n) :
    s.sampled (.ofInt n) = (do
      let scenarios ← s.sampler.sample (.ofInt n)
      s.template.instantiate s.setup scenarios s.defer) := by
  show (if n < 1 then _ else _) = _
  rw [if_neg (by omega)]

theorem Study.one_le_of_sampled {s : Study σ K} {n : Int} {p : Program σ K}
    {ledger ledger' : Ledger σ K} (h : (s.sampled (.ofInt n)).run.run ledger = (.ok p, ledger')) :
    1 ≤ n := by
  by_contra hn
  have hfail : s.sampled (.ofInt n) =
      (Act.fail (.invalid (.notPositive "sample size" (.ofInt n))) >>= fun (_ : Unit) => do
        let scenarios ← s.sampler.sample (.ofInt n)
        s.template.instantiate s.setup scenarios s.defer) := by
    show (if n < 1 then _ else _) = _
    rw [if_pos (by omega)]
  rw [hfail] at h
  cases h

theorem Study.toNat_ne_zero_of_sampled {s : Study σ K} {n : Int} {p : Program σ K}
    {ledger ledger' : Ledger σ K} (h : (s.sampled (.ofInt n)).run.run ledger = (.ok p, ledger')) :
    n.toNat ≠ 0 := by
  have hn := one_le_of_sampled h
  omega

/-- A program on a fresh sample holds the next block of the tape, which stands behind it
afterwards. -/
theorem Study.Reads.sampled_on [Host σ (Exact F)] {s : Study σ (Exact F)}
    {solver : Option (Solver σ (Exact F))} {tape : σ → Tape (Exact F)} {g : Goal}
    (h : s.Reads solver tape g) {n : Int} {p : Program σ (Exact F)}
    {ledger ledger' : Ledger σ (Exact F)}
    (hrun : (s.sampled (.ofInt n)).run.run ledger = (.ok p, ledger')) :
    p.On (tape ledger.env) n.toNat ∧ p.Poses (fun ledger => tape ledger.env) g ∧
      tape ledger'.env = (tape ledger.env).advance n.toNat := by
  have hn := Study.one_le_of_sampled hrun
  rw [Study.sampled_ofInt s hn] at hrun
  obtain ⟨scenarios, drawn, hsample, hprogram⟩ := Act.run_bind_eq_ok_iff.1 hrun
  obtain ⟨hfills, hdrawn⟩ := h.sampler.sample hn hsample
  have hmade := Program.instantiate_keeps h.host h.first h.second h.setup scenarios s.defer
  have hholds := (Program.instantiate_holds s.template s.setup scenarios s.defer drawn).of_ok
    (congrArg Prod.fst hprogram)
  have hkept := hmade.1 drawn
  rw [hprogram] at hkept
  exact ⟨⟨hholds.workers, hholds.scenarios_eq.symm ▸ hfills⟩,
    (hmade.2 drawn).of_ok (congrArg Prod.fst hprogram), hkept.trans hdrawn⟩

end Recourse
