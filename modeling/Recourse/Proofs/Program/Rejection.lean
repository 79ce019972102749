/-
  Proofs/Program/Rejection.lean --- what a refused insertion leaves behind.

  An insertion checks that the worker lies in the range and then the payloads, writes the
  schema, and only then asks for the position that the worker stands for (`Upshot`, one
  case per way out).  So a refusal leaves the program as it was, but for one case: where a
  first scenario is offered to a worker that lies in the range and is no integer, the
  schema it sets stays (`refused_insertion`).  A list of scenarios is accepted exactly when
  they are accepted one by one.
-/
import Recourse.Proofs.Program.Fitting
import Recourse.Proofs.Program.Insertion
import Recourse.Proofs.Program.Untouched

set_option autoImplicit false
set_option linter.unusedSectionVars false

namespace Recourse

variable {σ K : Type} [Scalar K]

/-! ## Insertions -/

/-- A call that offers scenarios: a single one, or several at once. -/
inductive Insertion (K : Type) where
  /-- A single one. -/
  | one (offered : Offered K)
  /-- Several at once. -/
  | many (offered : List (Offered K))

namespace Insertion

/-- What is offered. -/
def offered : Insertion K → List (Offered K)
  | .one o => [o]
  | .many os => os

/-- The change of a program. -/
def edit (worker : Option (Setting K)) (defer : Bool) : Insertion K → Edit σ K Unit
  | .one o => Program.add o worker defer
  | .many os => Program.addAll os worker defer

end Insertion

namespace Program

/-- The worker, where one is named, lies in the range. -/
def checkRange (p : Program σ K) : Option (Setting K) → Except (Fault K) Unit
  | none => .ok ()
  | some w => p.checkWorker w

/-- The worker, where one is named, is a position. -/
def checkPosition : Option (Setting K) → Except (Fault K) Unit
  | none => .ok ()
  | some w => (workerPosition w).map fun _ => ()

/-- The worker lies in the range and is no position. -/
def Adrift (p : Program σ K) (worker : Option (Setting K)) : Prop :=
  ∃ w, worker = some w ∧ p.checkWorker w = .ok () ∧ w.integer? = none

/-- What comes of an insertion that is deferred, check by check.  The schema is written before
the last check. -/
inductive Upshot (p : Program σ K) (offered : List (Offered K)) (worker : Option (Setting K)) :
    Except (Fault K) Unit → Program σ K → Prop
  /-- The worker lies outside the range. -/
  | outside {f : Fault K} (hrange : p.checkRange worker = .error f) :
      Upshot p offered worker (.error f) p
  /-- A payload does not fit, or what is offered is no scenario. -/
  | misfit {f : Fault K} (hrange : p.checkRange worker = .ok ())
      (haccept : accept p.schema offered = .error f) : Upshot p offered worker (.error f) p
  /-- The worker is no position. -/
  | adrift {f : Fault K} {schema : Option Schema} {accepted : List (Scenario K)}
      (hrange : p.checkRange worker = .ok ())
      (haccept : accept p.schema offered = .ok (schema, accepted))
      (hposition : checkPosition worker = .error f) :
      Upshot p offered worker (.error f) { p with schema }
  /-- The scenarios are added. -/
  | added {schema : Option Schema} {accepted : List (Scenario K)}
      (hrange : p.checkRange worker = .ok ())
      (haccept : accept p.schema offered = .ok (schema, accepted))
      (hposition : checkPosition worker = .ok ()) {partitions : List (Partition K)}
      (hlength : partitions.length = p.partitions.length) :
      Upshot p offered worker (.ok ()) { p with schema, partitions, solution := none }

variable {p p' : Program σ K} {offered : List (Offered K)} {worker : Option (Setting K)}

/-- One scenario goes to a worker as a list of one does. -/
theorem add_some (o : Offered K) (w : Setting K) (defer : Bool) :
    (add o (some w) defer : Edit σ K Unit) = addAll [o] (some w) defer := by
  unfold add addAll
  simp only [pure_bind]
  rfl

/-- What comes of several scenarios. -/
theorem addAll_upshot (hp : p.partitions ≠ []) (hoffered : offered ≠ [])
    (worker : Option (Setting K)) : (addAll offered worker true).Ensures p
      (fun _ p' => p.Upshot offered worker (.ok ()) p')
      fun f p' => p.Upshot offered worker (.error f) p' := by
  unfold addAll
  rw [if_neg (by simpa using hoffered)]
  refine Change.ensures_bind (Change.ensures_state ?_)
  cases worker with
  | none =>
    refine Change.ensures_bind (Change.ensures_lift ((Settles.exactly _).mono
      (fun a haccept => ?_) fun f haccept => .misfit rfl haccept))
    refine Change.ensures_bind (Change.ensures_update (Change.ensures_bind (Change.ensures_lift
      ((Policy.fillCounts_settles p.loads a.2.length).mono (fun counts _ => ?_) fun _ hnil => ?_))))
    · exact fun _ => .added rfl haccept rfl (length_extendEach ..)
    · exact absurd hnil (loads_ne_nil hp)
  | some w =>
    refine Change.ensures_bind (Change.ensures_lift ((Settles.exactly _).mono
      (fun _ hcheck => ?_) fun f hcheck => .outside hcheck))
    have hrange : p.checkRange (some w) = .ok () := hcheck
    refine Change.ensures_bind (Change.ensures_lift ((Settles.exactly _).mono
      (fun a haccept => ?_) fun f haccept => .misfit hrange haccept))
    refine Change.ensures_bind (Change.ensures_update (Change.ensures_bind (Change.ensures_lift
      ((Settles.exactly _).mono (fun k hk => fun _ => ?_) fun f hk => ?_))))
    · exact .added hrange haccept (by rw [checkPosition, hk]; rfl) (List.length_modify ..)
    · exact .adrift hrange haccept (by rw [checkPosition, hk]; rfl)

/-- What comes of a single scenario. -/
theorem add_upshot (hp : p.partitions ≠ []) (o : Offered K) (worker : Option (Setting K)) :
    (add o worker true).Ensures p (fun _ p' => p.Upshot [o] worker (.ok ()) p')
      fun f p' => p.Upshot [o] worker (.error f) p' := by
  cases worker with
  | none =>
    unfold add
    refine Change.ensures_bind (Change.ensures_state (Change.ensures_bind (Change.ensures_lift
      ((Settles.exactly _).mono (fun k _ => ?_) fun f hf => ?_))))
    · refine Change.ensures_bind (Change.ensures_lift ((Settles.exactly _).mono
        (fun a haccept => fun _ => ?_) fun f haccept => .misfit rfl haccept))
      exact .added rfl haccept rfl (List.length_modify ..)
    · obtain ⟨k, hk⟩ := Policy.exists_smallest (loads_ne_nil hp)
      exact nomatch hf.symm.trans (Policy.leastLoaded_eq hk)
  | some w =>
    rw [add_some]
    exact addAll_upshot hp (List.cons_ne_nil o []) (some w)

/-- An insertion that is deferred leaves the ledger alone. -/
theorem add_keeps (o : Offered K) (worker : Option (Setting K)) (p : Program σ K) :
    (add o worker true).Keeps (fun ledger => ledger) (fun _ => True) p := by
  cases worker with
  | none =>
    unfold add
    refine Change.keeps_state_bind (Change.keeps_lift_bind trivial fun least _ => ?_)
    refine Change.keeps_lift_bind trivial fun a _ => Change.keeps_update_bind ?_
    simp only [pure_bind]
    exact Change.keeps_update_bind (finishAdding_keeps (fun _ _ _ _ _ => trivial) trivial)
  | some w =>
    rw [add_some]
    exact addAll_keeps (fun _ _ _ _ _ => trivial) [o] (some w) trivial

/-! ## Refusals -/

theorem checkPosition_eq_error {f : Fault K} (h : checkPosition worker = .error f) :
    ∃ w, worker = some w ∧ w.integer? = none := by
  cases worker with
  | none => cases h
  | some w =>
    refine ⟨w, rfl, ?_⟩
    cases hint : w.integer? with
    | none => rfl
    | some n =>
      rw [checkPosition, workerPosition, hint] at h
      cases h

/-- A schema that is there stays. -/
theorem accept_some {S : Schema} {schema : Option Schema} {accepted : List (Scenario K)}
    (h : accept (some S) offered = .ok (schema, accepted)) : schema = some S :=
  Option.mem_def.1 ((fits_of_accept h).1 S rfl)

/-- A refusal leaves the program, or it leaves the schema that the scenarios would have set. -/
theorem Upshot.refused {f : Fault K} (h : p.Upshot offered worker (.error f) p') :
    p' = p ∨ p.schema = none ∧ p.Adrift worker ∧
      ∃ schema accepted, accept none offered = .ok (schema, accepted) ∧ p' = { p with schema } := by
  cases h with
  | outside | misfit => exact .inl rfl
  | @adrift f schema accepted hrange haccept hposition =>
    cases hschema : p.schema with
    | some S =>
      rw [hschema] at haccept
      rw [accept_some haccept, ← hschema]
      exact .inl rfl
    | none =>
      rw [hschema] at haccept
      obtain ⟨w, rfl, hint⟩ := checkPosition_eq_error hposition
      exact .inr ⟨rfl, ⟨w, rfl, hrange, hint⟩, schema, accepted, haccept, rfl⟩

/-! ## One by one -/

/-- Add scenarios one by one, without building anything. -/
def addEach (worker : Option (Setting K)) : List (Offered K) → Edit σ K Unit
  | [] => pure ()
  | o :: rest => do
      add o worker true
      addEach worker rest

/-- The worker is a position, where there is something to add, and the payloads fit; then this is
the schema. -/
def Welcomes (p : Program σ K) (offered : List (Offered K)) (worker : Option (Setting K))
    (schema : Option Schema) : Prop :=
  (offered ≠ [] → p.checkRange worker = .ok () ∧ checkPosition worker = .ok ()) ∧
    ∃ accepted, accept p.schema offered = .ok (schema, accepted)

theorem Welcomes.schema_eq {schema schema' : Option Schema} (h : p.Welcomes offered worker schema)
    (h' : p.Welcomes offered worker schema') : schema = schema' := by
  obtain ⟨-, accepted, h⟩ := h
  obtain ⟨-, accepted', h'⟩ := h'
  exact congrArg Prod.fst (Except.ok.inj (h.symm.trans h'))

theorem Upshot.accepted (h : p.Upshot offered worker (.ok ()) p') :
    p.Welcomes offered worker p'.schema ∧ p'.partitions.length = p.partitions.length := by
  cases h with
  | added hrange haccept hposition hlength =>
    exact ⟨⟨fun _ => ⟨hrange, hposition⟩, _, haccept⟩, hlength⟩

theorem Upshot.not_welcomes (hoffered : offered ≠ []) {f : Fault K}
    (h : p.Upshot offered worker (.error f) p') (schema : Option Schema) :
    ¬ p.Welcomes offered worker schema := by
  rintro ⟨hworker, accepted, hall⟩
  obtain ⟨hpass, hplace⟩ := hworker hoffered
  cases h with
  | outside hrange => cases hrange.symm.trans hpass
  | misfit hrange haccept => cases haccept.symm.trans hall
  | adrift hrange haccept hposition => cases hposition.symm.trans hplace

/-- The first scenario is checked, and the others by the schema it leaves. -/
theorem accept_cons (schema : Option Schema) (o : Offered K) (rest : List (Offered K)) :
    accept schema (o :: rest) = (do
      let (schema, first) ← accept schema [o]
      let (schema, others) ← accept schema rest
      return (schema, first ++ others)) := by
  cases o with
  | other t => rfl
  | scenario s =>
    simp only [accept]
    cases Schema.check schema [s.data] <;> rfl

theorem checkRange_congr (hlength : p'.partitions.length = p.partitions.length)
    (worker : Option (Setting K)) : p'.checkRange worker = p.checkRange worker := by
  cases worker with
  | none => rfl
  | some w => rw [checkRange, checkRange, checkWorker, checkWorker, hlength]

/-- Scenarios are welcome where the first one is, and the others once it was added. -/
theorem welcomes_cons {o : Offered K} {rest : List (Offered K)} {schema : Option Schema}
    (h : p.Welcomes [o] worker p'.schema) (hlength : p'.partitions.length = p.partitions.length) :
    p.Welcomes (o :: rest) worker schema ↔ p'.Welcomes rest worker schema := by
  obtain ⟨hworker, first, hfirst⟩ := h
  have hworker := hworker (List.cons_ne_nil o [])
  rw [Welcomes, Welcomes, accept_cons, hfirst, checkRange_congr hlength]
  constructor
  · rintro ⟨-, accepted, hall⟩
    obtain ⟨_, hsplit, hall⟩ := bind_eq_ok_iff.1 hall
    cases hsplit
    obtain ⟨⟨schema', others⟩, hrest, hall⟩ := bind_eq_ok_iff.1 hall
    cases hall
    exact ⟨fun _ => hworker, others, hrest⟩
  · rintro ⟨-, others, hrest⟩
    exact ⟨fun _ => hworker, first ++ others,
      bind_eq_ok_iff.2 ⟨_, rfl, bind_eq_ok_iff.2 ⟨_, hrest, rfl⟩⟩⟩

theorem Welcomes.first {o : Offered K} {rest : List (Offered K)} {schema : Option Schema}
    (h : p.Welcomes (o :: rest) worker schema) : ∃ schema', p.Welcomes [o] worker schema' := by
  obtain ⟨hworker, accepted, hall⟩ := h
  rw [accept_cons] at hall
  obtain ⟨⟨schema', first⟩, hfirst, -⟩ := bind_eq_ok_iff.1 hall
  exact ⟨schema', fun _ => hworker (List.cons_ne_nil o rest), first, hfirst⟩

/-- Several scenarios are accepted where they are welcome. -/
theorem addAll_welcomes (hp : p.partitions ≠ []) (offered : List (Offered K))
    (worker : Option (Setting K)) : (addAll offered worker true).Ensures p
      (fun _ p' => p.Welcomes offered worker p'.schema)
      fun _ _ => ∀ schema, ¬ p.Welcomes offered worker schema := by
  cases offered with
  | nil => exact Change.ensures_pure ⟨fun h => absurd rfl h, [], rfl⟩
  | cons o rest =>
    have hoffered : o :: rest ≠ [] := List.cons_ne_nil o rest
    exact (addAll_upshot hp hoffered worker).mono (fun _ _ h => h.accepted.1)
      fun _ _ h => h.not_welcomes hoffered

/-- So are they one by one. -/
theorem addEach_welcomes (hp : p.partitions ≠ []) (offered : List (Offered K))
    (worker : Option (Setting K)) : (addEach worker offered).Ensures p
      (fun _ p' => p.Welcomes offered worker p'.schema)
      fun _ _ => ∀ schema, ¬ p.Welcomes offered worker schema := by
  induction offered generalizing p with
  | nil => exact Change.ensures_pure ⟨fun h => absurd rfl h, [], rfl⟩
  | cons o rest ih =>
    have hone : [o] ≠ [] := List.cons_ne_nil o []
    refine Change.ensures_bind ((add_upshot hp o worker).mono ?first ?refused)
    case first =>
      intro _ p₁ h
      obtain ⟨hwelcome, hlength⟩ := h.accepted
      have hp₁ : p₁.partitions ≠ [] := by
        rw [← List.length_pos_iff] at hp ⊢
        rwa [hlength]
      exact (ih hp₁).mono (fun _ p₂ h => (welcomes_cons hwelcome hlength).2 h)
        fun _ _ h schema hall => h schema ((welcomes_cons hwelcome hlength).1 hall)
    case refused =>
      intro f p₁ h schema hall
      obtain ⟨schema', hfirst⟩ := hall.first
      exact h.not_welcomes hone schema' hfirst

/-- From a program, a change is accepted and leaves a schema. -/
def Passes (c : Edit σ K Unit) (p : Program σ K) (ledger : Ledger σ K)
    (schema : Option Schema) : Prop :=
  ∃ p' ledger', (c.runOn p).run ledger = ((.ok (), p'), ledger') ∧ p'.schema = schema

/-- A change that is accepted exactly where scenarios are welcome. -/
theorem passes_iff_welcomes {c : Edit σ K Unit}
    (h : c.Ensures p (fun _ p' => p.Welcomes offered worker p'.schema)
      fun _ _ => ∀ schema, ¬ p.Welcomes offered worker schema)
    (ledger : Ledger σ K) (schema : Option Schema) :
    Passes c p ledger schema ↔ p.Welcomes offered worker schema := by
  constructor
  · rintro ⟨p', ledger', hrun, rfl⟩
    exact h.of_runOn hrun
  · intro hwelcome
    rcases hrun : (c.runOn p).run ledger with ⟨⟨r, p'⟩, ledger'⟩
    have hr := h.of_runOn hrun
    cases r with
    | ok _ => exact ⟨p', ledger', hrun, hr.schema_eq hwelcome⟩
    | error f => exact absurd hwelcome (hr schema)

/-- Whether a change is accepted shows in its result. -/
theorem exists_passes_iff (c : Edit σ K Unit) (p : Program σ K) (ledger : Ledger σ K) :
    (∃ schema, Passes c p ledger schema) ↔
      ((c.runOn p).run ledger).1.1.toOption.isSome = true := by
  rcases hrun : (c.runOn p).run ledger with ⟨⟨r, p'⟩, ledger'⟩
  constructor
  · rintro ⟨schema, p'', ledger'', h, -⟩
    cases hrun.symm.trans h
    rfl
  · cases r with
    | ok _ => exact fun _ => ⟨_, p', ledger', hrun, rfl⟩
    | error f => exact fun h => nomatch h

theorem finishAdding_eq (defer : Bool) : (finishAdding defer : Edit σ K Unit) = (do
    finishAdding true
    if !defer && hasRecipes (← Change.state) then generate) := by
  unfold finishAdding
  rfl

/-- Adding is adding without building, and then building where that is wanted, there is
something new and the recipes are there. -/
theorem edit_eq (i : Insertion K) (worker : Option (Setting K)) (defer : Bool) :
    (i.edit worker defer : Edit σ K Unit) = (do
      i.edit worker true
      if !i.offered.isEmpty && !defer && hasRecipes (← Change.state) then generate) := by
  cases i with
  | one o =>
    show add o worker defer = (do add o worker true; _)
    unfold add
    rw [finishAdding_eq defer]
    cases worker <;> simp only [bind_assoc, pure_bind] <;> rfl
  | many os =>
    show addAll os worker defer = (do addAll os worker true; _)
    cases os with
    | nil => rfl
    | cons o rest =>
      unfold addAll
      rw [finishAdding_eq defer]
      cases worker <;>
        simp only [List.isEmpty_cons, Bool.false_eq_true, if_false, bind_assoc] <;> rfl

/-! ## What a refusal leaves -/

/-- An insertion that is refused before anything is built leaves the program and the ledger as
they were, so that whatever comes next goes as if it had not been tried; but where no schema is
there, and the scenarios are all accepted and offered to a worker in the range that is no
integer, the schema they would have set stays.  A list of scenarios is accepted, and leaves a
schema, exactly as the scenarios are and do one by one. -/
theorem refused_insertion (hp : p.partitions ≠ []) (worker : Option (Setting K)) :
    (∀ (i : Insertion K) (defer : Bool), (i.edit worker defer : Edit σ K Unit) = (do
      i.edit worker true
      if !i.offered.isEmpty && !defer && hasRecipes (← Change.state) then generate)) ∧
    (∀ (i : Insertion K) (ledger ledger' : Ledger σ K) (f : Fault K) (p' : Program σ K),
      ((i.edit worker true).runOn p).run ledger = ((.error f, p'), ledger') → ledger' = ledger ∧
        (p' = p ∨ p.schema = none ∧ p.Adrift worker ∧ ∃ schema accepted,
          accept none i.offered = .ok (schema, accepted) ∧ p' = { p with schema })) ∧
    ∀ (offered : List (Offered K)) (ledger : Ledger σ K) (schema : Option Schema),
      Passes (addAll offered worker true) p ledger schema ↔
        Passes (addEach worker offered) p ledger schema := by
  refine ⟨fun i defer => edit_eq i worker defer,
    fun i ledger ledger' f p' hrun => ⟨?ledger, ?program⟩,
    fun offered ledger schema => ?bulk⟩
  case ledger =>
    have hkeeps : (i.edit worker true).Keeps (fun ledger => ledger) (fun _ => True) p := by
      cases i with
      | one o => exact add_keeps o worker p
      | many os => exact addAll_keeps (fun _ _ _ _ _ => trivial) os worker trivial
    have hkept := (hkeeps ledger).1
    have hafter : ((i.edit worker true).run.run (p, ledger)).2.2 = ledger' :=
      congrArg Prod.snd hrun
    exact hafter.symm.trans hkept
  case program =>
    cases i with
    | one o => exact ((add_upshot hp o worker).of_runOn hrun).refused
    | many os =>
      by_cases hos : os = []
      · subst hos
        cases hrun
      · exact ((addAll_upshot hp hos worker).of_runOn hrun).refused
  case bulk =>
    rw [passes_iff_welcomes (addAll_welcomes hp offered worker),
      passes_iff_welcomes (addEach_welcomes hp offered worker)]

/-- A payload that is no price. -/
def labelled : Scenario (Exact ℚ) := ⟨.finite (1 / 2), .text "a", none⟩

/-- The solved stock turns a text away and a worker it does not have, and keeps its solution.
Two more prices are accepted at once as they are one by one. -/
theorem stock_refused_insertion : ∃ p : Program (Transcript ℚ) (Exact ℚ), Reachable p ∧
    p.solution.map (fun s => (s.decision, s.objective)) = some ([.finite 3], .finite 3) ∧
    (∃ f, (((Insertion.one (.scenario labelled)).edit none true).runOn p).run
      ⟨fullStock, [], 0⟩ = ((.error f, p), ⟨fullStock, [], 0⟩)) ∧
    (∃ f, (((Insertion.many [.scenario (priced 4), .scenario (priced 5)]).edit
      (some (.ofInt 5)) true).runOn p).run ⟨fullStock, [], 0⟩ =
        ((.error f, p), ⟨fullStock, [], 0⟩)) ∧
    ∀ schema, Passes (addAll [.scenario (priced 4), .scenario (priced 5)] none true) p
      ⟨fullStock, [], 0⟩ schema ↔
        Passes (addEach none [.scenario (priced 4), .scenario (priced 5)]) p
          ⟨fullStock, [], 0⟩ schema := by
  obtain ⟨p, hp, hstate⟩ := exists_reachable Setup.standard stockOperations_allowed
    ⟨fullStock, [], 0⟩
    (fun p => p.solution.map (fun s => (s.decision, s.objective)) == some ([.finite 3], .finite 3)
      && p.partitionSizes == [1, 1] && p.schema == some .number
      && ((((Insertion.one (.scenario labelled)).edit none true).runOn p).run
        ⟨fullStock, [], 0⟩).1.1.toOption.isNone
      && ((((Insertion.many [.scenario (priced 4), .scenario (priced 5)]).edit
        (some (.ofInt 5)) true).runOn p).run ⟨fullStock, [], 0⟩).1.1.toOption.isNone)
    (by decide +kernel)
  simp only [Bool.and_eq_true, beq_iff_eq, Option.isNone_iff_eq_none] at hstate
  obtain ⟨⟨⟨⟨hsolution, hsizes⟩, hschema⟩, htext⟩, hworker⟩ := hstate
  have hpartitions : p.partitions ≠ [] := by
    intro hnil
    rw [partitionSizes, hnil] at hsizes
    cases hsizes
  have hrefused : ∀ (i : Insertion (Exact ℚ)) (worker : Option (Setting (Exact ℚ))),
      (((i.edit worker true).runOn p).run ⟨fullStock, [], 0⟩).1.1.toOption = none →
        ∃ f, ((i.edit worker true).runOn p).run ⟨fullStock, [], 0⟩ =
          ((.error f, p), ⟨fullStock, [], 0⟩) := by
    intro i worker hnone
    rcases hrun : ((i.edit worker true).runOn p).run ⟨fullStock, [], 0⟩ with ⟨⟨r, p'⟩, ledger'⟩
    rw [hrun] at hnone
    cases r with
    | ok a => cases hnone
    | error f =>
      obtain ⟨rfl, rfl | ⟨hnone, -⟩⟩ :=
        (refused_insertion hpartitions worker).2.1 i ⟨fullStock, [], 0⟩ ledger' f p' hrun
      · exact ⟨f, rfl⟩
      · rw [hschema] at hnone
        cases hnone
  exact ⟨p, hp, hsolution, hrefused _ _ htext, hrefused _ _ hworker,
    (refused_insertion hpartitions none).2.2 _ _⟩

/-- A price is offered to worker one half. -/
def misdirected : Edit (Transcript ℚ) (Exact ℚ) Unit :=
  add (.scenario (priced 1)) (some (.number (.real (.finite (1 / 2))))) false

/-- A price that is offered to worker one half of an empty program is turned away, and yet it
decides what the program holds: a text, which would have been accepted, is turned away
afterwards. -/
theorem half_worker_sets_schema : ∃ p : Program (Transcript ℚ) (Exact ℚ), Constructed p [] ∧
    p.schema = none ∧
    ((misdirected.runOn p).run ⟨fullStock, [], 0⟩).1.1.toOption = none ∧
    ((misdirected.runOn p).run ⟨fullStock, [], 0⟩).1.2.schema = some .number ∧
    (∃ schema, Passes (add (.scenario labelled) none true) p ⟨fullStock, [], 0⟩ schema) ∧
    ¬ ∃ schema, Passes (add (.scenario labelled) none true)
      ((misdirected.runOn p).run ⟨fullStock, [], 0⟩).1.2 ⟨fullStock, [], 0⟩ schema := by
  obtain ⟨p, ledger, hp, hstate⟩ := exists_constructed Setup.standard [] ⟨fullStock, [], 0⟩
    (fun p => p.schema == none
      && ((misdirected.runOn p).run ⟨fullStock, [], 0⟩).1.1.toOption == none
      && ((misdirected.runOn p).run ⟨fullStock, [], 0⟩).1.2.schema == some .number
      && (((add (.scenario labelled) none true).runOn p).run
        ⟨fullStock, [], 0⟩).1.1.toOption.isSome
      && !(((add (.scenario labelled) none true).runOn
        ((misdirected.runOn p).run ⟨fullStock, [], 0⟩).1.2).run
          ⟨fullStock, [], 0⟩).1.1.toOption.isSome)
    (by decide +kernel)
  simp only [Bool.and_eq_true, beq_iff_eq, Bool.not_eq_true'] at hstate
  obtain ⟨⟨⟨⟨hschema, hrefused⟩, hset⟩, hbefore⟩, hafter⟩ := hstate
  refine ⟨p, hp, hschema, hrefused, hset, (exists_passes_iff _ _ _).2 hbefore, fun h => ?_⟩
  exact Bool.false_ne_true (hafter.symm.trans ((exists_passes_iff _ _ _).1 h))

end Program

end Recourse
