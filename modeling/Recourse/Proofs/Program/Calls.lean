/-
  Proofs/Program/Calls.lean --- calls of recipes, and what is built from their answers.

  Recipes may do anything, and may fail at any call.  What a generation does to the ledger is
  told by the calls it makes: one for the first stage where its model is not current
  (`generateMaster_calls`), and after that one for every scenario whose subproblem is not, in
  order and once for each, however the scenarios are spread over the partitions
  (`generateSubproblems_calls`).
-/
import Recourse.Proofs.Layout.Work
import Recourse.Proofs.Solver.Extensive

set_option autoImplicit false
set_option linter.unusedSectionVars false

namespace Recourse

variable {σ K : Type}

/-! ## Calls of recipes -/

/-- What the call of a recipe comes to. -/
abbrev Answer (K : Type) : Type := Except (Fault K) (Model K)

/-- The fault of a call, if there was one and it failed. -/
def Answer.fault? : Option (Answer K) → Option (Fault K)
  | some (.error f) => some f
  | _ => none

theorem Answer.fault?_eq_some {a : Option (Answer K)} {f : Fault K} :
    Answer.fault? a = some f ↔ a = some (.error f) := by
  rcases a with _ | _ | _ <;> simp [fault?]

theorem Act.run_attempt {α : Type} (act : Act σ K α) (ledger : Ledger σ K) :
    (attempt act).run.run ledger = (.ok (act.run.run ledger).1, (act.run.run ledger).2) := rfl

theorem Change.run_ofAct {S α : Type} (act : Act σ K α) (s : S) (ledger : Ledger σ K) :
    (ofAct act).run.run (s, ledger) = ((act.run.run ledger).1, s, (act.run.run ledger).2) := rfl

theorem Change.run_state_bind {S α : Type} (f : S → Change S σ K α) (s : S)
    (ledger : Ledger σ K) :
    (Change.state >>= f).run.run (s, ledger) = (f s).run.run (s, ledger) := rfl

/-- Call the recipe of the first stage.  A model without variables counts as a failure. -/
def FirstRecipe.call (r : FirstRecipe σ K) (data : Value K) : Act σ K (Model K) := do
  let m ← r.generate data
  if m.variableCount = 0 then Act.fail (.invalid .noDecisions)
  return m

namespace Slot

/-- The epoch a slot was built in, if it was. -/
def stamp (s : Slot K) : Option Int := s.built.map (·.2)

theorem isCurrent_iff {s : Slot K} {epoch : Int} :
    s.isCurrent epoch = true ↔ s.stamp = some epoch := by
  unfold isCurrent stamp
  cases s.built with
  | none => simp
  | some b => simp

/-- A slot after its scenario was called for, or was not.  A call that failed leaves it
empty. -/
def answered (epoch : Int) (s : Slot K) : Option (Answer K) → Slot K
  | none => s
  | some (.ok m) => { s with built := some (m, epoch) }
  | some (.error _) => { s with built := none }

/-- What is answered is built in the epoch there is now. -/
theorem stamp_answered_le {epoch e : Int} {s : Slot K} {a : Option (Answer K)}
    (hs : ∀ e, s.stamp = some e → e ≤ epoch) (h : (s.answered epoch a).stamp = some e) :
    e ≤ epoch := by
  rcases a with _ | _ | m
  · exact hs e h
  · cases h
  · cases h
    exact le_rfl

end Slot

namespace Program

/-- Nothing was done to a ledger but to call the recipe of the first stage, if it was
called. -/
inductive CallsFirst (p : Program σ K) : Option (Answer K) → Ledger σ K → Ledger σ K → Prop
  /-- It was not called. -/
  | spared (ledger : Ledger σ K) : CallsFirst p none ledger ledger
  /-- It was called, with this answer. -/
  | called {r : FirstRecipe σ K} {a : Answer K} {ledger ledger' : Ledger σ K}
      (hr : p.firstRecipe = some r) (ha : (r.call p.firstData).run.run ledger = (a, ledger')) :
      CallsFirst p (some a) ledger ledger'

/-- Nothing was done to a ledger but to call the recipe of the second stage for some of the
scenarios, in their order and once for each.  The answers stand next to the scenarios. -/
inductive CallsSecond (p : Program σ K) :
    List (Scenario K) → List (Option (Answer K)) → Ledger σ K → Ledger σ K → Prop
  /-- There are no more scenarios. -/
  | nil (ledger : Ledger σ K) : CallsSecond p [] [] ledger ledger
  /-- It was not called for the next scenario. -/
  | spared {c : Scenario K} {scenarios : List (Scenario K)} {answers : List (Option (Answer K))}
      {ledger ledger' : Ledger σ K} (h : CallsSecond p scenarios answers ledger ledger') :
      CallsSecond p (c :: scenarios) (none :: answers) ledger ledger'
  /-- It was called for the next scenario, with this answer. -/
  | called {r : SecondRecipe σ K} {d : Decisions} {c : Scenario K} {scenarios : List (Scenario K)}
      {a : Answer K} {answers : List (Option (Answer K))} {ledger ledger₁ ledger' : Ledger σ K}
      (hr : p.secondRecipe = some r) (hd : p.decisions = some d)
      (ha : (r.generate p.secondData d c.data).run.run ledger = (a, ledger₁))
      (h : CallsSecond p scenarios answers ledger₁ ledger') :
      CallsSecond p (c :: scenarios) (some a :: answers) ledger ledger'

/-- No call is needed where the recipe is called for nothing. -/
theorem callsSecond_none (p : Program σ K) (scenarios : List (Scenario K)) (ledger : Ledger σ K) :
    p.CallsSecond scenarios (scenarios.map fun _ => none) ledger ledger := by
  induction scenarios with
  | nil => exact .nil ledger
  | cons c scenarios ih => exact .spared ih

/-- Calls depend on the recipe, its data and the decisions only. -/
theorem CallsSecond.congr {p q : Program σ K} {scenarios : List (Scenario K)}
    {answers : List (Option (Answer K))} {ledger ledger' : Ledger σ K}
    (h : p.CallsSecond scenarios answers ledger ledger') (hr : q.secondRecipe = p.secondRecipe)
    (hdata : q.secondData = p.secondData) (hd : q.decisions = p.decisions) :
    q.CallsSecond scenarios answers ledger ledger' := by
  induction h with
  | nil ledger => exact .nil ledger
  | spared _ ih => exact .spared ih
  | called hr' hd' ha _ ih => exact .called (hr.trans hr') (hd.trans hd') (hdata ▸ ha) ih

/-- The calls that failed, by index and with their faults. -/
def failed (answers : List (Option (Answer K))) : List (Int × Fault K) :=
  answers.zipIdx.filterMap fun a => (Answer.fault? a.1).map ((a.2 : Int), ·)

/-- There is a failure for an index just where the call for it failed. -/
theorem mem_failed {answers : List (Option (Answer K))} {i : Nat} {f : Fault K} :
    ((i : Int), f) ∈ failed answers ↔ answers[i]? = some (some (.error f)) := by
  unfold failed
  rw [List.mem_filterMap]
  constructor
  · rintro ⟨⟨a, j⟩, hmem, ha⟩
    obtain ⟨f', hf', heq⟩ := Option.map_eq_some_iff.1 ha
    simp only [Prod.mk.injEq, Nat.cast_inj] at heq
    obtain ⟨rfl, rfl⟩ := heq
    have hanswer : a = some (.error f') := Answer.fault?_eq_some.1 hf'
    rw [List.mk_mem_zipIdx_iff_getElem?.1 hmem, hanswer]
  · intro hi
    exact ⟨(some (.error f), i), List.mk_mem_zipIdx_iff_getElem?.2 hi, by simp [Answer.fault?]⟩

/-! ## Building slot by slot -/

/-- The results of building slots, from the answers to the calls. -/
def builtFrom (epoch : Int) (slots : List (Slot K)) (answers : List (Option (Answer K))) :
    List (Slot K × Option (Fault K)) :=
  List.zipWith (fun s a => (s.answered epoch a, Answer.fault? a)) slots answers

theorem map_fst_builtFrom (epoch : Int) (slots : List (Slot K))
    (answers : List (Option (Answer K))) :
    (builtFrom epoch slots answers).map (·.1) = List.zipWith (Slot.answered epoch) slots answers :=
  List.map_zipWith

/-- The failures that are reported are the calls that failed. -/
theorem failures_builtFrom {epoch : Int} {slots : List (Slot K)}
    {answers : List (Option (Answer K))} (h : answers.length = slots.length) :
    failures 0 (builtFrom epoch slots answers) = failed answers := by
  have hfaults : (builtFrom epoch slots answers).map (·.2) = answers.map Answer.fault? := by
    rw [builtFrom, List.map_zipWith]
    exact List.ext_getElem (by simp [h]) fun i _ _ => by simp
  have hfailures : ∀ results : List (Slot K × Option (Fault K)), failures 0 results =
      (results.map (·.2)).zipIdx.filterMap fun f => f.1.map ((f.2 : Int), ·) := by
    intro results
    rw [failures, List.zipIdx_map, List.filterMap_map]
    simp
  rw [hfailures, hfaults, List.zipIdx_map, List.filterMap_map]
  rfl

/-- A slot that is not current is called for, and any other is left alone. -/
theorem buildSlot_calls {p : Program σ K} {r : SecondRecipe σ K} {d : Decisions}
    (hr : p.secondRecipe = some r) (hd : p.decisions = some d) (s : Slot K)
    (ledger : Ledger σ K) : ∃ a ledger₁,
      (Partition.buildSlot (fun c => r.generate p.secondData d c.data) p.secondEpoch s).run.run
        ledger = (.ok (s.answered p.secondEpoch a, Answer.fault? a), ledger₁) ∧
      (∀ scenarios answers ledger', p.CallsSecond scenarios answers ledger₁ ledger' →
        p.CallsSecond (s.scenario :: scenarios) (a :: answers) ledger ledger') ∧
      a.isSome = !s.isCurrent p.secondEpoch := by
  unfold Partition.buildSlot
  by_cases hs : s.isCurrent p.secondEpoch = true
  · refine ⟨none, ledger, ?_, fun _ _ _ h => .spared h, by rw [hs]; rfl⟩
    rw [if_pos hs]
    rfl
  · rcases ha : (r.generate p.secondData d s.scenario.data).run.run ledger with ⟨a, ledger₁⟩
    refine ⟨some a, ledger₁, ?_, fun _ _ _ h => .called hr hd ha h, by simp [hs]⟩
    rw [if_neg hs, Act.run_bind, Act.run_attempt, ha]
    cases a <;> rfl

/-- The slots are called for one after another. -/
theorem forEach_buildSlot_calls {p : Program σ K} {r : SecondRecipe σ K} {d : Decisions}
    (hr : p.secondRecipe = some r) (hd : p.decisions = some d) (slots : List (Slot K))
    (ledger : Ledger σ K) : ∃ answers ledger',
      (Act.forEach (Partition.buildSlot (fun c => r.generate p.secondData d c.data) p.secondEpoch)
        slots).run.run ledger = (.ok (builtFrom p.secondEpoch slots answers), ledger') ∧
      p.CallsSecond (slots.map (·.scenario)) answers ledger ledger' ∧
      answers.map (·.isSome) = slots.map (!·.isCurrent p.secondEpoch) := by
  induction slots generalizing ledger with
  | nil => exact ⟨[], ledger, rfl, .nil ledger, rfl⟩
  | cons s slots ih =>
    obtain ⟨a, ledger₁, hslot, hcall, ha⟩ := buildSlot_calls hr hd s ledger
    obtain ⟨answers, ledger', hrun, hcalls, hcalled⟩ := ih ledger₁
    refine ⟨a :: answers, ledger', ?_, hcall _ _ _ hcalls, ?_⟩
    · rw [Act.forEach, Act.run_bind, hslot]
      dsimp only
      rw [Act.run_bind, hrun]
      rfl
    · rw [List.map_cons, List.map_cons, ha, hcalled]

variable [Scalar K]

/-- The subproblems of a program are built by calls for those that are not current.  What
failed is reported, and without any failure it is noted that all is built. -/
theorem generateSubproblems_calls {p : Program σ K} {r : SecondRecipe σ K} {d : Decisions}
    (hr : p.secondRecipe = some r) (hd : p.decisions = some d) (ledger : Ledger σ K) :
    ∃ answers partitions ledger', p.CallsSecond p.scenarios answers ledger ledger' ∧
      answers.map (·.isSome) = p.slots.map (!·.isCurrent p.secondEpoch) ∧
      partitions.flatMap (·.slots) = List.zipWith (Slot.answered p.secondEpoch) p.slots answers ∧
      (generateSubproblems r : Edit σ K Unit).run.run (p, ledger) =
        if (failed answers).isEmpty then
          (.ok (), { p with partitions, generatedEpoch := some p.secondEpoch }, ledger')
        else (.error (.generation (failed answers)), { p with partitions }, ledger') := by
  obtain ⟨answers, ledger', hrun, hcalls, hcalled⟩ := forEach_buildSlot_calls hr hd p.slots ledger
  have hlength : answers.length = p.slots.length := by
    simpa using congrArg List.length hcalled
  obtain ⟨hagree, hledger⟩ := map_generate_agrees p
    (fun c => r.generate p.secondData d c.data) p.secondEpoch ledger
  rw [hrun] at hagree hledger
  rcases hmap : (p.transport.map (fun (q : Partition K × Nat) =>
    q.1.generate (fun c => r.generate p.secondData d c.data) p.secondEpoch q.2)
      p.placed).run.run ledger with ⟨results, ledger₁⟩
  rw [hmap] at hagree hledger
  obtain rfl : ledger' = ledger₁ := hledger (.inl trivial)
  cases results with
  | error f => exact hagree.elim
  | ok results =>
    obtain ⟨⟨hslots, hfailed⟩, -⟩ := hagree
    rw [failures_builtFrom hlength] at hfailed
    refine ⟨answers, results.map (·.1), ledger', hcalls, hcalled, ?_, ?_⟩
    · rw [List.flatMap_map, hslots, map_fst_builtFrom]
    · have hgiven : p.decisions.getD ⟨[]⟩ = d := by
        rw [hd]
        rfl
      unfold generateSubproblems
      rw [Change.run_state_bind, hgiven]
      show (Change.ofAct (p.transport.map _ p.placed) >>= fun results =>
        (_ : Edit σ K Unit)).run.run (p, ledger) = _
      rw [Change.run_bind, Change.run_ofAct, hmap]
      show (if (!(results.flatMap Prod.snd).isEmpty) = true then _ else _ : Edit σ K Unit).run.run
        ({ p with partitions := results.map Prod.fst }, ledger') = _
      rw [hfailed]
      cases (failed answers).isEmpty <;> rfl

/-! ## Building both stages -/

/-- A program with the first-stage model that was answered, if one was. -/
def taking (p : Program σ K) : Option (Answer K) → Program σ K
  | some (.ok m) => installMaster m p
  | _ => p

@[simp] theorem scenarios_taking (p : Program σ K) (first : Option (Answer K)) :
    (p.taking first).scenarios = p.scenarios := by
  rcases first with _ | _ | m <;> rfl

@[simp] theorem slots_taking (p : Program σ K) (first : Option (Answer K)) :
    (p.taking first).slots = p.slots := by
  rcases first with _ | _ | m <;> rfl

@[simp] theorem secondRecipe_taking (p : Program σ K) (first : Option (Answer K)) :
    (p.taking first).secondRecipe = p.secondRecipe := by
  rcases first with _ | _ | m <;> rfl

@[simp] theorem firstRecipe_taking (p : Program σ K) (first : Option (Answer K)) :
    (p.taking first).firstRecipe = p.firstRecipe := by
  rcases first with _ | _ | m <;> rfl

@[simp] theorem firstEpoch_taking (p : Program σ K) (first : Option (Answer K)) :
    (p.taking first).firstEpoch = p.firstEpoch := by
  rcases first with _ | _ | m <;> rfl

/-- No call for the first stage failed. -/
def Succeeds (first : Option (Answer K)) : Prop := Answer.fault? first = none

/-- The first-stage model is built by a call, unless it is current. -/
theorem generateMaster_calls {p : Program σ K} {r : FirstRecipe σ K} (hr : p.firstRecipe = some r)
    (ledger : Ledger σ K) : ∃ first ledger', p.CallsFirst first ledger ledger' ∧
      (first.isSome = true ↔ p.currentMaster? = none) ∧
      (generateMaster r : Edit σ K Unit).run.run (p, ledger) =
        ((match Answer.fault? first with | some f => .error f | none => .ok ()),
          p.taking first, ledger') := by
  cases hcurrent : p.currentMaster? with
  | some m =>
    refine ⟨none, ledger, .spared ledger, by simp, ?_⟩
    unfold generateMaster
    rw [Change.run_state_bind, hcurrent]
    rfl
  | none =>
    rcases ha : (r.call p.firstData).run.run ledger with ⟨a, ledger'⟩
    refine ⟨some a, ledger', .called hr ha, by simp, ?_⟩
    unfold FirstRecipe.call at ha
    rw [Act.run_bind] at ha
    unfold generateMaster
    rw [Change.run_state_bind, hcurrent]
    show (Change.ofAct (r.generate p.firstData) >>= fun m => _ : Edit σ K Unit).run.run
      (p, ledger) = _
    rw [Change.run_bind, Change.run_ofAct]
    generalize (r.generate p.firstData).run.run ledger = given at ha ⊢
    obtain ⟨f | m, ledger₁⟩ := given
    · cases ha
      rfl
    · dsimp only at ha ⊢
      by_cases hcount : m.variableCount = 0
      · rw [if_pos hcount] at ha ⊢
        cases ha
        rfl
      · rw [if_neg hcount] at ha ⊢
        cases ha
        rfl

/-- What generation does once the first stage is built. -/
def generateSecond : Edit σ K Unit := do
  let p ← Change.state
  if p.scenarioCount = 0 then
    if p.secondRecipe.isSome then
      Change.update fun p => { p with generatedEpoch := some p.secondEpoch }
  else match p.secondRecipe with
    | none => throw (.undefinedRecipe .second)
    | some r => generateSubproblems r

/-- Generation builds the first stage and then the second. -/
theorem generate_run {p : Program σ K} {r : FirstRecipe σ K} (hr : p.firstRecipe = some r)
    (ledger : Ledger σ K) : (generate : Edit σ K Unit).run.run (p, ledger) =
      (do generateMaster r; generateSecond : Edit σ K Unit).run.run (p, ledger) := by
  unfold generate
  rw [Change.run_state_bind, hr]
  rfl

/-- How the second stage of a program is built. -/
structure Completion (p : Program σ K) (ledger : Ledger σ K) (second : List (Option (Answer K)))
    (r : Except (Fault K) Unit) (p' : Program σ K) (ledger' : Ledger σ K) : Prop where
  /-- The calls are all that is done to the ledger. -/
  calls : p'.CallsSecond p.scenarios second ledger ledger'
  /-- The recipe is called for what is not current. -/
  called : p.secondRecipe.isSome = true →
    second.map (·.isSome) = p.slots.map (!·.isCurrent p.secondEpoch)
  /-- Without a recipe nothing is done. -/
  uncalled : p.secondRecipe = none → second = (p.slots.map fun _ => none) ∧ p' = p ∧
    r = if p.slots.isEmpty then .ok () else .error (.undefinedRecipe .second)
  /-- The slots follow the answers. -/
  slots : p'.slots = List.zipWith (Slot.answered p.secondEpoch) p.slots second
  /-- The failures are reported. -/
  outcome : p.secondRecipe.isSome = true →
    r = if (failed second).isEmpty then .ok () else .error (.generation (failed second))
  /-- Nothing else changes but the note on what was built, -/
  rest : p' = { p with partitions := p'.partitions, generatedEpoch := p'.generatedEpoch }
  /-- which is taken where nothing failed. -/
  noted : p.secondRecipe.isSome = true → r = .ok () → p'.generatedEpoch = some p.secondEpoch

theorem zipWith_answered_none (epoch : Int) (slots : List (Slot K)) :
    List.zipWith (Slot.answered epoch) slots (slots.map fun _ => none) = slots := by
  rw [List.zipWith_map_right, List.zipWith_self]
  exact List.map_id _

theorem generateSecond_completion {p : Program σ K} {d : Decisions} (hd : p.decisions = some d)
    (ledger : Ledger σ K) : ∃ second r p' ledger', p.Completion ledger second r p' ledger' ∧
      (generateSecond : Edit σ K Unit).run.run (p, ledger) = (r, p', ledger') := by
  unfold generateSecond
  rw [Change.run_state_bind]
  have hnone := zipWith_answered_none p.secondEpoch p.slots
  have hspared : p.CallsSecond p.scenarios (p.slots.map fun _ => none) ledger ledger := by
    have h := callsSecond_none p p.scenarios ledger
    rwa [scenarios, List.map_map] at h
  have hempty : p.slots.isEmpty = true ↔ p.scenarioCount = 0 := by
    rw [List.isEmpty_iff, scenarioCount, List.length_eq_zero_iff]
  -- Without a recipe only an empty program is complete; with one even that is noted.
  cases hr : p.secondRecipe with
  | none =>
    refine ⟨_, _, p, ledger, ⟨hspared, by simp [hr], fun _ => ⟨rfl, rfl, rfl⟩, hnone.symm,
      by simp [hr], rfl, by simp [hr]⟩, ?_⟩
    by_cases hcount : p.scenarioCount = 0
    · rw [if_pos hcount, if_pos (hempty.2 hcount)]
      rfl
    · rw [if_neg hcount, if_neg (mt hempty.1 hcount)]
      rfl
  | some r =>
    by_cases hcount : p.scenarioCount = 0
    · have hslots : p.slots = [] := List.isEmpty_iff.1 (hempty.2 hcount)
      rw [if_pos hcount]
      refine ⟨[], .ok (), { p with generatedEpoch := some p.secondEpoch }, ledger, ⟨?_, fun _ => ?_,
        by simp [hr], ?_, fun _ => rfl, rfl, fun _ _ => rfl⟩, rfl⟩
      · rw [scenarios, hslots]
        exact .nil ledger
      · rw [hslots]
        rfl
      · exact hslots.trans List.zipWith_nil_right.symm
    · obtain ⟨answers, partitions, ledger', hcalls, hcalled, hslots, hrun⟩ :=
        generateSubproblems_calls hr hd ledger
      rw [if_neg hcount]
      dsimp only
      rw [hrun]
      split
      · rename_i hnothing
        exact ⟨answers, .ok (), { p with partitions, generatedEpoch := some p.secondEpoch },
          ledger', ⟨hcalls.congr rfl rfl rfl, fun _ => hcalled, by simp [hr], hslots,
            fun _ => (if_pos hnothing).symm, rfl, fun _ _ => rfl⟩, rfl⟩
      · rename_i hfailed
        exact ⟨answers, _, { p with partitions }, ledger', ⟨hcalls.congr rfl rfl rfl,
          fun _ => hcalled, by simp [hr], hslots, fun _ => (if_neg hfailed).symm, rfl,
          fun _ h => by cases h⟩, rfl⟩

end Program

end Recourse
