/-
  Proofs/Program/Generation.lean --- what one generation makes of a program.

  The dates of a program are in order when no subproblem is of a later epoch and when it is
  noted that every one is current as soon as this is so.  From such a program a generation
  calls the recipes for what is missing or stale and for nothing else, keeps what they give
  and reports what fails (`Dated.generation`).  Where the first stage comes with other
  decisions every subproblem becomes stale before any is built.
-/
import Recourse.Proofs.Program.Calls

set_option autoImplicit false
set_option linter.unusedSectionVars false

namespace Recourse

variable {σ K : Type} [Scalar K]

namespace Program

/-! ## Dates -/

/-- The epochs in which the slots were built. -/
def stamps (p : Program σ K) : List (Option Int) := p.slots.map (·.stamp)

/-- The dates of a program are in order. -/
structure Dated (p : Program σ K) : Prop where
  /-- The decisions are those of the first-stage model. -/
  handle : p.decisions = p.master.map (·.1.decisions)
  /-- No subproblem was built in an epoch that is still to come. -/
  begun : ∀ e, some e ∈ p.stamps → e ≤ p.secondEpoch
  /-- Where every subproblem is current, this was noted. -/
  noted : p.stamps ≠ [] → (∀ t ∈ p.stamps, t = some p.secondEpoch) →
    p.generatedEpoch = some p.secondEpoch

variable {p p' : Program σ K} {ledger ledger' : Ledger σ K} {first : Option (Answer K)}
  {second : List (Option (Answer K))} {r : Except (Fault K) Unit}

/-- Dates stay in order where models stay in their slots. -/
theorem Dated.of_stamps (h : p.Dated) (hhandle : p'.decisions = p'.master.map (·.1.decisions))
    (hstamps : p'.stamps = p.stamps) (hepoch : p'.secondEpoch = p.secondEpoch)
    (hnote : p'.generatedEpoch = p.generatedEpoch) : p'.Dated := by
  refine ⟨hhandle, ?_, ?_⟩
  · rw [hstamps, hepoch]
    exact h.begun
  · rw [hstamps, hepoch, hnote]
    exact h.noted

/-- In a later epoch nothing is current. -/
theorem Dated.isCurrent_eq_false (h : p.Dated) {s : Slot K} (hs : s ∈ p.slots) {e : Int}
    (he : p.secondEpoch < e) : s.isCurrent e = false := by
  rw [Bool.eq_false_iff]
  intro hcurrent
  have hbegun := h.begun e (List.mem_map.2 ⟨s, hs, Slot.isCurrent_iff.1 hcurrent⟩)
  exact absurd he (not_lt.2 hbegun)

/-- A new epoch leaves the dates in order. -/
theorem Dated.of_lt (h : p.Dated) (hhandle : p'.decisions = p'.master.map (·.1.decisions))
    (hstamps : p'.stamps = p.stamps) (hepoch : p.secondEpoch < p'.secondEpoch) : p'.Dated := by
  have hbegun : ∀ e, some e ∈ p'.stamps → e < p'.secondEpoch := fun e he =>
    (h.begun e (hstamps ▸ he)).trans_lt hepoch
  refine ⟨hhandle, fun e he => (hbegun e he).le, fun hne hall => ?_⟩
  obtain ⟨t, ht⟩ := List.exists_mem_of_ne_nil _ hne
  exact absurd (hbegun p'.secondEpoch (hall t ht ▸ ht)) (lt_irrefl _)

/-- The answer for the first stage brings other decisions. -/
def Renames (p : Program σ K) (first : Option (Answer K)) : Prop :=
  ∃ m₀ e m, p.master = some (m₀, e) ∧ first = some (.ok m) ∧ m.decisions ≠ m₀.decisions

theorem Dated.renames_iff (h : p.Dated) {m : Model K} :
    p.Renames (some (.ok m)) ↔ (p.decisions.isSome && p.decisions ≠ some m.decisions) = true := by
  unfold Renames
  rw [h.handle]
  cases p.master with
  | none => simp
  | some built =>
    obtain ⟨m₀, e⟩ := built
    simp only [Option.some.injEq, Prod.mk.injEq, Except.ok.injEq, Option.map_some,
      Option.isSome_some, Bool.true_and, ne_eq, decide_not, Bool.not_eq_true',
      decide_eq_false_iff_not]
    constructor
    · rintro ⟨_, _, _, ⟨rfl, rfl⟩, rfl, hne⟩
      exact fun h => hne h.symm
    · intro hne
      exact ⟨m₀, e, m, ⟨rfl, rfl⟩, rfl, fun h => hne h.symm⟩

/-- The second stage enters a new epoch just where the decisions change. -/
theorem Dated.secondEpoch_taking_of_renames (h : p.Dated) (hrenames : p.Renames first) :
    (p.taking first).secondEpoch = p.secondEpoch + 1 := by
  have hgiven := hrenames
  obtain ⟨-, -, m, -, rfl, -⟩ := hgiven
  exact if_pos (h.renames_iff.1 hrenames)

theorem Dated.secondEpoch_taking_of_not_renames (h : p.Dated) (hrenames : ¬ p.Renames first) :
    (p.taking first).secondEpoch = p.secondEpoch := by
  rcases first with _ | _ | m
  · rfl
  · rfl
  · exact if_neg (mt h.renames_iff.2 hrenames)

/-- Building the first stage leaves the dates in order. -/
theorem Dated.taking (h : p.Dated) (first : Option (Answer K)) : (p.taking first).Dated := by
  have hhandle : (p.taking first).decisions = (p.taking first).master.map (·.1.decisions) := by
    rcases first with _ | _ | m
    · exact h.handle
    · exact h.handle
    · rfl
  have hstamps : (p.taking first).stamps = p.stamps := by
    rcases first with _ | _ | m <;> rfl
  have hnote : (p.taking first).generatedEpoch = p.generatedEpoch := by
    rcases first with _ | _ | m <;> rfl
  by_cases hrenames : p.Renames first
  · refine h.of_lt hhandle hstamps ?_
    rw [h.secondEpoch_taking_of_renames hrenames]
    exact lt_add_one _
  · exact h.of_stamps hhandle hstamps (h.secondEpoch_taking_of_not_renames hrenames) hnote

/-- The slots that are current afterwards are those whose call did not fail. -/
theorem map_isCurrent_answered {epoch : Int} {slots : List (Slot K)}
    {answers : List (Option (Answer K))}
    (h : answers.map (·.isSome) = slots.map (!·.isCurrent epoch)) :
    (List.zipWith (Slot.answered epoch) slots answers).map (·.isCurrent epoch) =
      answers.map fun a => (Answer.fault? a).isNone := by
  induction slots generalizing answers with
  | nil =>
    obtain rfl : answers = [] := List.map_eq_nil_iff.1 h
    rfl
  | cons s slots ih =>
    cases answers with
    | nil => cases h
    | cons a answers =>
      rw [List.map_cons, List.map_cons, List.cons.injEq] at h
      rw [List.zipWith_cons_cons, List.map_cons, List.map_cons, ih h.2]
      congr 1
      rcases a with _ | _ | m
      · simpa [Slot.answered, Answer.fault?] using h.1
      · rfl
      · simp [Slot.answered, Slot.isCurrent, Answer.fault?]

theorem failed_eq_nil_iff {answers : List (Option (Answer K))} :
    failed answers = [] ↔ ∀ a ∈ answers, Answer.fault? a = none := by
  unfold failed
  rw [List.filterMap_eq_nil_iff]
  constructor
  · intro h a ha
    obtain ⟨i, hi⟩ := List.mem_iff_getElem?.1 ha
    exact Option.map_eq_none_iff.1 (h (a, i) (List.mk_mem_zipIdx_iff_getElem?.2 hi))
  · intro h a ha
    rw [h a.1 (List.fst_mem_of_mem_zipIdx ha)]
    rfl

/-- Building the second stage leaves the dates in order. -/
theorem Completion.dated (hp : p.Dated) (h : p.Completion ledger second r p' ledger') :
    p'.Dated := by
  cases hr : p.secondRecipe with
  | none =>
    obtain ⟨-, rfl, -⟩ := h.uncalled hr
    exact hp
  | some recipe =>
    have hr : p.secondRecipe.isSome = true := by rw [hr]; rfl
    have hcurrent := map_isCurrent_answered (h.called hr)
    rw [← h.slots] at hcurrent
    have hepoch : p'.secondEpoch = p.secondEpoch := by rw [h.rest]
    refine ⟨?_, ?_, fun _ hall => ?_⟩
    · rw [h.rest]
      exact hp.handle
    · intro e he
      rw [hepoch]
      obtain ⟨s, hs, hstamp⟩ := List.mem_map.1 he
      rw [h.slots] at hs
      obtain ⟨i, hi⟩ := List.mem_iff_getElem?.1 hs
      obtain ⟨s₀, a, hs₀, -, rfl⟩ := List.getElem?_zipWith_eq_some.1 hi
      refine Slot.stamp_answered_le (fun e he => hp.begun e ?_) hstamp
      exact List.mem_map.2 ⟨s₀, List.mem_of_getElem? hs₀, he⟩
    · rw [hepoch]
      refine h.noted hr ?_
      rw [h.outcome hr, if_pos]
      rw [List.isEmpty_iff, failed_eq_nil_iff]
      intro a ha
      have hmem : (Answer.fault? a).isNone ∈ p'.slots.map (·.isCurrent p.secondEpoch) :=
        hcurrent ▸ List.mem_map.2 ⟨a, ha, rfl⟩
      obtain ⟨s, hs, hnone⟩ := List.mem_map.1 hmem
      rw [Slot.isCurrent_iff.2 (hepoch ▸ hall _ (List.mem_map.2 ⟨s, hs, rfl⟩))] at hnone
      exact Option.isNone_iff_eq_none.1 hnone.symm

/-! ## One generation -/

/-- Nothing was called, so nothing was done. -/
theorem CallsSecond.eq_of_none {scenarios : List (Scenario K)}
    (h : p.CallsSecond scenarios second ledger ledger') (hnone : ∀ a ∈ second, a = none) :
    ledger' = ledger := by
  induction h with
  | nil => rfl
  | spared _ ih => exact ih fun a ha => hnone a (List.mem_cons_of_mem _ ha)
  | called => cases hnone _ List.mem_cons_self

/-- No scenario was called for. -/
theorem eq_spared {slots : List (Slot K)}
    (h : second.map (·.isSome) = slots.map fun _ => false) : second = slots.map fun _ => none := by
  rw [List.map_const', List.eq_replicate_iff]
  refine ⟨by simpa using congrArg List.length h, fun a ha => ?_⟩
  have hmem : a.isSome ∈ slots.map fun _ => false := h ▸ List.mem_map.2 ⟨a, ha, rfl⟩
  obtain ⟨-, -, hsome⟩ := List.mem_map.1 hmem
  exact Option.not_isSome_iff_eq_none.1 (by simp [← hsome])

/-- A program that is built, with a note that it is, is not deferred. -/
theorem IsBuilt.isDeferred_eq_false_of_noted (h : p.IsBuilt)
    (hnoted : p.generatedEpoch = some p.secondEpoch) : p.isDeferred = false := by
  rcases Nat.eq_zero_or_pos p.scenarioCount with hcount | hcount
  · obtain ⟨r, hr⟩ := h.firstRecipe
    obtain ⟨r', hr'⟩ := h.secondRecipe
    obtain ⟨m, hm⟩ := h.master
    have hslots : p.slots = [] := List.eq_nil_of_length_eq_zero hcount
    simp [isDeferred, firstState, secondState, hr, hr', hm, hslots, hnoted]
  · exact h.isDeferred_eq_false hcount

/-- A program that is not deferred has the note that it is built. -/
theorem Dated.noted_of_not_isDeferred (hp : p.Dated) (h : p.isDeferred = false) :
    p.generatedEpoch = some p.secondEpoch := by
  by_cases hslots : p.slots = []
  · simp only [isDeferred, Bool.not_eq_false', Bool.and_eq_true, beq_iff_eq] at h
    by_contra hnote
    have hsecond := h.2
    obtain ⟨r, hr⟩ := exists_secondRecipe_of_not_isDeferred (p := p) (by simp [isDeferred, h])
    simp [secondState, hr, hslots, scenarioCount, hnote] at hsecond
    split at hsecond <;> cases hsecond
  · refine hp.noted (mt List.map_eq_nil_iff.1 hslots) fun t ht => ?_
    obtain ⟨s, hs, rfl⟩ := List.mem_map.1 ht
    exact Slot.isCurrent_iff.1 (isCurrent_of_not_isDeferred h s hs)

/-- One generation: which recipes are called, and what becomes of the program. -/
structure Generation (p : Program σ K) (ledger : Ledger σ K) (first : Option (Answer K))
    (second : List (Option (Answer K))) (r : Except (Fault K) Unit) (p' : Program σ K)
    (ledger' : Ledger σ K) : Prop where
  /-- The calls are all that is done to the ledger, that for the first stage before those for
  the scenarios. -/
  calls : ∃ ledger₁, p.CallsFirst first ledger ledger₁ ∧
    p'.CallsSecond p.scenarios second ledger₁ ledger'
  /-- The recipe of the first stage is called just where its model is missing or stale. -/
  first_called : p.firstRecipe.isSome = true → (first.isSome = true ↔ p.currentMaster? = none)
  /-- Without that recipe nothing is done. -/
  first_undefined : p.firstRecipe = none → first = none ∧ second = (p.slots.map fun _ => none) ∧
    r = .error (.undefinedRecipe .first) ∧ p' = p
  /-- Where it fails nothing changes, and it is all that was called. -/
  first_failed : ∀ f, first = some (.error f) →
    second = (p.slots.map fun _ => none) ∧ r = .error f ∧ p' = p
  /-- The model it gives is current. -/
  first_kept : ∀ m, first = some (.ok m) → p'.master = some (m, p.firstEpoch)
  /-- A first-stage model that is current stays. -/
  first_spared : first = none → p'.master = p.master
  /-- The recipe of the second stage is called just for the scenarios whose subproblem is missing
  or stale, -/
  second_called : p.hasRecipes = true → Succeeds first → ¬ p.Renames first →
    second.map (·.isSome) = p.slots.map (!·.isCurrent p.secondEpoch)
  /-- and for all of them where the decisions change. -/
  second_renamed : p.hasRecipes = true → p.Renames first →
    second.map (·.isSome) = p.slots.map fun _ => true
  /-- Without that recipe it is called for none. -/
  second_undefined : p.firstRecipe.isSome = true → p.secondRecipe = none → Succeeds first →
    second = (p.slots.map fun _ => none) ∧
      r = if p.slots.isEmpty then .ok () else .error (.undefinedRecipe .second)
  /-- The second stage enters a new epoch where the decisions change, -/
  epoch_renamed : p.Renames first → p'.secondEpoch = p.secondEpoch + 1
  /-- and stays in its epoch otherwise. -/
  epoch_kept : ¬ p.Renames first → p'.secondEpoch = p.secondEpoch
  /-- A model that was given is in its slot and current, a slot whose call failed is empty, and
  the others are as they were. -/
  slots : p'.slots = List.zipWith (Slot.answered p'.secondEpoch) p.slots second
  /-- What is reported are the calls that failed, by index and with their faults. -/
  outcome : p.hasRecipes = true → Succeeds first →
    r = if (failed second).isEmpty then .ok () else .error (.generation (failed second))
  /-- Nothing else changes. -/
  rest : p' = { p with
    master := p'.master, decisions := p'.decisions, secondEpoch := p'.secondEpoch
    generatedEpoch := p'.generatedEpoch, partitions := p'.partitions }
  /-- With both recipes, everything is built unless the generation is refused. -/
  complete : p.hasRecipes = true → r = .ok () → p'.isDeferred = false
  /-- Where everything is built, no recipe is called and nothing changes. -/
  idle : p.isDeferred = false → first = none ∧ second = (p.slots.map fun _ => none) ∧
    r = .ok () ∧ p' = p ∧ ledger' = ledger

/-- After the first stage there is a model that is current, unless the call for it failed. -/
theorem exists_master_taking (hsucceeds : Succeeds first)
    (hcalled : first.isSome = true ↔ p.currentMaster? = none) :
    ∃ m, (p.taking first).master = some (m, p.firstEpoch) := by
  rcases first with _ | f | m
  · obtain ⟨m, hm⟩ := Option.ne_none_iff_exists'.1 (mt hcalled.2 (by simp))
    exact ⟨m, currentMaster?_eq_some.1 hm⟩
  · cases hsucceeds
  · exact ⟨m, rfl⟩

/-- Without a report of failures every subproblem is current. -/
theorem Completion.allCurrent (h : p.Completion ledger second r p' ledger')
    (hr : p.secondRecipe.isSome = true) (hok : r = .ok ()) : p'.AllCurrent := by
  have hnothing : failed second = [] := by
    have hout := h.outcome hr
    rw [hok] at hout
    by_contra hne
    rw [if_neg (mt List.isEmpty_iff.1 hne)] at hout
    cases hout
  have hcurrent := map_isCurrent_answered (h.called hr)
  rw [← h.slots] at hcurrent
  have hepoch : p'.secondEpoch = p.secondEpoch := by rw [h.rest]
  intro s hs
  rw [hepoch]
  have hmem : s.isCurrent p.secondEpoch ∈ second.map fun a => (Answer.fault? a).isNone :=
    hcurrent ▸ List.mem_map.2 ⟨s, hs, rfl⟩
  obtain ⟨a, ha, hsame⟩ := List.mem_map.1 hmem
  rw [← hsame, failed_eq_nil_iff.1 hnothing a ha]
  rfl

/-- With both stages built without a refusal nothing is deferred. -/
theorem Completion.isDeferred_eq_false {ledger₁ : Ledger σ K}
    (h : (p.taking first).Completion ledger₁ second r p' ledger')
    (hr : p.firstRecipe.isSome = true) (hcalled : first.isSome = true ↔ p.currentMaster? = none)
    (hsucceeds : Succeeds first) (hsecond : (p.taking first).secondRecipe.isSome = true)
    (hok : r = .ok ()) : p'.isDeferred = false := by
  have hcurrent := h.allCurrent hsecond hok
  obtain ⟨m, hm⟩ := exists_master_taking hsucceeds hcalled
  refine IsBuilt.isDeferred_eq_false_of_noted ⟨?_, ?_, ⟨m, ?_⟩,
    fun s hs => exists_built_of_isCurrent (hcurrent s hs)⟩ ?_
  · rw [h.rest]
    exact Option.isSome_iff_exists.1 (firstRecipe_taking p first ▸ hr)
  · rw [h.rest]
    exact Option.isSome_iff_exists.1 hsecond
  · rw [h.rest]
    exact hm.trans (firstEpoch_taking p first ▸ rfl)
  · rw [h.noted hsecond hok, h.rest]

/-- The second stage of a program that is built calls for nothing. -/
theorem Completion.idle (h : p.Completion ledger second r p' ledger')
    (hdeferred : p.isDeferred = false) :
    second = (p.slots.map fun _ => none) ∧ r = .ok () ∧ ledger' = ledger := by
  have hsecond : p.secondRecipe.isSome = true :=
    Option.isSome_iff_exists.2 (exists_secondRecipe_of_not_isDeferred hdeferred)
  have hspared : second = p.slots.map fun _ => none := by
    refine eq_spared (h.called hsecond |>.trans (List.map_congr_left fun s hs => ?_))
    rw [Bool.not_eq_false']
    exact isCurrent_of_not_isDeferred hdeferred s hs
  have hnone : ∀ a ∈ second, a = none := by
    rw [hspared]
    exact List.forall_mem_map.2 fun _ _ => rfl
  have hnothing : failed second = [] := failed_eq_nil_iff.2 fun a ha => by
    rw [hnone a ha]
    rfl
  refine ⟨hspared, ?_, h.calls.eq_of_none hnone⟩
  rw [h.outcome hsecond, hnothing]
  rfl

/-- What a first stage that was built and a second stage that was completed make of a program. -/
theorem Completion.generation (hp : p.Dated) {ledger₁ : Ledger σ K}
    (hr : p.firstRecipe.isSome = true) (hfirst : p.CallsFirst first ledger ledger₁)
    (hcalled : first.isSome = true ↔ p.currentMaster? = none) (hsucceeds : Succeeds first)
    (h : (p.taking first).Completion ledger₁ second r p' ledger')
    (hidle : p.isDeferred = false → p' = p) : p.Generation ledger first second r p' ledger' where
  calls := ⟨ledger₁, hfirst, scenarios_taking p first ▸ h.calls⟩
  first_called _ := hcalled
  first_undefined hnone := by
    rw [hnone] at hr
    cases hr
  first_failed f hf := by
    rw [hf] at hsucceeds
    cases hsucceeds
  first_kept m hm := by
    rw [h.rest, hm]
    rfl
  first_spared hnone := by
    rw [h.rest, hnone]
    rfl
  second_called hrecipes _ hrenames := by
    rw [← hp.secondEpoch_taking_of_not_renames hrenames, ← slots_taking p first]
    exact h.called (secondRecipe_taking p first ▸ (Bool.and_eq_true_iff.1 hrecipes).2)
  -- Placeholders that are renamed move the epoch on, and with it no subproblem is current.
  second_renamed hrecipes hrenames := by
    have hsecond := h.called (secondRecipe_taking p first ▸ (Bool.and_eq_true_iff.1 hrecipes).2)
    rw [hsecond, slots_taking, hp.secondEpoch_taking_of_renames hrenames]
    refine List.map_congr_left fun s hs => ?_
    rw [hp.isCurrent_eq_false hs (lt_add_one _)]
    rfl
  epoch_renamed hrenames := by
    rw [h.rest, ← hp.secondEpoch_taking_of_renames hrenames]
  epoch_kept hrenames := by
    rw [h.rest, ← hp.secondEpoch_taking_of_not_renames hrenames]
  second_undefined _ hnone _ := by
    obtain ⟨hsecond, -, hout⟩ := h.uncalled ((secondRecipe_taking p first).trans hnone)
    rw [slots_taking] at hsecond hout
    exact ⟨hsecond, hout⟩
  slots := by
    have hepoch : p'.secondEpoch = (p.taking first).secondEpoch := by rw [h.rest]
    rw [hepoch, h.slots, slots_taking]
  outcome hrecipes _ :=
    h.outcome (secondRecipe_taking p first ▸ (Bool.and_eq_true_iff.1 hrecipes).2)
  rest := by
    rw [h.rest]
    rcases first with _ | _ | m <;> rfl
  complete hrecipes hok := h.isDeferred_eq_false hr hcalled hsucceeds
    (secondRecipe_taking p first ▸ (Bool.and_eq_true_iff.1 hrecipes).2) hok
  idle hdeferred := by
    obtain ⟨m, hm⟩ := currentMaster?_of_not_isDeferred hdeferred
    obtain rfl : first = none := by
      rw [← Option.not_isSome_iff_eq_none, hcalled, hm]
      exact Option.some_ne_none m
    obtain ⟨hspared, hout, hsame⟩ := Completion.idle h hdeferred
    refine ⟨rfl, hspared, hout, hidle hdeferred, ?_⟩
    cases hfirst
    exact hsame

/-- What a first stage that was refused makes of a program. -/
theorem generation_refused {f : Fault K} (hfirst : p.CallsFirst first ledger ledger')
    (h : p.firstRecipe = none ∧ first = none ∧ f = .undefinedRecipe .first ∨
      p.firstRecipe.isSome = true ∧ p.currentMaster? = none ∧ first = some (.error f)) :
    p.Generation ledger first (p.slots.map fun _ => none) (.error f) p ledger' := by
  -- The first stage got no model, so nothing is renamed and the second stage is not reached.
  have hgiven : ∀ m, first ≠ some (.ok m) := by
    rintro m rfl
    rcases h with ⟨-, hm, -⟩ | ⟨-, -, hm⟩ <;> cases hm
  have hkept : ¬ p.Renames first := by
    rintro ⟨-, -, m, -, hm, -⟩
    exact hgiven m hm
  have hfails : p.firstRecipe.isSome = true → ¬ Succeeds first := by
    intro hr hsucceeds
    rcases h with ⟨hnone, -⟩ | ⟨-, -, rfl⟩
    · simp [hnone] at hr
    · cases hsucceeds
  have hfirstRecipe : p.hasRecipes = true → p.firstRecipe.isSome = true := fun hrecipes =>
    (Bool.and_eq_true_iff.1 hrecipes).1
  have hspared := callsSecond_none p p.scenarios ledger'
  rw [scenarios, List.map_map] at hspared
  exact {
    calls := ⟨ledger', hfirst, hspared⟩
    first_called := by
      intro hr
      rcases h with ⟨hnone, -⟩ | ⟨-, hcurrent, rfl⟩
      · simp [hnone] at hr
      · simp [hcurrent]
    first_undefined := by
      intro hnone
      rcases h with ⟨-, rfl, rfl⟩ | ⟨hr, -⟩
      · exact ⟨rfl, rfl, rfl, rfl⟩
      · simp [hnone] at hr
    first_failed := by
      rintro f' rfl
      rcases h with ⟨-, hf, -⟩ | ⟨-, -, hf⟩
      · cases hf
      · cases hf
        exact ⟨rfl, rfl, rfl⟩
    first_kept := fun m hm => absurd hm (hgiven m)
    first_spared := fun _ => rfl
    second_called := fun hrecipes hsucceeds _ =>
      absurd hsucceeds (hfails (hfirstRecipe hrecipes))
    second_renamed := fun _ hrenames => absurd hrenames hkept
    epoch_renamed := fun hrenames => absurd hrenames hkept
    epoch_kept := fun _ => rfl
    second_undefined := fun hr _ hsucceeds => absurd hsucceeds (hfails hr)
    slots := (zipWith_answered_none _ _).symm
    outcome := fun hrecipes hsucceeds => absurd hsucceeds (hfails (hfirstRecipe hrecipes))
    rest := rfl
    complete := fun _ hok => by cases hok
    idle := by
      intro hdeferred
      obtain ⟨recipe, hr⟩ := exists_firstRecipe_of_not_isDeferred hdeferred
      obtain ⟨m, hm⟩ := currentMaster?_of_not_isDeferred hdeferred
      rcases h with ⟨hnone, -⟩ | ⟨-, hcurrent, -⟩
      · cases hr.symm.trans hnone
      · cases hm.symm.trans hcurrent }

/-- However recipes answer, a generation is one of these. -/
theorem Dated.generation (hp : p.Dated) (ledger : Ledger σ K) :
    ∃ first second r p' ledger', (generate : Edit σ K Unit).run.run (p, ledger) = (r, p', ledger') ∧
      p.Generation ledger first second r p' ledger' ∧ p'.Dated := by
  cases hr : p.firstRecipe with
  | none =>
    refine ⟨none, _, _, p, ledger, ?_, generation_refused (.spared ledger)
      (Or.inl ⟨hr, rfl, rfl⟩), hp⟩
    unfold generate
    rw [Change.run_state_bind, hr]
    rfl
  | some recipe =>
    have hsome : p.firstRecipe.isSome = true := by rw [hr]; rfl
    obtain ⟨first, ledger₁, hfirst, hcalled, hrun⟩ := generateMaster_calls hr ledger
    rw [generate_run hr, Change.run_bind, hrun]
    cases hfault : Answer.fault? first with
    | some f =>
      obtain rfl : first = some (.error f) := Answer.fault?_eq_some.1 hfault
      exact ⟨_, _, _, p, ledger₁, rfl, generation_refused hfirst
        (Or.inr ⟨hsome, hcalled.1 rfl, rfl⟩), hp⟩
    | none =>
      obtain ⟨m, hm⟩ := exists_master_taking hfault hcalled
      have hd : (p.taking first).decisions = some m.decisions := by
        rw [(hp.taking first).handle, hm]
        rfl
      obtain ⟨second, r, p', ledger', hcompletion, hsecond⟩ :=
        generateSecond_completion hd ledger₁
      refine ⟨first, second, r, p', ledger', hsecond, ?_, hcompletion.dated (hp.taking first)⟩
      refine hcompletion.generation hp hsome hfirst hcalled hfault fun hdeferred => ?_
      -- Generation leaves what is built, and the note was there before.
      have hmarks := generate_ensures hdeferred ledger
      rw [generate_run hr, Change.run_bind, hrun, hfault] at hmarks
      dsimp only at hmarks
      rw [hsecond] at hmarks
      cases r with
      | error f => exact hmarks.elim
      | ok _ =>
        refine hmarks.trans ?_
        rw [← hp.noted_of_not_isDeferred hdeferred]

end Program

end Recourse
