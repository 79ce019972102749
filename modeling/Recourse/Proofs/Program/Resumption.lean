/-
  Proofs/Program/Resumption.lean --- generation is exact, idempotent and resumable.

  Whatever is done to a program, with whatever recipes and scenarios, refused or not, leaves
  its dates in order (`Attainable.dated`).  So in every state that a program gets to, a
  generation calls recipes for what is missing or stale only, and one that was stopped by
  failures is resumed where they were (`Attainable.generate_exact`).
-/
import Recourse.Proofs.Program.Generation
import Recourse.Proofs.Program.Lasting

set_option autoImplicit false
set_option linter.unusedSectionVars false

namespace Recourse

variable {σ K α β : Type} [Scalar K] [Host σ K]

namespace Program

/-! ## Changes that keep the dates in order -/

theorem setData_sustains_dated (stage : Stage) (value : Value K) :
    Sustains Dated (setData stage value : Edit σ K Unit) := by
  refine .update fun p hp => ?_
  cases stage with
  | first => exact hp.of_stamps hp.handle rfl rfl rfl
  | second => exact hp.of_lt hp.handle rfl (lt_add_one _)

theorem setRecipe_sustains_dated (r : Recipe σ K) : Sustains Dated (setRecipe r) := by
  refine .update fun p hp => ?_
  cases r with
  | first r => exact hp.of_stamps hp.handle rfl rfl rfl
  | second r => exact hp.of_lt hp.handle rfl (lt_add_one _)

theorem generate_sustains_dated : Sustains Dated (generate : Edit σ K Unit) := by
  intro p hp ledger
  obtain ⟨first, second, r, p', ledger', hrun, -, hp'⟩ := hp.generation ledger
  rw [hrun]
  cases r with
  | ok _ => exact hp'
  | error f => exact hp'

/-- New scenarios leave the dates in order, as nothing is built for them. -/
theorem Dated.extended {p : Program σ K} (h : p.Dated) {schema : Option Schema}
    {scenarios : List (Scenario K)} {partitions : List (Partition K)}
    (hslots : Extends p.slots (partitions.flatMap (·.slots)) scenarios) :
    Dated { p with schema, partitions } := by
  have hnew : ∀ s ∈ partitions.flatMap (·.slots), s.stamp ≠ none → s ∈ p.slots := by
    intro s hs hstamp
    rcases hslots.origin s hs with hold | hfresh
    · exact hold
    · obtain ⟨c, -, rfl⟩ := List.mem_map.1 hfresh
      exact absurd rfl hstamp
  refine ⟨h.handle, ?_, ?_⟩
  · intro e he
    obtain ⟨s, hs, hstamp⟩ := List.mem_map.1 he
    exact h.begun e (List.mem_map.2 ⟨s, hnew s hs (by simp [hstamp]), hstamp⟩)
  · intro hne hall
    obtain ⟨t, ht⟩ := List.exists_mem_of_ne_nil _ hne
    obtain ⟨s, hs, hstamp⟩ := List.mem_map.1 ht
    have hold := hnew s hs (by simp [hstamp, hall t ht])
    refine h.noted (List.ne_nil_of_mem (List.mem_map.2 ⟨s, hold, rfl⟩)) fun t ht => ?_
    obtain ⟨s, hs, rfl⟩ := List.mem_map.1 ht
    exact hall _ (List.mem_map.2 ⟨s, hslots.sublist.subset hs, rfl⟩)

/-- Other weights leave the dates in order. -/
theorem Reweighed.dated {p p' : Program σ K} (h : p.Reweighed p') (hp : p.Dated) : p'.Dated := by
  have hstamps : p'.stamps = p.stamps := by
    have hbuilt := congrArg (List.map (Option.map (·.2))) h.built
    rwa [List.map_map, List.map_map] at hbuilt
  refine hp.of_stamps ?_ hstamps ?_ ?_
  · rw [h.rest]
    exact hp.handle
  · rw [h.rest]
  · rw [h.rest]

theorem SlotLoaded.stamp_eq {s s' : Slot K} (h : SlotLoaded s s') : s'.stamp = s.stamp := by
  cases h with
  | kept => rfl
  | loaded r =>
    unfold Slot.stamp
    cases s.built <;> rfl

/-- Loading results leaves the dates in order. -/
theorem Dated.install {p : Program σ K} (hp : p.Dated) (solution : Solution K)
    (results : List (SolveResult K)) (master : Option (SolveResult K)) :
    (p.install solution results master).Dated := by
  have hstamps : (p.install solution results master).stamps = p.stamps := by
    have hloaded := forall₂_loadPartitions p.partitions results
    exact eq_map_of_forall₂ (List.forall₂_map_right_iff.2
      (hloaded.imp fun _ _ h => h.stamp_eq))
  refine hp.of_stamps ?_ hstamps rfl rfl
  cases master with
  | none => exact hp.handle
  | some r =>
    show p.decisions = (p.master.map _).map _
    rw [hp.handle, Option.map_map]
    rfl

theorem create_dated (s : Setup σ K) : (create s).Ensures Dated fun _ => True := by
  refine (create_empty s).mono (fun p ⟨hslots, hmaster, hdecisions⟩ => ?_) fun _ h => h
  have hstamps : p.stamps = [] := by rw [stamps, hslots, List.map_nil]
  refine ⟨by rw [hdecisions, hmaster]; rfl, fun e he => ?_, fun hne => absurd hstamps hne⟩
  rw [hstamps] at he
  cases he

/-- The dates stay in order through whatever is done to a program. -/
theorem dated_lasting : Lasting (Dated : Program σ K → Prop) where
  created := create_dated
  data := setData_sustains_dated
  recipe := setRecipe_sustains_dated
  generated := generate_sustains_dated
  extended hp _ _ _ _ _ hslots := hp.extended hslots
  rescaled factor := .of_ensures (rescale_reweighs factor) (fun _ _ _ hp h => h.dated hp)
    fun _ _ _ hp h => h.dated hp
  regrouped hp _ h := hp.of_stamps hp.handle (congrArg (List.map Slot.stamp) h) rfl rfl
  installed hp := hp.install
  configured hp _ _ _ := hp.of_stamps hp.handle rfl rfl rfl

theorem Attainable.dated {p : Program σ K} (h : Attainable p) : p.Dated :=
  dated_lasting.attainable h

/-! ## Generation in every state -/

variable {p p' : Program σ K} {ledger ledger' : Ledger σ K} {first : Option (Answer K)}
  {second : List (Option (Answer K))} {r : Except (Fault K) Unit}

/-- A generation that was run is the one that there is. -/
theorem Dated.generation_of_run (hp : p.Dated)
    (hrun : ((generate : Edit σ K Unit).runOn p).run ledger = ((r, p'), ledger')) :
    ∃ first second, p.Generation ledger first second r p' ledger' ∧ p'.Dated := by
  obtain ⟨first, second, r₁, p₁, ledger₁, hrun₁, hgeneration, hp₁⟩ := hp.generation ledger
  rw [Change.runOn_run, hrun₁] at hrun
  cases hrun
  exact ⟨first, second, hgeneration, hp₁⟩

namespace Generation

/-- The first stage is current afterwards, unless the call for it failed. -/
theorem currentMaster?_ne_none (h : p.Generation ledger first second r p' ledger')
    (hr : p.firstRecipe.isSome = true) (hsucceeds : Succeeds first) : p'.currentMaster? ≠ none := by
  have hepoch : p'.firstEpoch = p.firstEpoch := by rw [h.rest]
  have hcurrent : ∃ m, p'.master = some (m, p.firstEpoch) := by
    rcases first with _ | f | m
    · obtain ⟨m, hm⟩ := Option.ne_none_iff_exists'.1 (mt (h.first_called hr).2 (by simp))
      exact ⟨m, (h.first_spared rfl).trans (currentMaster?_eq_some.1 hm)⟩
    · cases hsucceeds
    · exact ⟨m, h.first_kept m rfl⟩
  obtain ⟨m, hm⟩ := hcurrent
  rw [currentMaster?_eq_some.2 (hepoch ▸ hm)]
  exact Option.some_ne_none m

/-- What the recipe of the second stage is called for is what is not current in the epoch there
is then. -/
theorem second_called_then (h : p.Generation ledger first second r p' ledger') (hp : p.Dated)
    (hrecipes : p.hasRecipes = true) (hsucceeds : Succeeds first) :
    second.map (·.isSome) = p.slots.map (!·.isCurrent p'.secondEpoch) := by
  by_cases hrenames : p.Renames first
  · rw [h.second_renamed hrecipes hrenames, h.epoch_renamed hrenames]
    refine List.map_congr_left fun s hs => ?_
    rw [hp.isCurrent_eq_false hs (lt_add_one _)]
    rfl
  · rw [h.second_called hrecipes hsucceeds hrenames, h.epoch_kept hrenames]

/-- What is pending afterwards is what failed. -/
theorem pending_iff_failed (h : p.Generation ledger first second r p' ledger') (hp : p.Dated)
    (hrecipes : p.hasRecipes = true) (hsucceeds : Succeeds first) :
    p'.slots.map (!·.isCurrent p'.secondEpoch) = second.map fun a => (Answer.fault? a).isSome := by
  have hcurrent := map_isCurrent_answered (h.second_called_then hp hrecipes hsucceeds)
  rw [← h.slots] at hcurrent
  have hpending := congrArg (List.map (!·)) hcurrent
  rw [List.map_map, List.map_map] at hpending
  refine hpending.trans (List.map_congr_left fun a _ => ?_)
  rcases a with _ | _ | m <;> rfl

end Generation

/-- Calls for what failed, index by index. -/
theorem called_iff_failed {second₂ : List (Option (Answer K))}
    (h : second₂.map (·.isSome) = second.map fun a => (Answer.fault? a).isSome) (i : Nat) :
    (∃ a, second₂[i]? = some (some a)) ↔ ∃ f, ((i : Int), f) ∈ failed second := by
  have hi : (second₂[i]?).map (·.isSome) = (second[i]?).map fun a => (Answer.fault? a).isSome := by
    simpa only [List.getElem?_map] using congrArg (·[i]?) h
  constructor
  · rintro ⟨a, ha⟩
    rw [ha] at hi
    obtain ⟨b, hb, hsome⟩ := Option.map_eq_some_iff.1 hi.symm
    obtain ⟨f, hf⟩ := Option.isSome_iff_exists.1 hsome
    exact ⟨f, mem_failed.2 (hb.trans (congrArg some (Answer.fault?_eq_some.1 hf)))⟩
  · rintro ⟨f, hf⟩
    rw [mem_failed.1 hf] at hi
    obtain ⟨b, hb, hsome⟩ := Option.map_eq_some_iff.1 hi
    obtain ⟨a, rfl⟩ := Option.isSome_iff_exists.1 hsome
    exact ⟨a, hb⟩

/-- After a generation the next one calls the recipe of the second stage for what failed and for
nothing else, and no other recipe. -/
def Resumes (p' : Program σ K) (second : List (Option (Answer K))) : Prop :=
  ∀ (later later' : Ledger σ K) (r₂ : Except (Fault K) Unit) (p₂ : Program σ K),
    ((generate : Edit σ K Unit).runOn p').run later = ((r₂, p₂), later') →
      ∃ second₂, p'.Generation later none second₂ r₂ p₂ later' ∧
        ∀ i : Nat, (∃ a, second₂[i]? = some (some a)) ↔ ∃ f, ((i : Int), f) ∈ failed second

/-- In every state a program gets to, a generation calls the recipe of the first stage where its
model is missing or stale, and then that of the second stage once for every scenario whose
subproblem is, and nothing else; it keeps what it is given and reports what failed.  The next one
calls only for what failed, and where everything is built it calls nothing. -/
theorem Attainable.generate_exact (h : p.Attainable)
    (hrun : ((generate : Edit σ K Unit).runOn p).run ledger = ((r, p'), ledger')) :
    ∃ first second, p.Generation ledger first second r p' ledger' ∧
      (p.hasRecipes = true → Succeeds first → p'.Resumes second) := by
  obtain ⟨first, second, hgeneration, hp'⟩ := h.dated.generation_of_run hrun
  refine ⟨first, second, hgeneration, fun hrecipes hsucceeds later later' r₂ p₂ hrun₂ => ?_⟩
  obtain ⟨first₂, second₂, hgeneration₂, -⟩ := hp'.generation_of_run hrun₂
  have hrecipe : p.firstRecipe.isSome = true := (Bool.and_eq_true_iff.1 hrecipes).1
  have hrecipe' : p'.firstRecipe.isSome = true := by rw [hgeneration.rest]; exact hrecipe
  have hrecipes' : p'.hasRecipes = true := by rw [hgeneration.rest]; exact hrecipes
  obtain rfl : first₂ = none := by
    rw [← Option.not_isSome_iff_eq_none, hgeneration₂.first_called hrecipe']
    exact hgeneration.currentMaster?_ne_none hrecipe hsucceeds
  refine ⟨second₂, hgeneration₂, fun i => ?_⟩
  have hcalled := hgeneration₂.second_called_then hp' hrecipes' rfl
  have hkept : ¬ p'.Renames none := by
    rintro ⟨_, _, _, -, hm, -⟩
    cases hm
  rw [hgeneration₂.epoch_kept hkept, hgeneration.pending_iff_failed h.dated hrecipes hsucceeds]
    at hcalled
  exact called_iff_failed hcalled i

end Program

/-- The prices that were asked for so far, latest last. -/
structure Market where
  /-- The prices. -/
  asked : List ℚ

namespace Market

/-- Nothing is solved at the market. -/
instance : Host Market (Exact ℚ) where
  optimize _ _ := return .ended .numericalError
  clock := return 0

/-- The stock, whatever the data. -/
def stock : FirstRecipe Market (Exact ℚ) where
  name := "stock"
  build := fun _ => pure (.model LShaped.stock)

/-- What the stock lacks is bought at the price that the payload names, but a price below three
is quoted only to who asks again. -/
def quoted : SecondRecipe Market (Exact ℚ) where
  name := "quoted"
  build := fun _ _ payload =>
    match payload with
    | .real (.finite price) => do
        let asked := (← Act.environment).asked
        Act.modifyEnvironment fun _ => ⟨asked ++ [price]⟩
        if price < 3 ∧ price ∉ asked then Act.fail (.misuse .value)
        return .model (LShaped.shortage price)
    | _ => Act.fail (.misuse .value)

/-- Two prices on two workers, of which the second is not quoted at first, and then a third one,
which goes in front of the second. -/
def operations : List (Program.Operation Market (Exact ℚ)) :=
  [.rebalance (.ofInt 2), .register (.ofInt 1) (.recipe (.first stock)) true,
    .register (.ofInt 2) (.recipe (.second quoted)) true,
    .addAll [.scenario (Program.priced 3), .scenario (Program.priced 1)] none false,
    .add (.scenario (Program.priced 2)) none true]

/-- What is there after the two prices were asked for. -/
def afterTwo : Ledger Market (Exact ℚ) := ⟨⟨[3, 1]⟩, [], 0⟩

/-- Building a program. -/
def built (p : Program Market (Exact ℚ)) (ledger : Ledger Market (Exact ℚ)) :
    (Except (Fault (Exact ℚ)) Unit × Program Market (Exact ℚ)) × Ledger Market (Exact ℚ) :=
  (Program.generate.runOn p).run ledger

/-- The indices of what failed, where failures are reported. -/
def missed : Except (Fault (Exact ℚ)) Unit → Option (List Int)
  | .error (.generation failures) => some (failures.map (·.1))
  | _ => none

/-- The third price is asked for and not quoted yet, the second one is asked for again and quoted,
and the first one is not asked for.  After that only the third price is asked for, and everything
is built. -/
theorem quoted_generate_exact : ∃ p p' : Program Market (Exact ℚ), ∃ r ledger' second,
    p.Attainable ∧ built p afterTwo = ((r, p'), ledger') ∧ missed r = some [1] ∧
      ledger'.env.asked = [3, 1, 2, 1] ∧ p.Generation afterTwo none second r p' ledger' ∧
      p'.Resumes second ∧ (built p' ledger').2.env.asked = [3, 1, 2, 1, 2] ∧
      (built p' ledger').1.2.isDeferred = false := by
  obtain ⟨p, hp, hstate⟩ := Program.exists_attainable Program.Setup.standard operations
    ⟨⟨[]⟩, [], 0⟩
    (fun p =>
      let after := built p afterTwo
      let later := built after.1.2 after.2
      missed after.1.1 == some [1] && after.2.env.asked == [3, 1, 2, 1] && p.hasRecipes &&
        p.currentMaster?.isSome && later.2.env.asked == [3, 1, 2, 1, 2] && !later.1.2.isDeferred)
    (by decide +kernel)
  generalize hrun : built p afterTwo = after at hstate
  obtain ⟨⟨r, p'⟩, ledger'⟩ := after
  simp only [Bool.and_eq_true, beq_iff_eq, Bool.not_eq_true'] at hstate
  obtain ⟨⟨⟨⟨⟨hmissed, hasked⟩, hrecipes⟩, hmaster⟩, hlater⟩, hdeferred⟩ := hstate
  obtain ⟨first, second, hgeneration, hresumes⟩ := hp.generate_exact hrun
  obtain rfl : first = none := by
    rw [← Option.not_isSome_iff_eq_none,
      hgeneration.first_called (Bool.and_eq_true_iff.1 hrecipes).1]
    exact Option.isSome_iff_ne_none.1 hmaster
  exact ⟨p, p', r, ledger', second, hp, hrun, hmissed, hasked, hgeneration,
    hresumes hrecipes rfl, hlater, hdeferred⟩

end Market

end Recourse
