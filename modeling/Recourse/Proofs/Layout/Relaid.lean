/-
  Proofs/Layout/Relaid.lean --- one program in two layouts.

  Two programs are layouts of one another when they differ in their partitions only and have
  the same slots in global order.  What is read by global index is then the same, and so is
  what is counted; totals are summed partition by partition, but weights have the same total
  in any grouping.  Spreading a program over another number of partitions gives a layout of
  it.
-/
import Recourse.Proofs.Layout.Agreement
import Recourse.Proofs.Program.Meaning
import Recourse.Proofs.Program.Placement

set_option autoImplicit false
set_option linter.unusedSectionVars false

namespace Recourse

variable {σ K : Type}

/-- The subproblem in a slot, if it is of this epoch. -/
def Slot.current? (s : Slot K) (epoch : Int) : Option (Model K) :=
  if s.isCurrent epoch then s.model? else none

/-- A partition hands out the subproblem in a slot, if it is of the epoch asked for. -/
theorem Partition.subproblem_toOption {q : Partition K} {i : Int} {s : Slot K}
    (h : q.slot i .subproblem = .ok s) (epoch : Int) :
    (q.subproblem i epoch).toOption = s.current? epoch := by
  unfold subproblem Slot.current? Slot.isCurrent Slot.model?
  rw [h]
  rcases hb : s.built with _ | ⟨m, e⟩
  · simp [hb, bind, Except.bind, throw, throwThe, MonadExceptOf.throw, Except.toOption]
  · by_cases he : e = epoch
    · simp [hb, he, bind, Except.bind, pure, Except.pure, Except.toOption]
    · simp [hb, he, bind, Except.bind, throw, throwThe, MonadExceptOf.throw, Except.toOption]

namespace Program

variable {p q : Program σ K}

/-- The programs differ in their partitions only, and these hold the same slots in the same
order. -/
structure Relaid (p q : Program σ K) : Prop where
  /-- The slots are the same, in global order. -/
  slots : q.slots = p.slots
  /-- All else is the same. -/
  rest : q = { p with partitions := q.partitions }

namespace Relaid

theorem refl (p : Program σ K) : p.Relaid p := ⟨rfl, rfl⟩

theorem symm (h : p.Relaid q) : q.Relaid p where
  slots := h.slots.symm
  rest := by
    rw [h.rest]

theorem trans {r : Program σ K} (h : p.Relaid q) (h' : q.Relaid r) : p.Relaid r where
  slots := h'.slots.trans h.slots
  rest := by
    rw [h'.rest, h.rest]

/-- New partitions with the same slots. -/
theorem of_partitions (p : Program σ K) {partitions : List (Partition K)}
    (h : partitions.flatMap (·.slots) = p.slots) : p.Relaid { p with partitions } := ⟨h, rfl⟩

/-- What does not look at the partitions does not tell two layouts apart. -/
theorem congr {α : Type} (h : p.Relaid q) (f : Program σ K → α)
    (hf : ∀ partitions, f { p with partitions } = f p) : f q = f p := by
  rw [h.rest]
  exact hf _

/-! ### What is counted -/

theorem scenarios (h : p.Relaid q) : q.scenarios = p.scenarios := by
  rw [Program.scenarios, h.slots, Program.scenarios]

theorem scenarioCount (h : p.Relaid q) : q.scenarioCount = p.scenarioCount := by
  rw [Program.scenarioCount, h.slots, Program.scenarioCount]

theorem probabilities (h : p.Relaid q) : q.probabilities = p.probabilities := by
  rw [Program.probabilities, h.scenarios, Program.probabilities]

theorem secondEpoch (h : p.Relaid q) : q.secondEpoch = p.secondEpoch := h.congr _ fun _ => rfl

theorem solution (h : p.Relaid q) : q.solution = p.solution := h.congr _ fun _ => rfl

theorem stageOneModel (h : p.Relaid q) : q.stageOneModel = p.stageOneModel :=
  h.congr _ fun _ => rfl

theorem subproblemCount (h : p.Relaid q) : q.subproblemCount = p.subproblemCount := by
  rw [Program.subproblemCount, h.slots, h.secondEpoch, Program.subproblemCount]

theorem stageState (h : p.Relaid q) (stage : Stage) : q.stageState stage = p.stageState stage := by
  cases stage with
  | first => exact h.congr (·.firstState) fun _ => rfl
  | second =>
    have hrecipe : q.secondRecipe = p.secondRecipe := h.congr (·.secondRecipe) fun _ => rfl
    have hgenerated : q.generatedEpoch = p.generatedEpoch := h.congr (·.generatedEpoch) fun _ => rfl
    show q.secondState = p.secondState
    unfold secondState
    rw [h.slots, h.scenarioCount, h.secondEpoch, hrecipe, hgenerated]

theorem isDeferred (h : p.Relaid q) : q.isDeferred = p.isDeferred := by
  have hfirst : q.firstState = p.firstState := h.stageState .first
  have hsecond : q.secondState = p.secondState := h.stageState .second
  rw [Program.isDeferred, hfirst, hsecond, Program.isDeferred]

end Relaid

/-! ## Reading by global index -/

/-- Every subproblem is current. -/
def AllCurrent (p : Program σ K) : Prop := ∀ s ∈ p.slots, s.isCurrent p.secondEpoch = true

theorem Relaid.allCurrent (h : p.Relaid q) (hp : p.AllCurrent) : q.AllCurrent := by
  unfold AllCurrent
  rw [h.slots, h.secondEpoch]
  exact hp

/-- What is located has the slot of the global index. -/
theorem locateIn_slot (partitions : List (Partition K)) (i : Nat) :
    (locateIn partitions i).map (fun a => a.1.slots[a.2]?) =
      ((partitions.flatMap (·.slots))[i]?).map some := by
  induction partitions generalizing i with
  | nil => rfl
  | cons q rest ih =>
    unfold locateIn
    rw [List.flatMap_cons]
    by_cases hi : i < q.slots.length
    · rw [if_pos (show i < q.size from hi), List.getElem?_append_left hi, Option.map_some,
        List.getElem?_eq_getElem hi, Option.map_some]
    · rw [if_neg (show ¬i < q.size from hi), List.getElem?_append_right (not_lt.1 hi)]
      exact ih _

section Scalar

variable [Scalar K]

/-- The slot at a global index, refused unless the index is an integer in the range. -/
def slotAt (p : Program σ K) (i : Setting K) : Except (Fault K) (Slot K) :=
  match i.integer?.bind fun n => if n < 0 then none else p.slots[n.toNat]? with
  | some s => .ok s
  | none => .error (.indexOutOfRange i p.scenarioCount .scenario)

/-- A scenario is located where its slot is. -/
theorem locate_agree (p : Program σ K) (i : Setting K) :
    Agree (p.locate i) (p.slotAt i) (fun a s => a.1.slots[a.2]? = some s) True := by
  unfold locate slotAt
  cases i.integer? with
  | none => exact ⟨rfl, trivial⟩
  | some n =>
    dsimp only [Option.bind_some]
    by_cases hn : n < 0
    · rw [if_pos hn, if_pos hn]
      exact ⟨rfl, trivial⟩
    · rw [if_neg hn, if_neg hn]
      have hslot : _ = (p.slots[n.toNat]?).map some := locateIn_slot p.partitions n.toNat
      cases hfound : locateIn p.partitions n.toNat with
      | none =>
        rw [hfound, Option.map_none] at hslot
        rw [Option.map_eq_none_iff.1 hslot.symm]
        exact ⟨rfl, trivial⟩
      | some a =>
        rw [hfound, Option.map_some] at hslot
        obtain ⟨s, hs, hsome⟩ := Option.map_eq_some_iff.1 hslot.symm
        rw [hs]
        exact hsome.symm

theorem scenario_eq (p : Program σ K) (i : Setting K) :
    p.scenario i = (p.slotAt i).map (·.scenario) := by
  have hagree := p.locate_agree i
  unfold scenario
  generalize p.locate i = r at hagree ⊢
  generalize p.slotAt i = r' at hagree ⊢
  cases r <;> cases r'
  · exact congrArg Except.error hagree.1.symm
  · exact hagree.elim
  · exact hagree.elim
  · rename_i a s
    have hslot : a.1.slot a.2 .scenario = .ok s := slot_eq_ok.2 ⟨Int.natCast_nonneg _, hagree⟩
    show a.1.scenario a.2 = _
    rw [Partition.scenario, hslot]

theorem subproblem_toOption (p : Program σ K) (i : Setting K) : (p.subproblem i).toOption =
    (p.slotAt i).toOption.bind (·.current? p.secondEpoch) := by
  have hagree := p.locate_agree i
  unfold subproblem
  generalize p.locate i = r at hagree ⊢
  generalize p.slotAt i = r' at hagree ⊢
  cases r <;> cases r'
  · rfl
  · exact hagree.elim
  · exact hagree.elim
  · rename_i a s
    have hslot : a.1.slot a.2 .subproblem = .ok s := slot_eq_ok.2 ⟨Int.natCast_nonneg _, hagree⟩
    exact Partition.subproblem_toOption hslot p.secondEpoch

theorem mem_of_slotAt {i : Setting K} {s : Slot K} (h : p.slotAt i = .ok s) : s ∈ p.slots := by
  unfold slotAt at h
  split at h
  · rename_i s' hs
    cases h
    obtain ⟨n, -, hslot⟩ := Option.bind_eq_some_iff.1 hs
    split at hslot
    · cases hslot
    · exact List.mem_of_getElem? hslot
  · cases h

/-- Where all subproblems are current, only an index can be refused. -/
theorem subproblem_eq_of_allCurrent (hp : p.AllCurrent) (i : Setting K) :
    p.subproblem i = (p.slotAt i).map fun s => s.model?.getD default := by
  have hagree := p.locate_agree i
  unfold subproblem
  generalize p.locate i = r at hagree ⊢
  cases hs : p.slotAt i with
  | error f =>
    rw [hs] at hagree
    cases r with
    | error e => exact congrArg Except.error hagree.1.symm
    | ok a => exact hagree.elim
  | ok s =>
    rw [hs] at hagree
    cases r with
    | error e => exact hagree.elim
    | ok a =>
      obtain ⟨m, hm⟩ := exists_built_of_isCurrent (hp s (mem_of_slotAt hs))
      have hslot : a.1.slot a.2 .subproblem = .ok s := slot_eq_ok.2 ⟨Int.natCast_nonneg _, hagree⟩
      have hmodel : a.1.subproblem a.2 p.secondEpoch = .ok m :=
        partition_subproblem_eq_ok.2 ⟨s, hslot, hm⟩
      show a.1.subproblem a.2 p.secondEpoch = .ok (s.model?.getD default)
      rw [hmodel, Slot.model?, hm]
      rfl

/-! ### Two layouts -/

namespace Relaid

theorem slotAt (h : p.Relaid q) (i : Setting K) : q.slotAt i = p.slotAt i := by
  rw [Program.slotAt, h.slots, h.scenarioCount, Program.slotAt]

theorem scenario (h : p.Relaid q) (i : Setting K) : q.scenario i = p.scenario i := by
  rw [scenario_eq, h.slotAt, scenario_eq]

/-- The same subproblems are handed out. -/
theorem subproblem (h : p.Relaid q) (i : Setting K) :
    (q.subproblem i).toOption = (p.subproblem i).toOption := by
  rw [subproblem_toOption, h.slotAt, h.secondEpoch, subproblem_toOption]

/-- Where all subproblems are current, the same indices are refused as well. -/
theorem subproblem_eq (h : p.Relaid q) (hp : p.AllCurrent) (i : Setting K) :
    q.subproblem i = p.subproblem i := by
  rw [subproblem_eq_of_allCurrent (h.allCurrent hp), h.slotAt, subproblem_eq_of_allCurrent hp]

theorem subproblems_eq (h : p.Relaid q) (hp : p.AllCurrent) : q.subproblems = p.subproblems := by
  have hat : q.subproblemAt = p.subproblemAt := funext fun i => h.subproblem_eq hp _
  rw [subproblems, hat, h.scenarioCount, subproblems]

end Relaid

end Scalar

/-! ## Spreading -/

/-- A program and the same one spread over a number of partitions as evenly as it can be, the
larger ones first. -/
structure SpreadOver (p p' : Program σ K) (k : Nat) : Prop extends p.Relaid p' where
  /-- There are as many partitions. -/
  count : p'.partitions.length = k
  /-- No partition is larger than one in front of it, nor smaller by more than one. -/
  even : p'.partitionSizes.Pairwise fun a b => b ≤ a ∧ a ≤ b + 1

/-- Chunks are as large as their sizes say. -/
theorem sizes_chunks (owner : Nat) {sizes : List Nat} {slots : List (Slot K)}
    (h : sizes.sum = slots.length) : (chunks owner sizes slots).map (·.size) = sizes := by
  induction sizes generalizing owner slots with
  | nil => rfl
  | cons n sizes ih =>
    rw [List.sum_cons] at h
    rw [chunks, List.map_cons, ih (owner + 1) (by rw [List.length_drop]; omega)]
    refine congrArg (· :: sizes) ?_
    show (slots.take n).length = n
    rw [List.length_take]
    omega

/-- The sizes of an even split fall by one at most. -/
theorem evenSplit_even (total : Nat) (parts : Int) : Settles (Policy.evenSplit (K := K) total parts)
    (fun sizes => (sizes.map Int.toNat).Pairwise fun a b => b ≤ a ∧ a ≤ b + 1) fun _ => True := by
  unfold Policy.evenSplit
  split
  · trivial
  · have hbase : 0 ≤ (total : Int).fdiv parts := Int.fdiv_nonneg (by omega) (by omega)
    show List.Pairwise _ (List.map _ (List.map _ _))
    rw [List.map_map, List.pairwise_map]
    refine List.pairwise_lt_range.imp fun {i j} hij => ?_
    simp only [Function.comp_apply]
    split <;> split <;> omega

section Rebalance

variable [Scalar K] {workers : Setting K}

/-- A positive number of partitions is always reached, and nothing else changes. -/
theorem rebalance_run {k : Int} (hworkers : workers.toInteger = .ok k) (hk : 1 ≤ k)
    (p : Program σ K) (ledger : Ledger σ K) :
    ∃ p', ((rebalance workers : Edit σ K Unit).runOn p).run ledger = ((.ok (), p'), ledger) ∧
      p.SpreadOver p' k.toNat := by
  have hsplit : ∃ sizes, Policy.evenSplit (K := K) p.scenarioCount k = .ok sizes :=
    ⟨_, if_neg (by omega)⟩
  obtain ⟨sizes, hsizes⟩ := hsplit
  obtain ⟨-, hplaces⟩ := (Policy.evenSplit_settles p.scenarioCount k).of_ok hsizes
  have heven := (evenSplit_even p.scenarioCount k).of_ok hsizes
  refine ⟨{ p with partitions := chunks 0 (sizes.map Int.toNat) p.slots }, ?_, ?_⟩
  · have hchange : (rebalance workers : Edit σ K Unit).run.run (p, ledger) =
        (.ok (), { p with partitions := chunks 0 (sizes.map Int.toNat) p.slots }, ledger) := by
      unfold rebalance
      rw [hworkers]
      show (liftM (Policy.evenSplit (K := K) p.scenarioCount k) >>= _ : Edit σ K Unit).run.run _ = _
      rw [hsizes]
      rfl
    rw [Change.runOn_run, hchange]
  · have hlength : (sizes.map Int.toNat).sum = p.slots.length := hplaces.sum_toNat
    refine ⟨.of_partitions p (flatMap_chunks 0 hlength), ?_, ?_⟩
    · show (chunks _ _ _).length = _
      rw [length_chunks, List.length_map, hplaces.length]
    · show ((chunks _ _ _).map _).Pairwise _
      rw [sizes_chunks 0 hlength]
      exact heven

/-- Any other number is refused, and nothing changes. -/
theorem rebalance_refused {k : Int} (hworkers : workers.toInteger = .ok k) (hk : k < 1)
    (p : Program σ K) (ledger : Ledger σ K) :
    ((rebalance workers : Edit σ K Unit).runOn p).run ledger =
      ((.error (.invalid (.notPositive "partition count" (.ofInt k))), p), ledger) := by
  have hchange : (rebalance workers : Edit σ K Unit).run.run (p, ledger) =
      (.error (.invalid (.notPositive "partition count" (.ofInt k))), p, ledger) := by
    unfold rebalance
    rw [hworkers]
    show (liftM (Policy.evenSplit (K := K) p.scenarioCount k) >>= _ : Edit σ K Unit).run.run _ = _
    rw [Policy.evenSplit, if_pos hk]
    rfl
  rw [Change.runOn_run, hchange]

end Rebalance

end Program

end Recourse
