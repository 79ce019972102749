/-
  Proofs/Program/Placement.lean --- where scenarios are placed.

  New scenarios go behind the old ones of their partition, so the old ones stay in order,
  and filling up the least loaded partitions places every one of them.  Spreading the
  scenarios evenly over another number of partitions keeps all of them in order.
-/
import Recourse.Proofs.Effect
import Recourse.Proofs.Partition.Heap
import Recourse.Program.Scenarios
import Mathlib.Algebra.Order.BigOperators.Group.List
import Mathlib.Algebra.Order.Ring.Int

set_option autoImplicit false

namespace Recourse

variable {σ K : Type}

/-! ## Policies -/

namespace Policy

theorem smallest_lt {xs : List Int} {i : Nat} (h : smallest xs = some i) : i < xs.length := by
  induction xs generalizing i with
  | nil => cases h
  | cons x xs ih =>
    unfold smallest at h
    split at h
    · cases h
      exact Nat.succ_pos _
    · rename_i j hj
      split at h
      · cases h
        exact Nat.succ_lt_succ (ih hj)
      · cases h
        exact Nat.succ_pos _

/-- There is a least loaded partition as soon as there is any. -/
theorem exists_smallest {xs : List Int} (h : xs ≠ []) : ∃ i, smallest xs = some i := by
  cases xs with
  | nil => exact absurd rfl h
  | cons x xs =>
    unfold smallest
    split
    · exact ⟨0, rfl⟩
    · split
      · exact ⟨_, rfl⟩
      · exact ⟨0, rfl⟩

@[simp] theorem length_increment (xs : List Int) (i : Nat) : (increment xs i).length = xs.length :=
  List.length_modify _ _ _

theorem sum_increment {xs : List Int} {i : Nat} (h : i < xs.length) :
    (increment xs i).sum = xs.sum + 1 := by
  induction xs generalizing i with
  | nil => exact absurd h (Nat.not_lt_zero i)
  | cons x xs ih =>
    cases i with
    | zero =>
      simp only [increment, List.modify_zero_cons, List.sum_cons]
      omega
    | succ i =>
      have hrest := ih (Nat.lt_of_succ_lt_succ h)
      simp only [increment, List.modify_succ_cons, List.sum_cons] at hrest ⊢
      omega

theorem nonneg_increment {xs : List Int} (h : ∀ x ∈ xs, 0 ≤ x) (i : Nat) :
    ∀ x ∈ increment xs i, 0 ≤ x := by
  induction xs generalizing i with
  | nil => cases i <;> exact fun x hx => absurd hx List.not_mem_nil
  | cons x xs ih =>
    obtain ⟨hx, hxs⟩ := List.forall_mem_cons.1 h
    cases i with
    | zero => exact List.forall_mem_cons.2 ⟨Int.add_nonneg hx Int.one_nonneg, hxs⟩
    | succ i => exact List.forall_mem_cons.2 ⟨hx, ih hxs i⟩

/-- The counts say where each new scenario goes: one count per partition, none negative,
and together as many as there are new scenarios. -/
structure Places (counts : List Int) (partitions n : Nat) : Prop where
  /-- One count per partition. -/
  length : counts.length = partitions
  /-- No count is negative. -/
  nonneg : ∀ c ∈ counts, 0 ≤ c
  /-- Every new scenario is counted. -/
  sum : counts.sum = n

theorem fillCounts_go_settles (n : Nat) {loads : Heap (Int × Nat)} {counts : List Int} {m : Nat}
    (hloads : ∀ e ∈ loads.items, e.2 < counts.length) (h : Places counts counts.length m) :
    Settles (fillCounts.go (K := K) n loads counts)
      (fun result => Places result counts.length (m + n)) (fun _ => loads.items = 0 ∧ n ≠ 0) := by
  induction n generalizing loads counts m with
  | zero => exact h
  | succ n ih =>
    unfold fillCounts.go
    cases hpop : loads.pop? before with
    | none => exact ⟨congrArg Heap.items (Heap.pop?_eq_none hpop), Nat.succ_ne_zero n⟩
    | some found =>
      obtain ⟨⟨load, k⟩, others⟩ := found
      have hitems := Heap.items_pop? hpop
      have hk : k < counts.length :=
        hloads (load, k) (hitems ▸ Multiset.mem_add.2 (Or.inl (Multiset.mem_singleton_self _)))
      have hnext : Places (increment counts k) (increment counts k).length (m + 1) :=
        ⟨rfl, nonneg_increment h.nonneg k, by rw [sum_increment hk, h.sum]; omega⟩
      refine (ih (fun e he => ?_) hnext).mono ?_ ?_
      · rw [Heap.items_push, Multiset.mem_add, Multiset.mem_singleton] at he
        rw [length_increment]
        rcases he with rfl | he
        · exact hk
        · exact hloads e (hitems ▸ Multiset.mem_add.2 (Or.inr he))
      · intro result hresult
        rw [length_increment] at hresult
        exact ⟨hresult.length, hresult.nonneg, by rw [hresult.sum]; omega⟩
      · rintro f ⟨hempty, -⟩
        rw [Heap.items_push] at hempty
        exact absurd hempty (by simp)

/-- Filling up the least loaded partitions places every new scenario. -/
theorem fillCounts_settles (sizes : List Int) (n : Nat) :
    Settles (fillCounts (K := K) sizes n) (fun counts => Places counts sizes.length n)
      (fun _ => sizes = []) := by
  have hzero : Places (sizes.map fun _ => (0 : Int)) (sizes.map fun _ => (0 : Int)).length 0 :=
    ⟨rfl, by simp, by simp⟩
  have hloads : (Heap.ofList before sizes.zipIdx).items = (sizes.zipIdx : Multiset (Int × Nat)) :=
    Heap.items_ofList _
  refine (fillCounts_go_settles n (fun e he => ?_) hzero).mono ?_ fun f h => ?_
  · rw [hloads] at he
    rw [List.length_map]
    exact (List.mem_zipIdx' he).1
  · intro counts h
    rw [List.length_map, Nat.zero_add] at h
    exact h
  · rw [hloads, Multiset.coe_eq_zero] at h
    simpa using congrArg List.length h.1

theorem sum_larger_first (base extra : Int) (hextra : 0 ≤ extra) (parts : Nat) :
    ((List.range parts).map fun (k : Nat) => if (k : Int) < extra then base + 1 else base).sum =
      parts * base + min extra parts := by
  induction parts with
  | zero => simp; omega
  | succ parts ih =>
    rw [List.range_succ, List.map_append, List.sum_append, ih, List.map_singleton,
      List.sum_singleton, Nat.cast_add_one, add_mul, one_mul]
    split <;> omega

/-- An even split has a size per part, none negative, and places everything. -/
theorem evenSplit_settles (total : Nat) (parts : Int) :
    Settles (evenSplit (K := K) total parts)
      (fun sizes => sizes ≠ [] ∧ Places sizes parts.toNat total) (fun _ => True) := by
  unfold evenSplit
  split
  · trivial
  · rename_i hparts
    have hpos : 0 < parts := by omega
    have hextra : 0 ≤ (total : Int).fmod parts := Int.fmod_nonneg_of_pos _ hpos
    have hlt : (total : Int).fmod parts < parts := Int.fmod_lt_of_pos _ hpos
    have hbase : 0 ≤ (total : Int).fdiv parts := Int.fdiv_nonneg (by omega) hpos.le
    have hdivision := Int.mul_fdiv_add_fmod (total : Int) parts
    refine ⟨?_, by simp, ?_, ?_⟩
    · intro hnil
      have hlength := congrArg List.length hnil
      simp only [List.length_map, List.length_range, List.length_nil] at hlength
      omega
    · intro c hc
      obtain ⟨k, -, rfl⟩ := List.mem_map.1 hc
      split <;> omega
    · rw [sum_larger_first _ _ hextra, Int.toNat_of_nonneg hpos.le, min_eq_left hlt.le]
      exact hdivision

/-- Counts as natural numbers. -/
theorem Places.sum_toNat {counts : List Int} {m n : Nat} (h : Places counts m n) :
    (counts.map Int.toNat).sum = n := by
  obtain ⟨-, hnonneg, hsum⟩ := h
  induction counts generalizing n with
  | nil =>
    simp only [List.sum_nil] at hsum
    simp only [List.map_nil, List.sum_nil]
    omega
  | cons c counts ih =>
    obtain ⟨hc, hcounts⟩ := List.forall_mem_cons.1 hnonneg
    rw [List.sum_cons] at hsum
    have hrest : 0 ≤ counts.sum := List.sum_nonneg hcounts
    have hn : counts.sum = ((n - c.toNat : Nat) : Int) := by omega
    rw [List.map_cons, List.sum_cons, ih hcounts hn]
    omega

end Policy

/-! ## Placing -/

namespace Program

/-- The slots of new scenarios. -/
def freshSlots (scenarios : List (Scenario K)) : List (Slot K) := scenarios.map Slot.ofScenario

/-- Slots with some more among them: the old ones stay in order, and every slot is an old
one or that of a new scenario. -/
structure Extends (old new : List (Slot K)) (scenarios : List (Scenario K)) : Prop where
  /-- The old slots stay in order. -/
  sublist : old.Sublist new
  /-- The others are those of new scenarios. -/
  origin : ∀ s ∈ new, s ∈ old ∨ s ∈ freshSlots scenarios

theorem Extends.append {old new old' new' : List (Slot K)} {scenarios : List (Scenario K)}
    (h : Extends old new scenarios) (h' : Extends old' new' scenarios) :
    Extends (old ++ old') (new ++ new') scenarios where
  sublist := h.sublist.append h'.sublist
  origin := by
    intro s hs
    rcases List.mem_append.1 hs with hs | hs
    · exact (h.origin s hs).imp_left (List.mem_append_left _)
    · exact (h'.origin s hs).imp_left (List.mem_append_right _)

theorem Extends.refl (slots : List (Slot K)) (scenarios : List (Scenario K)) :
    Extends slots slots scenarios := ⟨.refl _, fun _ hs => Or.inl hs⟩

theorem Extends.mono {old new : List (Slot K)} {scenarios scenarios' : List (Scenario K)}
    (h : Extends old new scenarios) (hsub : ∀ s ∈ scenarios, s ∈ scenarios') :
    Extends old new scenarios' where
  sublist := h.sublist
  origin := fun s hs => (h.origin s hs).imp_right fun hs => by
    obtain ⟨c, hc, rfl⟩ := List.mem_map.1 hs
    exact List.mem_map.2 ⟨c, hsub c hc, rfl⟩

/-- A partition is extended at its end. -/
theorem extends_extend (q : Partition K) (scenarios : List (Scenario K)) :
    Extends q.slots (q.extend scenarios).slots scenarios where
  sublist := List.sublist_append_left _ _
  origin := fun _ hs => List.mem_append.1 hs

theorem extends_modify (partitions : List (Partition K)) (k : Nat) (scenarios : List (Scenario K)) :
    Extends (partitions.flatMap (·.slots))
      ((partitions.modify k (·.extend scenarios)).flatMap (·.slots)) scenarios := by
  induction partitions generalizing k with
  | nil => cases k <;> exact .refl _ _
  | cons q partitions ih =>
    cases k with
    | zero => exact (extends_extend q scenarios).append (.refl _ _)
    | succ k => exact (Extends.refl q.slots scenarios).append (ih k)

theorem extends_extendEach (partitions : List (Partition K)) (counts : List Nat)
    (scenarios : List (Scenario K)) :
    Extends (partitions.flatMap (·.slots))
      ((extendEach partitions counts scenarios).flatMap (·.slots)) scenarios := by
  induction partitions generalizing counts scenarios with
  | nil => exact .refl _ _
  | cons q partitions ih =>
    cases counts with
    | nil => exact .refl _ _
    | cons n counts =>
      refine Extends.append ?_ ?_
      · exact (extends_extend q _).mono fun s hs => List.mem_of_mem_take hs
      · exact (ih counts _).mono fun s hs => List.mem_of_mem_drop hs

theorem length_extendEach (partitions : List (Partition K)) (counts : List Nat)
    (scenarios : List (Scenario K)) :
    (extendEach partitions counts scenarios).length = partitions.length := by
  induction partitions generalizing counts scenarios with
  | nil => rfl
  | cons q partitions ih =>
    cases counts with
    | nil => rfl
    | cons n counts => simp [extendEach, ih]

/-- Where the counts place every new scenario, every one gets a slot. -/
theorem count_extendEach {partitions : List (Partition K)} {counts : List Nat}
    {scenarios : List (Scenario K)} (hlength : counts.length = partitions.length)
    (hsum : counts.sum = scenarios.length) :
    ((extendEach partitions counts scenarios).flatMap (·.slots)).length =
      (partitions.flatMap (·.slots)).length + scenarios.length := by
  induction partitions generalizing counts scenarios with
  | nil =>
    rw [List.eq_nil_of_length_eq_zero hlength] at hsum
    simp [extendEach, ← hsum]
  | cons q partitions ih =>
    cases counts with
    | nil => cases hlength
    | cons n counts =>
      rw [List.sum_cons] at hsum
      have hrest := @ih counts (scenarios.drop n)
        (Nat.succ.inj hlength) (by rw [List.length_drop]; omega)
      simp only [extendEach, List.flatMap_cons, List.length_append, hrest, Partition.extend,
        List.length_map, List.length_take, List.length_drop]
      omega

/-- Chunks hold as many slots as their sizes say, in order. -/
theorem flatMap_chunks (owner : Nat) {sizes : List Nat} {slots : List (Slot K)}
    (h : sizes.sum = slots.length) : (chunks owner sizes slots).flatMap (·.slots) = slots := by
  induction sizes generalizing owner slots with
  | nil => exact (List.eq_nil_of_length_eq_zero h.symm).symm
  | cons n sizes ih =>
    rw [List.sum_cons] at h
    rw [chunks, List.flatMap_cons, ih (owner + 1) (by rw [List.length_drop]; omega),
      List.take_append_drop]

theorem length_chunks (owner : Nat) (sizes : List Nat) (slots : List (Slot K)) :
    (chunks owner sizes slots).length = sizes.length := by
  induction sizes generalizing owner slots with
  | nil => rfl
  | cons n sizes ih => rw [chunks, List.length_cons, ih, List.length_cons]

/-! ## Accepting -/

/-- What is accepted is what was offered. -/
theorem accept_settles (schema : Option Schema) (offered : List (Offered K)) :
    Settles (accept schema offered) (fun a => offered = a.2.map .scenario) fun _ => True := by
  induction offered generalizing schema with
  | nil => exact rfl
  | cons o offered ih =>
    cases o with
    | other t => trivial
    | scenario s =>
      unfold accept
      refine Settles.bind ((Settles.self _).mono ?_ fun _ h => h)
      intro schema' _
      refine Settles.bind ((ih schema').mono ?_ fun _ h => h)
      rintro ⟨schema'', others⟩ hothers
      exact congrArg _ hothers

end Program

end Recourse
