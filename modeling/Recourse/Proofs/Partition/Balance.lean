/-
  Proofs/Partition/Balance.lean --- filling up the least loaded partition.

  The heap holds the load of every partition, so what is on top is the least loaded one and
  the first of several (`smallest_of_top`), and taking `n` loads off the heap is adding `n`
  scenarios one by one (`fillCounts_eq_targets`).  One scenario more in the least loaded
  partition does not part the loads further than by one, unless they were parted further
  already (`imbalance_increment`).
-/
import Recourse.Proofs.Program.Placement

set_option autoImplicit false

namespace Recourse.Policy

variable {K : Type}

/-! ## The least loaded partition -/

/-- A smallest load, behind larger ones only. -/
structure FirstLeast (xs : List Int) (i : Nat) (x : Int) : Prop where
  /-- The load of the partition. -/
  load : xs[i]? = some x
  /-- No other load is smaller. -/
  least : ∀ (j : Nat) (y : Int), xs[j]? = some y → x ≤ y
  /-- Those in front are larger. -/
  first : ∀ (j : Nat) (y : Int), xs[j]? = some y → j < i → x < y

theorem FirstLeast.unique {xs : List Int} {i j : Nat} {x y : Int} (h : FirstLeast xs i x)
    (h' : FirstLeast xs j y) : i = j := by
  rcases lt_trichotomy i j with hij | hij | hij
  · exact absurd (h.least j y h'.load) (not_le.2 (h'.first i x h.load hij))
  · exact hij
  · exact absurd (h'.least i x h.load) (not_le.2 (h.first j y h'.load hij))

theorem FirstLeast.head {a : Int} {xs : List Int}
    (h : ∀ (j : Nat) (y : Int), xs[j]? = some y → a ≤ y) :
    FirstLeast (a :: xs) 0 a where
  load := rfl
  least := fun j y hy => by
    cases j with
    | zero => exact (Option.some.inj hy).le
    | succ j => exact h j y hy
  first := fun j y _ hj => absurd hj (Nat.not_lt_zero j)

theorem FirstLeast.tail {a x : Int} {xs : List Int} {i : Nat} (h : FirstLeast xs i x)
    (hlt : x < a) : FirstLeast (a :: xs) (i + 1) x where
  load := h.load
  least := fun j y hy => by
    cases j with
    | zero => exact hlt.le.trans (Option.some.inj hy).le
    | succ j => exact h.least j y hy
  first := fun j y hy hj => by
    cases j with
    | zero => exact hlt.trans_le (Option.some.inj hy).le
    | succ j => exact h.first j y hy (Nat.lt_of_succ_lt_succ hj)

theorem smallest_first {xs : List Int} {i : Nat} (h : smallest xs = some i) :
    ∃ x, FirstLeast xs i x := by
  induction xs generalizing i with
  | nil => cases h
  | cons a xs ih =>
    unfold smallest at h
    split at h
    · rename_i hnone
      cases h
      have hnil : xs = [] := by
        by_contra hne
        obtain ⟨k, hk⟩ := exists_smallest hne
        exact nomatch hnone.symm.trans hk
      subst hnil
      exact ⟨a, .head fun j y hy => nomatch hy⟩
    · rename_i k hk
      obtain ⟨x, hx⟩ := ih hk
      rw [List.getD_eq_getElem?_getD, hx.load, Option.getD_some] at h
      split at h
      · rename_i hlt
        cases h
        exact ⟨x, hx.tail hlt⟩
      · rename_i hge
        cases h
        exact ⟨a, .head fun j y hy => (not_lt.1 hge).trans (hx.least j y hy)⟩

/-- The partition that is chosen is the least loaded one, the first of several. -/
theorem smallest_eq_some_iff {xs : List Int} {i : Nat} :
    smallest xs = some i ↔ ∃ x, FirstLeast xs i x := by
  refine ⟨smallest_first, fun ⟨x, hx⟩ => ?_⟩
  have hne : xs ≠ [] := by
    rintro rfl
    exact nomatch hx.load
  obtain ⟨k, hk⟩ := exists_smallest hne
  obtain ⟨y, hy⟩ := smallest_first hk
  rw [hk, hy.unique hx]

theorem leastLoaded_eq_ok {sizes : List Int} {k : Nat} :
    leastLoaded (K := K) sizes = .ok k ↔ smallest sizes = some k := by
  unfold leastLoaded
  cases smallest sizes <;> simp

theorem leastLoaded_eq {sizes : List Int} {k : Nat} (h : smallest sizes = some k) :
    leastLoaded (K := K) sizes = .ok k := leastLoaded_eq_ok.2 h

/-! ## Adding one by one -/

/-- The partitions that new scenarios go to when they are added one by one, each to the least
loaded partition. -/
def targets : Nat → List Int → Except (Fault K) (List Nat)
  | 0, _ => .ok []
  | n + 1, sizes => do
      let k ← leastLoaded sizes
      let others ← targets n (increment sizes k)
      return k :: others

theorem getElem?_increment (xs : List Int) (i j : Nat) :
    (increment xs i)[j]? = xs[j]?.map fun x => if i = j then x + 1 else x := by
  rw [increment, List.getElem?_modify]
  cases xs[j]? <;> simp

/-- Each of several positions incremented, as often as it is named. -/
theorem getElem?_foldl_increment (ks : List Nat) (xs : List Int) (j : Nat) :
    (ks.foldl increment xs)[j]? = xs[j]?.map fun x => x + (ks.count j : Int) := by
  induction ks generalizing xs with
  | nil => simp
  | cons k ks ih =>
    rw [List.foldl_cons, ih, getElem?_increment, Option.map_map]
    refine congrArg (Option.map · xs[j]?) (funext fun x => ?_)
    rw [List.count_cons]
    by_cases hkj : k = j
    · subst hkj
      simp
      omega
    · simp [hkj]

@[simp] theorem length_foldl_increment (ks : List Nat) (xs : List Int) :
    (ks.foldl increment xs).length = xs.length := by
  induction ks generalizing xs with
  | nil => rfl
  | cons k ks ih => rw [List.foldl_cons, ih, length_increment]

theorem increment_ne_nil {xs : List Int} (h : xs ≠ []) (i : Nat) : increment xs i ≠ [] := by
  rwa [← List.length_pos_iff, length_increment, List.length_pos_iff]

/-! ## The heap of loads -/

theorem before_iff (a b : Int × Nat) :
    before a b = true ↔ a.1 < b.1 ∨ a.1 = b.1 ∧ a.2 < b.2 := by
  simp [before]

theorem before_precedence : Heap.Precedence before where
  asymm := by
    intro a b hab
    rw [Bool.eq_false_iff, ne_eq, before_iff]
    rw [before_iff] at hab
    omega
  between := by
    intro a b c hab
    simp only [before_iff] at hab ⊢
    omega

/-- The heap holds the load of every partition. -/
structure Holds (loads : Heap (Int × Nat)) (sizes : List Int) : Prop where
  /-- The loads with their partitions. -/
  items : loads.items = (sizes.zipIdx : Multiset (Int × Nat))
  /-- No load is above one that comes before it. -/
  ordered : Heap.Ordered before loads

theorem holds_ofList (sizes : List Int) : Holds (Heap.ofList before sizes.zipIdx) sizes :=
  ⟨Heap.items_ofList _, Heap.ordered_ofList before_precedence _⟩

/-- There is a load on top as long as there are partitions. -/
theorem Holds.exists_top {loads : Heap (Int × Nat)} {sizes : List Int} (h : Holds loads sizes)
    (hsizes : sizes ≠ []) : ∃ load k others, loads.pop? before = some ((load, k), others) := by
  cases hpop : loads.pop? before with
  | some found => exact ⟨found.1.1, found.1.2, found.2, rfl⟩
  | none =>
    have hitems := h.items
    rw [Heap.pop?_eq_none hpop, Heap.items_empty, eq_comm, Multiset.coe_eq_zero,
      List.zipIdx_eq_nil_iff] at hitems
    exact absurd hitems hsizes

theorem mem_zipIdx_iff {sizes : List Int} {x : Int} {i : Nat} :
    (x, i) ∈ (sizes.zipIdx : Multiset (Int × Nat)) ↔ sizes[i]? = some x :=
  List.mem_zipIdx_iff_getElem?

/-- What is on top is the least loaded partition, the first of several. -/
theorem Holds.smallest_of_top {loads others : Heap (Int × Nat)} {sizes : List Int} {load : Int}
    {k : Nat} (h : Holds loads sizes) (hpop : loads.pop? before = some ((load, k), others)) :
    smallest sizes = some k ∧ sizes[k]? = some load := by
  have hitems := Heap.items_pop? hpop
  have hfirst := (h.ordered.pop?_first before_precedence hpop).2
  have hmem : ∀ e, e = (load, k) ∨ e ∈ others.items ↔ sizes[e.2]? = some e.1 := by
    intro e
    rw [← mem_zipIdx_iff, ← h.items, hitems, Multiset.mem_add, Multiset.mem_singleton]
  have htop : sizes[k]? = some load := (hmem (load, k)).1 (Or.inl rfl)
  have hbehind : ∀ (j : Nat) (y : Int), sizes[j]? = some y →
      load ≤ y ∧ (j < k → load < y) := by
    intro j y hy
    rcases (hmem (y, j)).2 hy with heq | hother
    · cases heq
      exact ⟨le_rfl, fun hlt => absurd hlt (lt_irrefl _)⟩
    · have hafter := hfirst _ hother
      rw [Bool.eq_false_iff, ne_eq, before_iff] at hafter
      dsimp only at hafter
      omega
  exact ⟨smallest_eq_some_iff.2 ⟨load, htop, fun j y hy => (hbehind j y hy).1,
    fun j y hy hj => (hbehind j y hy).2 hj⟩, htop⟩

/-- A load is exchanged for one more where a position is incremented. -/
theorem zipIdx_increment {xs : List Int} {i : Nat} {x : Int} (h : xs[i]? = some x) (m : Nat) :
    ((increment xs i).zipIdx m : Multiset (Int × Nat)) + {(x, m + i)} =
      {(x + 1, m + i)} + (xs.zipIdx m : Multiset (Int × Nat)) := by
  induction xs generalizing i m with
  | nil => cases h
  | cons a xs ih =>
    cases i with
    | zero =>
      cases h
      simp only [increment, List.modify_zero_cons, List.zipIdx_cons, ← Multiset.cons_coe,
        ← Multiset.singleton_add, Nat.add_zero]
      abel
    | succ i =>
      have hrest := ih h (m + 1)
      rw [Nat.add_right_comm, Nat.add_assoc, increment] at hrest
      simp only [increment, List.modify_succ_cons, List.zipIdx_cons, ← Multiset.cons_coe,
        ← Multiset.singleton_add]
      rw [add_assoc, hrest]
      abel

/-- The top comes back with one more. -/
theorem Holds.push {loads others : Heap (Int × Nat)} {sizes : List Int} {load : Int}
    {k : Nat} (h : Holds loads sizes) (hpop : loads.pop? before = some ((load, k), others)) :
    Holds (others.push before (load + 1, k)) (increment sizes k) where
  items := by
    have hload := zipIdx_increment (h.smallest_of_top hpop).2 0
    rw [Nat.zero_add, ← h.items, Heap.items_pop? hpop] at hload
    rw [Heap.items_push]
    refine (add_right_cancel (b := {(load, k)}) ?_).symm
    rw [hload]
    abel
  ordered := (h.ordered.pop?_first before_precedence hpop).1.push before_precedence _

/-- Taking loads off the heap is adding one by one. -/
theorem fillCounts_go_eq (n : Nat) {loads : Heap (Int × Nat)} {sizes : List Int}
    (h : Holds loads sizes) (hsizes : sizes ≠ []) (counts : List Int) :
    ∃ ks, targets (K := K) n sizes = .ok ks ∧ ks.length = n ∧
      fillCounts.go (K := K) n loads counts = .ok (ks.foldl increment counts) := by
  -- The counts are apart from the loads on the heap: both grow at the partition that is on top.
  induction n generalizing loads sizes counts with
  | zero => exact ⟨[], rfl, rfl, rfl⟩
  | succ n ih =>
    obtain ⟨load, k, others, hpop⟩ := h.exists_top hsizes
    obtain ⟨ks, htargets, hlength, hgo⟩ :=
      ih (h.push hpop) (increment_ne_nil hsizes k) (increment counts k)
    refine ⟨k :: ks, ?_, congrArg Nat.succ hlength, ?_⟩
    · rw [targets, leastLoaded_eq (h.smallest_of_top hpop).1]
      show (targets n (increment sizes k) >>= fun others => pure (k :: others)) = _
      rw [htargets]
      rfl
    · rw [fillCounts.go, hpop]
      exact hgo

/-- Counts put on the loads. -/
theorem zipWith_counts (sizes : List Int) (ks : List Nat) :
    List.zipWith (· + ·) sizes ((List.range sizes.length).map fun k => (ks.count k : Int)) =
      ks.foldl increment sizes := by
  refine List.ext_getElem? fun j => ?_
  rw [getElem?_foldl_increment, List.getElem?_zipWith, List.getElem?_map]
  by_cases hj : j < sizes.length
  · rw [List.getElem?_eq_getElem hj, List.getElem?_range hj]
    rfl
  · rw [List.getElem?_eq_none (not_lt.1 hj)]
    rfl

/-- Handing out new scenarios in one pass is adding them one by one: each partition gets as
many as choose it. -/
theorem fillCounts_eq_targets {sizes : List Int} (h : sizes ≠ []) (n : Nat) :
    ∃ ks, targets (K := K) n sizes = .ok ks ∧ ks.length = n ∧
      fillCounts (K := K) sizes n =
        .ok ((List.range sizes.length).map fun k => (ks.count k : Int)) := by
  obtain ⟨ks, htargets, hlength, hgo⟩ :=
    fillCounts_go_eq (K := K) n (holds_ofList sizes) h (sizes.map fun _ => 0)
  refine ⟨ks, htargets, hlength, hgo.trans (congrArg Except.ok (List.ext_getElem? fun j => ?_))⟩
  rw [getElem?_foldl_increment, List.getElem?_map, List.getElem?_map, Option.map_map]
  by_cases hj : j < sizes.length
  · rw [List.getElem?_eq_getElem hj, List.getElem?_range hj]
    simp
  · rw [List.getElem?_eq_none (not_lt.1 hj), List.getElem?_eq_none (by simpa using hj)]
    rfl

/-! ## Balance -/

/-- How far the largest load is above the smallest one. -/
def imbalance (sizes : List Int) : Int := sizes.max?.getD 0 - sizes.min?.getD 0

theorem imbalance_le_iff {sizes : List Int} (h : sizes ≠ []) {d : Int} :
    imbalance sizes ≤ d ↔ ∀ a ∈ sizes, ∀ b ∈ sizes, a - b ≤ d := by
  obtain ⟨most, hmost⟩ := Option.ne_none_iff_exists'.1 (mt List.max?_eq_none_iff.1 h)
  obtain ⟨least, hleast⟩ := Option.ne_none_iff_exists'.1 (mt List.min?_eq_none_iff.1 h)
  rw [imbalance, hmost, hleast, Option.getD_some, Option.getD_some]
  obtain ⟨hmost, hle⟩ := List.max?_eq_some_iff.1 hmost
  obtain ⟨hleast, hge⟩ := List.min?_eq_some_iff.1 hleast
  constructor
  · intro hd a ha b hb
    have := hle a ha
    have := hge b hb
    omega
  · exact fun hd => hd most hmost least hleast

theorem mem_increment {xs : List Int} {i : Nat} {x a : Int} (hx : xs[i]? = some x)
    (ha : a ∈ increment xs i) : a ∈ xs ∨ a = x + 1 := by
  obtain ⟨j, hj⟩ := List.mem_iff_getElem?.1 ha
  rw [getElem?_increment] at hj
  obtain ⟨y, hy, rfl⟩ := Option.map_eq_some_iff.1 hj
  split
  · rename_i hij
    subst hij
    exact Or.inr (by rw [Option.some.inj (hx.symm.trans hy)])
  · exact Or.inl (List.mem_of_getElem? hy)

/-- One more in the least loaded partition. -/
theorem imbalance_increment {sizes : List Int} (h : sizes ≠ []) {k : Nat}
    (hk : smallest sizes = some k) :
    imbalance (increment sizes k) ≤ max 1 (imbalance sizes) := by
  obtain ⟨x, hx⟩ := smallest_eq_some_iff.1 hk
  have hmin : ∀ b ∈ sizes, x ≤ b := by
    intro b hb
    obtain ⟨j, hj⟩ := List.mem_iff_getElem?.1 hb
    exact hx.least j b hj
  have hold := (imbalance_le_iff h).1 (le_refl (imbalance sizes))
  refine (imbalance_le_iff (increment_ne_nil h k)).2 fun a ha b hb => ?_
  have hxmem := List.mem_of_getElem? hx.load
  -- The load that grew was the least one, so it is now at most one above any other.
  rcases mem_increment hx.load ha with ha | rfl <;> rcases mem_increment hx.load hb with hb | rfl
  · exact (hold a ha b hb).trans (le_max_right _ _)
  · have := hold a ha x hxmem
    omega
  · have := hmin b hb
    omega
  · omega

/-- The first of several choices, and the others. -/
theorem targets_succ {n : Nat} {sizes : List Int} (h : sizes ≠ []) {ks : List Nat}
    (hks : targets (K := K) (n + 1) sizes = .ok ks) : ∃ k others, ks = k :: others ∧
      smallest sizes = some k ∧ targets (K := K) n (increment sizes k) = .ok others := by
  obtain ⟨k, hk⟩ := exists_smallest h
  rw [targets, leastLoaded_eq hk] at hks
  obtain ⟨_, ⟨⟩, hks⟩ := bind_eq_ok_iff.1 hks
  obtain ⟨others, hothers, hks⟩ := bind_eq_ok_iff.1 hks
  cases hks
  exact ⟨k, others, rfl, hk, hothers⟩

/-- Adding one by one to the least loaded partition keeps the balance. -/
theorem imbalance_targets {n : Nat} {sizes : List Int} (h : sizes ≠ []) {ks : List Nat}
    (hks : targets (K := K) n sizes = .ok ks) :
    imbalance (ks.foldl increment sizes) ≤ max 1 (imbalance sizes) := by
  induction n generalizing sizes ks with
  | zero =>
    cases hks
    exact le_max_right _ _
  | succ n ih =>
    obtain ⟨k, others, rfl, hk, hothers⟩ := targets_succ h hks
    have hrest := ih (increment_ne_nil h k) hothers
    have hone := imbalance_increment h hk
    rw [List.foldl_cons]
    omega

/-- Everything that is added is in some partition. -/
theorem sum_targets {n : Nat} {sizes : List Int} (h : sizes ≠ []) {ks : List Nat}
    (hks : targets (K := K) n sizes = .ok ks) :
    (ks.foldl increment sizes).sum = sizes.sum + n := by
  induction n generalizing sizes ks with
  | zero =>
    cases hks
    exact (add_zero _).symm
  | succ n ih =>
    obtain ⟨k, others, rfl, hk, hothers⟩ := targets_succ h hks
    rw [List.foldl_cons, ih (increment_ne_nil h k) hothers, sum_increment (smallest_lt hk)]
    omega

end Recourse.Policy
