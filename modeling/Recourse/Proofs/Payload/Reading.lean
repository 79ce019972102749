/-
  Proofs/Payload/Reading.lean --- payloads read as arrays.

  Where the first of some payloads is an array, the others only have to be readable as arrays
  of its shape, and a sequence of numbers is.  `Reads` says that a payload can be read so, and
  `reading` which numbers come out.  A sequence reads as the readings of its members one after
  another, and weighted sums can be taken part by part (`weightedArrays_flatMap`); hence
  reading and summing can be exchanged.
-/
import Recourse.Proofs.Payload.Expectation

set_option autoImplicit false
set_option linter.unusedSectionVars false

namespace Recourse

namespace Value

variable {K : Type} [Scalar K] {v w : Value K} {s s' inner : List Nat}

/-! ## Readings -/

/-- A payload read as an array of numbers. -/
def read (v : Value K) : Except (Fault K) (List Nat × List K) := do
  let (shape, entries) ← cells v
  return (shape, ← entries.mapM cellNumber)

/-- The numbers of a payload read as an array. -/
def reading (v : Value K) : List K :=
  match read v with
  | .ok (_, xs) => xs
  | .error _ => []

/-- A payload can be read as an array of a shape. -/
def Reads (s : List Nat) (v : Value K) : Prop := read v = .ok (s, reading v)

theorem reads_of_read {xs : List K} (h : read v = .ok (s, xs)) : v.Reads s ∧ v.reading = xs := by
  have hxs : v.reading = xs := by rw [reading, h]
  exact ⟨by rw [Reads, h, hxs], hxs⟩

theorem Reads.shape_eq (h : v.Reads s) (h' : v.Reads s') : s = s' :=
  congrArg Prod.fst (Except.ok.inj (h.symm.trans h'))

theorem reads_of_cells {cs : List (Value K)} {xs : List K} (h : cells v = .ok (s, cs))
    (hxs : cs.mapM cellNumber = .ok xs) : v.Reads s ∧ v.reading = xs :=
  reads_of_read (bind_eq_ok_iff.2 ⟨_, h, bind_eq_ok_iff.2 ⟨_, hxs, rfl⟩⟩)

theorem Reads.exists_cells (h : v.Reads s) :
    ∃ cs, cells v = .ok (s, cs) ∧ cs.mapM cellNumber = .ok v.reading := by
  obtain ⟨⟨shape, cs⟩, hcells, hrest⟩ := bind_eq_ok_iff.1 h
  obtain ⟨xs, hxs, hpair⟩ := bind_eq_ok_iff.1 hrest
  cases hpair
  exact ⟨cs, hcells, hxs⟩

/-- Numbers and arrays of them read as what they are. -/
theorem IsNumeric.reads (h : v.IsNumeric) : v.Reads v.shape ∧ v.reading = v.numbers :=
  reads_of_cells (cells_eq h.isSequence_eq) h.cellNumbers_eq

theorem isNumeric_ofArray (s : List Nat) (xs : List K) : (ofArray s xs).IsNumeric := by
  unfold ofArray
  split
  · exact .inr rfl
  · exact .inl rfl

/-- An array of sums reads as the sums. -/
theorem reads_ofArray (s : List Nat) (xs : List K) :
    (ofArray s xs).Reads s ∧ (ofArray s xs).reading = xs := by
  have hshape : (ofArray s xs).shape = s ∧ (ofArray s xs).numbers = xs := by
    unfold ofArray
    split <;> exact ⟨rfl, rfl⟩
  have hreads := (isNumeric_ofArray s xs).reads
  rwa [hshape.1, hshape.2] at hreads

/-! ## Sequences -/

/-- The members of a sequence, in order. -/
def row : Value K → List (Value K)
  | .list xs | .tuple xs => xs
  | .named _ fields => fields.map (·.2)
  | _ => []

/-- Members of a sequence read as one array. -/
def readItems (xs : List (Value K)) : Except (Fault K) (List Nat × List K) := do
  let (shape, entries) ← cellsOfItems xs
  return (shape, ← entries.mapM cellNumber)

theorem cellsOfFields_eq (fields : List (String × Value K)) :
    cellsOfFields fields = cellsOfItems (fields.map (·.2)) := by
  induction fields with
  | nil => simp only [cellsOfFields, List.map_nil, cellsOfItems]
  | cons f fields ih => simp only [cellsOfFields, List.map_cons, cellsOfItems, ih]

/-- A sequence is read member by member. -/
theorem read_eq_readItems (h : v.isSequence = true) : read v = readItems v.row := by
  have hcells : cells v = cellsOfItems v.row := by
    cases v with
    | list | tuple => simp only [cells, row]
    | named => simp only [cells, row, cellsOfFields_eq]
    | _ => cases h
  rw [read, readItems, hcells]

theorem readItems_nil : readItems ([] : List (Value K)) = .ok ([0], []) := by
  rw [readItems, cellsOfItems]
  rfl

/-- The outer index of members read as one array counts them. -/
theorem cellsOfItems_shape {xs cs : List (Value K)} (h : cellsOfItems xs = .ok (s, cs)) :
    (xs = [] ∧ s = [0]) ∨ ∃ inner, s = xs.length :: inner ∧ xs ≠ [] := by
  induction xs generalizing s cs with
  | nil =>
    rw [cellsOfItems] at h
    cases h
    exact .inl ⟨rfl, rfl⟩
  | cons x xs ih =>
    rw [cellsOfItems] at h
    obtain ⟨⟨shape, entries⟩, -, h⟩ := bind_eq_ok_iff.1 h
    obtain ⟨⟨outer, others⟩, hrest, h⟩ := bind_eq_ok_iff.1 h
    obtain ⟨rfl, rfl⟩ | ⟨inner, rfl, hne⟩ := ih hrest
    · cases h
      exact .inr ⟨shape, rfl, List.cons_ne_nil x []⟩
    · obtain ⟨y, ys, rfl⟩ := List.exists_cons_of_ne_nil hne
      refine .inr ⟨inner, ?_, List.cons_ne_nil x _⟩
      dsimp only [List.length_cons] at h ⊢
      split at h
      · rename_i heq
        cases heq
      · rename_i heq
        cases heq
        split at h
        · rename_i hshape
          cases h
          rw [hshape]
        · cases h
      · rename_i heq
        cases heq

theorem readItems_eq_ok {xs cs : List (Value K)} {zs : List K} (h : cellsOfItems xs = .ok (s, cs))
    (hzs : cs.mapM cellNumber = .ok zs) : readItems xs = .ok (s, zs) :=
  bind_eq_ok_iff.2 ⟨_, h, bind_eq_ok_iff.2 ⟨_, hzs, rfl⟩⟩

theorem exists_cellsOfItems {xs : List (Value K)} {zs : List K} (h : readItems xs = .ok (s, zs)) :
    ∃ cs, cellsOfItems xs = .ok (s, cs) ∧ cs.mapM cellNumber = .ok zs := by
  obtain ⟨⟨shape, cs⟩, hcells, hrest⟩ := bind_eq_ok_iff.1 h
  obtain ⟨xs, hxs, hpair⟩ := bind_eq_ok_iff.1 hrest
  cases hpair
  exact ⟨cs, hcells, hxs⟩

theorem readItems_singleton {zs : List K} : readItems [v] = .ok (s, zs) ↔
    ∃ inner, s = 1 :: inner ∧ v.Reads inner ∧ zs = v.reading := by
  constructor
  · intro h
    obtain ⟨cs, hcells, hzs⟩ := exists_cellsOfItems h
    rw [cellsOfItems, cellsOfItems] at hcells
    obtain ⟨⟨inner, entries⟩, hv, hcells⟩ := bind_eq_ok_iff.1 hcells
    cases hcells
    obtain ⟨hreads, rfl⟩ := reads_of_cells hv hzs
    exact ⟨inner, rfl, hreads, rfl⟩
  · rintro ⟨inner, rfl, hv, rfl⟩
    obtain ⟨cs, hcells, hcs⟩ := hv.exists_cells
    refine readItems_eq_ok ?_ hcs
    rw [cellsOfItems, cellsOfItems, hcells]
    rfl

theorem readItems_cons {xs : List (Value K)} {zs : List K} (hne : xs ≠ []) :
    readItems (v :: xs) = .ok (s, zs) ↔ ∃ inner zs', readItems xs = .ok (xs.length :: inner, zs') ∧
      v.Reads inner ∧ s = (xs.length + 1) :: inner ∧ zs = v.reading ++ zs' := by
  -- more than one member: the cells of the first stand before those of the others
  have hcons (shape inner : List Nat) (entries others : List (Value K))
      (hv : cells v = .ok (shape, entries))
      (hrest : cellsOfItems xs = .ok (xs.length :: inner, others)) :
      cellsOfItems (v :: xs) = if inner = shape then
        .ok ((xs.length + 1) :: shape, entries ++ others) else .error (.misuse .value) := by
    obtain ⟨y, ys, rfl⟩ := List.exists_cons_of_ne_nil hne
    rw [cellsOfItems, hv, hrest]
    rfl
  constructor
  · intro h
    obtain ⟨cs, hcells, hzs⟩ := exists_cellsOfItems h
    obtain ⟨⟨shape, entries⟩, hv, hrest⟩ :=
      bind_eq_ok_iff.1 ((cellsOfItems.eq_2 v xs).symm.trans hcells)
    obtain ⟨⟨outer, others⟩, hothers, -⟩ := bind_eq_ok_iff.1 hrest
    obtain ⟨hnil, -⟩ | ⟨inner, rfl, -⟩ := cellsOfItems_shape hothers
    · exact absurd hnil hne
    rw [hcons shape inner entries others hv hothers] at hcells
    split at hcells
    · rename_i hshape
      subst hshape
      cases hcells
      rw [List.mapM_append] at hzs
      obtain ⟨xs', hxs', hzs⟩ := bind_eq_ok_iff.1 hzs
      obtain ⟨ys', hys', hzs⟩ := bind_eq_ok_iff.1 hzs
      cases hzs
      obtain ⟨hreads, rfl⟩ := reads_of_cells hv hxs'
      exact ⟨inner, ys', readItems_eq_ok hothers hys', hreads, rfl, rfl⟩
    · cases hcells
  · rintro ⟨inner, zs', hxs, hv, rfl, rfl⟩
    obtain ⟨cs, hcells, hcs⟩ := hv.exists_cells
    obtain ⟨others, hothers, hzs'⟩ := exists_cellsOfItems hxs
    refine readItems_eq_ok ((hcons inner inner cs others hcells hothers).trans (if_pos rfl)) ?_
    rw [List.mapM_append, hcs, hzs']
    rfl

/-- Members are read as one array if all of them are arrays of one shape. -/
theorem readItems_eq_ok_iff {xs : List (Value K)} {zs : List K} (hne : xs ≠ []) :
    readItems xs = .ok (s, zs) ↔
      ∃ inner, s = xs.length :: inner ∧ (∀ x ∈ xs, x.Reads inner) ∧ zs = xs.flatMap reading := by
  induction xs generalizing s zs with
  | nil => exact absurd rfl hne
  | cons x xs ih =>
    by_cases hxs : xs = []
    · subst hxs
      rw [readItems_singleton]
      simp
    · rw [readItems_cons hxs]
      simp only [ih hxs]
      constructor
      · rintro ⟨inner, zs', ⟨inner', hinner, hall, rfl⟩, hx, rfl, rfl⟩
        cases hinner
        exact ⟨inner, rfl, List.forall_mem_cons.2 ⟨hx, hall⟩, rfl⟩
      · rintro ⟨inner, rfl, hall, rfl⟩
        rw [List.forall_mem_cons] at hall
        exact ⟨inner, _, ⟨inner, rfl, hall.2, rfl⟩, hall.1, rfl, rfl⟩

/-! ## Members of sequences -/

/-- The labels of the members of a sequence, in order. -/
def labels : Value K → List Label
  | .list xs | .tuple xs => (List.range xs.length).map .position
  | .named _ fields => fields.map fun f => .key f.1
  | _ => []

/-- The numbers that a member of a payload reads as. -/
def readingAt (v : Value K) (l : Label) : List K := ((v.member? l).map reading).getD []

theorem readingAt_eq {m : Value K} {l : Label} (h : v.member? l = some m) :
    v.readingAt l = m.reading := by
  rw [readingAt, h]
  rfl

theorem labels_congr (h : v.form = w.form) (hv : v.isSequence = true) : w.labels = v.labels := by
  cases v with
  | list xs | tuple xs =>
    cases w with
    | array s | wholeArray s => exact absurd h.symm (Form.ofShape_ne_structured s _ _)
    | list | tuple =>
      simp only [form, Form.structured.injEq] at h
      simp_all [labels]
    | _ => cases h
  | named t fields =>
    cases w with
    | array s | wholeArray s => exact absurd h.symm (Form.ofShape_ne_structured s _ _)
    | named t' fields' =>
      simp only [form, Form.structured.injEq, Kind.named.injEq] at h
      have hlabels (fs : List (String × Value K)) :
          (fs.map fun f => Label.key f.1) = (fs.map (·.1)).map Label.key := by
        rw [List.map_map]
        rfl
      rw [labels, labels, hlabels, hlabels, h.1.2]
    | _ => cases h
  | _ => cases hv

/-- The labels of a sequence lead to its members. -/
theorem forall₂_labels (h : v.isSequence = true) (hwell : v.WellMade) :
    List.Forall₂ (fun l x => v.member? l = some x) v.labels v.row := by
  rw [List.forall₂_iff_get]
  cases v with
  | list xs | tuple xs =>
    refine ⟨by simp [labels, row], fun i hi hi' => ?_⟩
    simp [labels, row, member?, items]
  | named t fields =>
    refine ⟨by simp [labels, row], fun i hi hi' => ?_⟩
    simp only [labels, row, List.get_eq_getElem, List.getElem_map]
    exact Table.find?_eq_of_mem hwell (List.getElem_mem _)
  | _ => cases h

/-- At every label of a sequence there is a member. -/
theorem member_of_labels (h : v.isSequence = true) (hwell : v.WellMade) {l : Label}
    (hl : l ∈ v.labels) : ∃ m, m ∈ v.row ∧ v.member? l = some m := by
  have hrow := forall₂_labels h hwell
  obtain ⟨i, hi, rfl⟩ := List.getElem_of_mem hl
  have hi' : i < v.row.length := hrow.length_eq ▸ hi
  exact ⟨v.row[i], List.getElem_mem hi', hrow.get hi hi'⟩

/-- Every member of a sequence has a label. -/
theorem label_of_row (h : v.isSequence = true) (hwell : v.WellMade) {m : Value K}
    (hm : m ∈ v.row) : ∃ l ∈ v.labels, v.member? l = some m := by
  have hrow := forall₂_labels h hwell
  obtain ⟨i, hi, rfl⟩ := List.getElem_of_mem hm
  have hi' : i < v.labels.length := hrow.length_eq ▸ hi
  exact ⟨v.labels[i], List.getElem_mem hi', hrow.get hi' hi⟩

theorem flatMap_reading {ls : List Label} {xs : List (Value K)}
    (h : List.Forall₂ (fun l x => v.member? l = some x) ls xs) :
    xs.flatMap reading = ls.flatMap v.readingAt := by
  induction h with
  | nil => rfl
  | cons hx _ ih => rw [List.flatMap_cons, List.flatMap_cons, ih, readingAt_eq hx]

/-- A sequence without members reads as an array without entries. -/
theorem reads_of_no_labels (h : v.isSequence = true) (hwell : v.WellMade) (hnil : v.labels = []) :
    v.Reads [0] ∧ v.reading = [] := by
  have hrow := forall₂_labels h hwell
  rw [hnil, List.forall₂_nil_left_iff] at hrow
  refine reads_of_read ?_
  rw [read_eq_readItems h, hrow, readItems_nil]

/-- A sequence is readable if its members are arrays of one shape, and reads as their readings
one after another. -/
theorem reads_sequence_iff {zs : List K} (h : v.isSequence = true) (hwell : v.WellMade)
    (hne : v.labels ≠ []) : v.Reads s ∧ v.reading = zs ↔
      ∃ inner, s = v.labels.length :: inner ∧
        (∀ l ∈ v.labels, ∃ m, v.member? l = some m ∧ m.Reads inner) ∧
        zs = v.labels.flatMap v.readingAt := by
  have hrow := forall₂_labels h hwell
  have hne' : v.row ≠ [] := by
    intro hnil
    rw [hnil, List.forall₂_nil_right_iff] at hrow
    exact hne hrow
  have hread : v.Reads s ∧ v.reading = zs ↔ readItems v.row = .ok (s, zs) := by
    rw [← read_eq_readItems h]
    exact ⟨fun h => h.2 ▸ h.1, reads_of_read⟩
  have hall (inner : List Nat) : (∀ x ∈ v.row, x.Reads inner) ↔
      ∀ l ∈ v.labels, ∃ m, v.member? l = some m ∧ m.Reads inner := by
    constructor
    · intro hx l hl
      obtain ⟨m, hm, hlm⟩ := member_of_labels h hwell hl
      exact ⟨m, hlm, hx m hm⟩
    · intro hl x hx
      obtain ⟨l, hlmem, hlx⟩ := label_of_row h hwell hx
      obtain ⟨m, hlm, hm⟩ := hl l hlmem
      exact Option.some.inj (hlx.symm.trans hlm) ▸ hm
  rw [hread, readItems_eq_ok_iff hne', flatMap_reading hrow, hrow.length_eq]
  simp only [hall]

/-! ## How many numbers there are -/

theorem volume_cons (n : Nat) (s : List Nat) : volume (n :: s) = n * volume s := by
  have hfold (a : Nat) : s.foldl (· * ·) a = a * s.foldl (· * ·) 1 := by
    induction s generalizing a with
    | nil => rw [List.foldl_nil, List.foldl_nil, Nat.mul_one]
    | cons m s ih =>
      rw [List.foldl_cons, List.foldl_cons, ih, ih (1 * m), Nat.one_mul, Nat.mul_assoc]
  rw [volume, List.foldl_cons, Nat.one_mul, hfold, volume]

theorem length_flatMap_of_forall {α β : Type} {n : Nat} {f : α → List β} {ls : List α}
    (h : ∀ l ∈ ls, (f l).length = n) : (ls.flatMap f).length = ls.length * n := by
  induction ls with
  | nil => rw [List.flatMap_nil, List.length_nil, List.length_nil, Nat.zero_mul]
  | cons l ls ih =>
    rw [List.forall_mem_cons] at h
    rw [List.flatMap_cons, List.length_append, h.1, ih h.2, List.length_cons, Nat.succ_mul,
      Nat.add_comm]

/-- A payload that is made in the way of its type reads as one number for every index. -/
theorem Reads.length_reading (h : v.Reads s) (hv : v.Proper) : v.reading.length = volume s := by
  induction v using induction_on_members generalizing s with
  | h v ih =>
    cases hseq : v.isSequence with
    | false =>
      obtain ⟨cs, hcells, hcs⟩ := h.exists_cells
      rw [cells_eq hseq] at hcells
      cases hcells
      rw [← (forall₂_of_mapM hcs).length_eq]
      have hwell := hv.wellMade
      cases v <;> simp_all [cellValues, shape, volume, WellMade]
    | true =>
      by_cases hnil : v.labels = []
      · obtain ⟨hreads, hreading⟩ := reads_of_no_labels hseq hv.wellMade hnil
        rw [hreading, h.shape_eq hreads]
        rfl
      · obtain ⟨inner, rfl, hall, hreading⟩ := (reads_sequence_iff hseq hv.wellMade hnil).1 ⟨h, rfl⟩
        have hmember (l : Label) (hl : l ∈ v.labels) : (v.readingAt l).length = volume inner := by
          obtain ⟨m, hm, hreads⟩ := hall l hl
          rw [readingAt_eq hm]
          exact ih l m hm hreads (hv.member hm)
        rw [hreading, length_flatMap_of_forall hmember, volume_cons]

/-! ## Sums part by part -/

theorem foldl_zipWith_append {α : Type} {a b : Nat} {f g : α → List K} (ps : List (α × K))
    {us vs : List K} (hus : us.length = a) (hvs : vs.length = b)
    (hf : ∀ p ∈ ps, (f p.1).length = a) (hg : ∀ p ∈ ps, (g p.1).length = b) :
    ps.foldl (fun acc p => List.zipWith (fun a x => a + p.2 * x) acc (f p.1 ++ g p.1)) (us ++ vs) =
      ps.foldl (fun acc p => List.zipWith (fun a x => a + p.2 * x) acc (f p.1)) us ++
        ps.foldl (fun acc p => List.zipWith (fun a x => a + p.2 * x) acc (g p.1)) vs := by
  induction ps generalizing us vs with
  | nil => rfl
  | cons p ps ih =>
    rw [List.forall_mem_cons] at hf hg
    rw [List.foldl_cons, List.foldl_cons, List.foldl_cons,
      List.zipWith_append (hus.trans hf.1.symm)]
    refine ih ?_ ?_ hf.2 hg.2
    · rw [List.length_zipWith, hus, hf.1, Nat.min_self]
    · rw [List.length_zipWith, hvs, hg.1, Nat.min_self]

theorem weightedArrays_map {α : Type} (size : Nat) (f : α → List K) (as : List α)
    (weights : List K) : weightedArrays size (as.map f) weights =
      (as.zip weights).foldl (fun acc p => List.zipWith (fun a x => a + p.2 * x) acc (f p.1))
        (Scalar.zeros size) := by
  rw [weightedArrays, List.zip_map_left, List.foldl_map]
  rfl

/-- Arrays in two parts are summed part by part. -/
theorem weightedArrays_append {α : Type} {a b : Nat} {f g : α → List K} {as : List α}
    (weights : List K) (hf : ∀ x ∈ as, (f x).length = a) (hg : ∀ x ∈ as, (g x).length = b) :
    weightedArrays (a + b) (as.map fun x => f x ++ g x) weights =
      weightedArrays a (as.map f) weights ++ weightedArrays b (as.map g) weights := by
  have hzeros : (Scalar.zeros (a + b) : List K) = Scalar.zeros a ++ Scalar.zeros b :=
    List.replicate_add a b 0
  rw [weightedArrays_map, weightedArrays_map, weightedArrays_map, hzeros]
  exact foldl_zipWith_append _ (List.length_replicate ..) (List.length_replicate ..)
    (fun p hp => hf p.1 (List.of_mem_zip hp).1) fun p hp => hg p.1 (List.of_mem_zip hp).1

theorem weightedArrays_zero {arrays : List (List K)} (h : ∀ xs ∈ arrays, xs.length = 0)
    (weights : List K) : weightedArrays 0 arrays weights = [] :=
  List.length_eq_zero_iff.1 (weightedArrays_spec h weights).1

/-- Arrays in several parts of one size are summed part by part. -/
theorem weightedArrays_flatMap {α β : Type} {n : Nat} {f : α → β → List K} {as : List α}
    {ls : List β} (weights : List K) (h : ∀ x ∈ as, ∀ l ∈ ls, (f x l).length = n) :
    weightedArrays (ls.length * n) (as.map fun x => ls.flatMap (f x)) weights =
      ls.flatMap fun l => weightedArrays n (as.map fun x => f x l) weights := by
  induction ls with
  | nil =>
    simp only [List.length_nil, Nat.zero_mul, List.flatMap_nil]
    exact weightedArrays_zero (by simp) weights
  | cons l ls ih =>
    have hls : ∀ x ∈ as, (ls.flatMap (f x)).length = ls.length * n := fun x hx =>
      length_flatMap_of_forall fun l' hl' => h x hx l' (List.mem_cons_of_mem l hl')
    simp only [List.flatMap_cons, List.length_cons, Nat.succ_mul, Nat.add_comm _ n]
    rw [weightedArrays_append weights (fun x hx => h x hx l List.mem_cons_self) hls,
      ih fun x hx l' hl' => h x hx l' (List.mem_cons_of_mem l hl')]

end Value

end Recourse
