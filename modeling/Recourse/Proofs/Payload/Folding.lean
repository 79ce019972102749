/-
  Proofs/Payload/Folding.lean --- scenarios folded at once and in groups.

  A scenario counts with its share in the mass of all.  Folding scenarios group by group, and
  then what the groups come to, weighed by their masses, is folding all of them: a share in a
  group times the share of the group is a share in the whole, and the payloads are of one
  structure if they are in every group and the groups agree (`folds_of_groups`).  What is
  folded may be put in another order, and scenarios without mass may be left out as long as
  their numbers are finite and they have the structure of what is kept (`Regrouped.alike`).
-/
import Recourse.Proofs.Number.Infinite
import Recourse.Proofs.Payload.Expectation
import Recourse.Proofs.Program.Weighing

set_option autoImplicit false
set_option linter.unusedSectionVars false

namespace Recourse

namespace Value

variable {K : Type} [Scalar K] {weights weights' : List K} {vs ws : List (Value K)}
  {v w e e' : Value K}

/-! ## Likeness -/

theorem Uniform.of_subset (h : Uniform vs) (hsub : ∀ w ∈ ws, w ∈ vs) : Uniform ws :=
  fun v hv => ⟨(h v (hsub v hv)).1, fun w hw => (h v (hsub v hv)).2 w (hsub w hw)⟩

/-- Payloads have an expectation as soon as others of their structures have one. -/
theorem Uniform.of_sameForm (h : Uniform vs) (hlike : ∀ w ∈ ws, ∃ v ∈ vs, v.SameForm w) :
    Uniform ws := by
  intro w hw
  obtain ⟨v, hv, hvw⟩ := hlike w hw
  refine ⟨hvw.solid (h v hv).1, fun w' hw' => ?_⟩
  obtain ⟨v', hv', hvw'⟩ := hlike w' hw'
  exact hvw.symm.trans (((h v hv).2 v' hv').trans hvw')

/-- How many numbers go with a form. -/
def Form.count : Form → Nat
  | .number => 1
  | .array shape => volume shape
  | _ => 0

theorem Form.count_ofShape (shape : List Nat) : (ofShape shape).count = volume shape := by
  unfold ofShape
  split
  · rename_i h
    rw [h]
    rfl
  · rfl

theorem WellMade.length_numbers (h : v.WellMade) : v.numbers.length = v.form.count := by
  cases v with
  | array shape xs => exact h.trans (Form.count_ofShape shape).symm
  | wholeArray shape ns =>
    exact (List.length_map ..).trans (h.trans (Form.count_ofShape shape).symm)
  | _ => rfl

/-- The number of numbers at the end of a path depends on the form there alone. -/
theorem length_numbersAt (hv : v.Proper) (hw : w.Proper) {path : List Label}
    (h : v.formAt path = w.formAt path) :
    (v.numbersAt path).length = (w.numbersAt path).length := by
  have hcount (u : Value K) (hu : u.Proper) :
      (u.numbersAt path).length = ((u.formAt path).map Form.count).getD 0 := by
    unfold numbersAt formAt
    cases hpart : u.part? path with
    | none => rfl
    | some a => exact (hu path a hpart).length_numbers
  rw [hcount v hv, hcount w hw, h]

/-- Payloads of one structure with the same number in every place hold the same data. -/
theorem same_of_entries (hv : v.Proper) (hw : w.Proper) (hform : v.SameForm w)
    (hentry : ∀ path j, j < (v.numbersAt path).length → j < (w.numbersAt path).length →
      v.entry path j = w.entry path j) : v.Same w := by
  refine fun path => ⟨hform path, List.ext_getElem (length_numbersAt hv hw (hform path)) ?_⟩
  intro j hj hj'
  have hj'' := hentry path j hj hj'
  rw [entry, entry, List.getD_eq_getElem?_getD, List.getD_eq_getElem?_getD,
    List.getElem?_eq_getElem hj, List.getElem?_eq_getElem hj'] at hj''
  exact hj''

/-- A payload with the form of one that is no sequence is none either. -/
theorem isSequence_congr (h : v.form = w.form) (hv : v.isSequence = false) :
    w.isSequence = false := by
  cases w with
  | list | tuple | named =>
    cases v with
    | array s | wholeArray s => exact absurd h (Form.ofShape_ne_structured s _ _)
    | _ => first | cases h | cases hv
  | _ => rfl

/-- Payloads that may meet can be folded, whichever comes first. -/
theorem Aligned.precedes (h : v.Aligned w) : v.Precedes w := by
  intro path a b ha hb
  obtain ⟨hab, hba⟩ := h path a b ha hb
  cases a with
  | whole | real =>
    intro hb hform
    obtain ha | ⟨hne, -⟩ := hba.1 hb
    · cases ha
    · exact hne hform
  | array s | wholeArray s =>
    obtain hb | ⟨hne, hb⟩ := hab.1 rfl
    · exact .inl (.inl hb)
    · exact .inr ⟨fun hs => hne (if_pos hs), hb⟩
  | textArray => exact hab.2 rfl
  | _ => trivial

/-- Averages of payloads that may meet can be folded in their turn. -/
theorem Averages.precedes (h : Averages weights vs e) (h' : Averages weights' ws e') (hv : v ∈ vs)
    (hw : w ∈ ws) (hsolid : v.Solid) (hsolid' : w.Solid) (haligned : v.Aligned w) :
    e.Precedes e' := by
  intro path a b ha hb
  -- what is found in the averages has the form of what is found in the payloads
  obtain ⟨a', ha', hform⟩ := Option.map_eq_some_iff.1
    ((h.sameForm v hv path).symm.trans (congrArg (Option.map form) ha))
  obtain ⟨b', hb', hform'⟩ := Option.map_eq_some_iff.1
    ((h'.sameForm w hw path).symm.trans (congrArg (Option.map form) hb))
  have hother : a.form ≠ .other := fun ho => hsolid path (by rw [formAt, ha', ← ho, ← hform]; rfl)
  have hother' : b.form ≠ .other :=
    fun ho => hsolid' path (by rw [formAt, hb', ← ho, ← hform']; rfl)
  cases a with
  | whole | real => exact h'.settled path b hb
  | array s | wholeArray s =>
    have hs : s ≠ [] := fun hs => h.settled path _ ha rfl (if_pos hs)
    have harray : a'.isArray = true := by
      have hs : a'.form = .array s := hform.trans (if_neg hs)
      cases a' <;> first | rfl | cases hs
    obtain hnumeric | ⟨-, hsequence, -⟩ := ((haligned path a' b' ha' hb').1).1 harray
    · exact .inl (isNumeric_of_form (hform'.symm.trans (IsNumeric.form_eq (.inl hnumeric))))
    · refine .inr ⟨hs, isSequence_congr hform' hsequence, ?_⟩
      cases b <;> first | rfl | exact absurd rfl hother'
  | textArray => exact absurd rfl hother
  | _ => trivial

/-- Payloads each of which may be the first have their expectation. -/
theorem expectation_expects (hne : vs ≠ []) (hlength : weights.length = vs.length)
    (hproper : ∀ v ∈ vs, v.Proper) (hprecedes : ∀ v ∈ vs, ∀ w ∈ vs, v.Precedes w) :
    Expects weights vs (expectation vs weights) := by
  obtain ⟨first, others, rfl⟩ := List.exists_cons_of_ne_nil hne
  exact expect_expects first others hlength hproper fun w hw =>
    hprecedes first List.mem_cons_self w (List.mem_cons_of_mem first hw)

end Value

/-! ## Shares -/

namespace Scenario

section Scalar

variable {K : Type} [Scalar K]

/-- The payloads of scenarios. -/
def payloads (L : List (Scenario K)) : List (Value K) := L.map (·.data)

/-- The share of each scenario in the mass of all. -/
def shares (L : List (Scenario K)) : List K := L.map fun s => s.probability / mass L

/-- The probabilities are weights. -/
def Weighted (L : List (Scenario K)) : Prop := ∀ s ∈ L, Scalar.isWeight s.probability = true

/-- The scenarios have a mass. -/
def Heavy (L : List (Scenario K)) : Prop := Scalar.atMost (mass L) 0 = false

/-- The payloads are well made, and any of them may meet any other. -/
structure Compatible (L : List (Scenario K)) : Prop where
  /-- Each payload is well made. -/
  proper : ∀ s ∈ L, s.data.Proper
  /-- Each payload may meet each. -/
  aligned : ∀ s ∈ L, ∀ s' ∈ L, s.data.Aligned s'.data

theorem Compatible.of_subset {L L' : List (Scenario K)} (h : Compatible L)
    (hsub : ∀ s ∈ L', s ∈ L) : Compatible L' :=
  ⟨fun s hs => h.proper s (hsub s hs), fun s hs s' hs' => h.aligned s (hsub s hs) s' (hsub s' hs')⟩

/-- The payloads of scenarios have an expectation, and this is it. -/
def FoldsTo (L : List (Scenario K)) (e : Value K) : Prop :=
  Value.Uniform (payloads L) ∧ Value.Averages (shares L) (payloads L) e

/-- An outcome as it should be: the payloads are folded, or refused. -/
def Folds (L : List (Scenario K)) (r : Except (Fault K) (Value K)) : Prop :=
  Value.Expects (shares L) (payloads L) r

/-- A number in one place of each payload, weighed with the shares in a total mass. -/
def summands (total : K) (L : List (Scenario K)) (path : List Value.Label) (j : Nat) : List K :=
  L.map fun s => s.probability / total * s.data.entry path j

theorem dot_shares (L : List (Scenario K)) (path : List Value.Label) (j : Nat) :
    Scalar.dot (shares L) ((payloads L).map fun v => v.entry path j) =
      Scalar.sum (summands (mass L) L path j) := by
  rw [Scalar.dot, shares, payloads, List.map_map, List.zipWith_map, List.zipWith_self]
  rfl

end Scalar

variable {F : Type} [Field F] [LinearOrder F] [IsStrictOrderedRing F] [FloorRing F]
  {L L' X Y : List (Scenario (Exact F))}

theorem mass_append (L L' : List (Scenario (Exact F))) : mass (L ++ L') = mass L + mass L' := by
  rw [mass, List.map_append, Exact.sum_append, mass, mass]

theorem mass_perm (h : L.Perm L') : mass L = mass L' := Exact.sum_perm (h.map _)

theorem Weighted.exists_mass (h : Weighted L) : ∃ m, 0 ≤ m ∧ mass L = .finite m := by
  obtain ⟨ys, hys, hweights⟩ := Exact.exists_weights (List.forall_mem_map.2 h)
  refine ⟨ys.sum, List.sum_nonneg fun y hy => (hweights y hy).1, ?_⟩
  rw [mass, hys, Exact.sum_finite]

theorem Heavy.exists_mass (hheavy : Heavy L) (h : Weighted L) :
    ∃ m, 0 < m ∧ mass L = .finite m := by
  obtain ⟨m, hm, hmass⟩ := h.exists_mass
  refine ⟨m, hm.lt_of_ne' fun hzero => ?_, hmass⟩
  rw [Heavy, hmass, hzero, Exact.zero_eq, Exact.atMost_finite, decide_eq_false_iff_not] at hheavy
  exact hheavy le_rfl

theorem Heavy.ne_nil (h : Heavy L) : L ≠ [] := by
  rintro rfl
  have hzero : Scalar.atMost (mass ([] : List (Scenario (Exact F)))) 0 = true := by
    rw [mass, List.map_nil, Exact.sum_nil, Exact.zero_eq, Exact.atMost_finite]
    exact decide_eq_true le_rfl
  rw [Heavy, hzero] at h
  cases h

theorem heavy_of_mass {m : F} (hm : 0 < m) (h : mass L = .finite m) : Heavy L := by
  rw [Heavy, h, Exact.zero_eq, Exact.atMost_finite, decide_eq_false_iff_not]
  exact hm.not_ge

/-- Scenarios with a mass whose payloads may meet are folded. -/
theorem Compatible.folds (h : Compatible L) (hheavy : Heavy L) :
    Folds L (Value.expectation (payloads L) (shares L)) := by
  refine Value.expectation_expects ?_ ?_ (List.forall_mem_map.2 h.proper) ?_
  · rw [payloads, Ne, List.map_eq_nil_iff]
    exact hheavy.ne_nil
  · rw [shares, payloads, List.length_map, List.length_map]
  · rw [payloads]
    simp only [List.forall_mem_map]
    exact fun s hs s' hs' => (h.aligned s hs s' hs').precedes

/-- Scenarios have a mass as soon as a group of them has one. -/
theorem Heavy.flatMap {α : Type} {f : α → List (Scenario (Exact F))} {as : List α} {a : α}
    (ha : a ∈ as) (h : Heavy (f a)) (hweighted : Weighted (as.flatMap f)) :
    Heavy (as.flatMap f) := by
  obtain ⟨before, after, rfl⟩ := List.append_of_mem ha
  rw [List.flatMap_append, List.flatMap_cons] at hweighted ⊢
  obtain ⟨hbefore, hrest⟩ := List.forall_mem_append.1 hweighted
  obtain ⟨hgroup, hafter⟩ := List.forall_mem_append.1 hrest
  obtain ⟨b, hb, hmassb⟩ := Weighted.exists_mass hbefore
  obtain ⟨m, hm, hmass⟩ := h.exists_mass hgroup
  obtain ⟨c, hc, hmassc⟩ := Weighted.exists_mass hafter
  refine heavy_of_mass (m := b + (m + c)) (by linarith) ?_
  rw [mass_append, mass_append, hmassb, hmass, hmassc, Exact.finite_add, Exact.finite_add]

/-- Scenarios without a mass have no probability. -/
theorem massless_of_light (hweighted : Weighted L) (hlight : ¬Heavy L) {s : Scenario (Exact F)}
    (hs : s ∈ L) : s.probability = 0 := by
  obtain ⟨x, hx, hpos, -⟩ := (Exact.isWeight_iff _).1 (hweighted s hs)
  rw [hx, Exact.zero_eq]
  by_contra hne
  have hsingle : Heavy [s] := by
    refine heavy_of_mass (m := x) (hpos.lt_of_ne' fun h => hne (congrArg _ h)) ?_
    rw [mass, List.map_singleton, hx, Exact.sum_cons, Exact.sum_nil, Exact.finite_add, add_zero]
  have hall : L.flatMap (fun s => [s]) = L := List.flatMap_singleton' L
  have hheavy := hsingle.flatMap (f := fun s => [s]) hs (by rwa [hall])
  rw [hall] at hheavy
  exact hlight hheavy

/-! ## Groups -/

variable {parts : List (List (Scenario (Exact F)) × Value (Exact F))}

/-- A share in a group, times the share of the group, is a share in the whole. -/
theorem share_of_share (hheavy : Heavy L) (hweighted : Weighted L) {total : F} (htotal : 0 < total)
    (path : List Value.Label) (j : Nat) :
    mass L / .finite total * Scalar.sum (summands (mass L) L path j) =
      Scalar.sum (summands (.finite total) L path j) := by
  obtain ⟨m, hm, hmass⟩ := hheavy.exists_mass hweighted
  rw [hmass, Exact.finite_div htotal.ne', Exact.finite_mul_sum, summands, summands, List.map_map]
  refine congrArg Scalar.sum (List.map_congr_left fun s hs => ?_)
  obtain ⟨x, hx, -⟩ := (Exact.isWeight_iff _).1 (hweighted s hs)
  rw [Function.comp_apply, hx, Exact.finite_div hm.ne', Exact.finite_div htotal.ne',
    Exact.finite_mul_mul (div_pos hm htotal), div_mul_div_comm, mul_comm total m,
    mul_div_mul_left x total hm.ne']

/-- Every payload in a group has the structure of what the group folds to. -/
theorem exists_group (hparts : ∀ t ∈ parts, FoldsTo t.1 t.2) {v : Value (Exact F)}
    (hv : v ∈ payloads (parts.flatMap (·.1))) : ∃ e ∈ parts.map (·.2), e.SameForm v := by
  obtain ⟨s, hs, rfl⟩ := List.mem_map.1 hv
  obtain ⟨t, ht, hs⟩ := List.mem_flatMap.1 hs
  exact ⟨t.2, List.mem_map.2 ⟨t, ht, rfl⟩, (hparts t ht).2.sameForm _ (List.mem_map.2 ⟨s, hs, rfl⟩)⟩

/-- What a group folds to has the structure of a payload in it. -/
theorem exists_payload (hparts : ∀ t ∈ parts, Heavy t.1 ∧ FoldsTo t.1 t.2)
    {t : List (Scenario (Exact F)) × Value (Exact F)} (ht : t ∈ parts) :
    ∃ s ∈ t.1, s ∈ parts.flatMap (·.1) ∧ s.data ∈ payloads t.1 ∧ t.2.SameForm s.data := by
  obtain ⟨s, hs⟩ := List.exists_mem_of_ne_nil _ (hparts t ht).1.ne_nil
  have hdata : s.data ∈ payloads t.1 := List.mem_map.2 ⟨s, hs, rfl⟩
  exact ⟨s, hs, List.mem_flatMap.2 ⟨t, ht, hs⟩, hdata, (hparts t ht).2.2.sameForm _ hdata⟩

theorem foldsTo_of_groups (hparts : ∀ t ∈ parts, Heavy t.1 ∧ FoldsTo t.1 t.2)
    (hweighted : Weighted (parts.flatMap (·.1))) (hheavy : Heavy (parts.flatMap (·.1)))
    {e : Value (Exact F)} (huniform : Value.Uniform (parts.map (·.2)))
    (haverage : Value.Averages (parts.map fun t => mass t.1 / mass (parts.flatMap (·.1)))
      (parts.map (·.2)) e) : FoldsTo (parts.flatMap (·.1)) e := by
  refine ⟨huniform.of_sameForm fun v hv => exists_group (fun t ht => (hparts t ht).2) hv,
    haverage.proper, haverage.settled, fun v hv => ?_, fun path j hj => ?_⟩
  · obtain ⟨e', he', hlike⟩ := exists_group (fun t ht => (hparts t ht).2) hv
    exact (haverage.sameForm e' he').trans hlike
  · obtain ⟨total, htotal, hmass⟩ := hheavy.exists_mass hweighted
    have hgroup (t : List (Scenario (Exact F)) × Value (Exact F)) (ht : t ∈ parts) :
        mass t.1 / mass (parts.flatMap (·.1)) * t.2.entry path j =
          Scalar.sum (summands (mass (parts.flatMap (·.1))) t.1 path j) := by
      have hlike := haverage.sameForm t.2 (List.mem_map.2 ⟨t, ht, rfl⟩)
      have hlength := Value.length_numbersAt haverage.proper (hparts t ht).2.2.proper (hlike path)
      rw [(hparts t ht).2.2.entry path j (hlength ▸ hj), dot_shares, hmass]
      exact share_of_share (hparts t ht).1
        (fun s hs => hweighted s (List.mem_flatMap.2 ⟨t, ht, hs⟩)) htotal path j
    calc e.entry path j
        = Scalar.sum (parts.map fun t =>
            mass t.1 / mass (parts.flatMap (·.1)) * t.2.entry path j) := by
          rw [haverage.entry path j hj, Scalar.dot, List.map_map, List.zipWith_map,
            List.zipWith_self]
          rfl
      _ = Scalar.sum (parts.map fun t =>
            Scalar.sum (summands (mass (parts.flatMap (·.1))) t.1 path j)) :=
          congrArg Scalar.sum (List.map_congr_left hgroup)
      _ = Scalar.sum (summands (mass (parts.flatMap (·.1))) (parts.flatMap (·.1)) path j) := by
          rw [summands, List.map_flatMap, Exact.sum_flatMap]
          rfl
      _ = Scalar.dot (shares (parts.flatMap (·.1)))
            ((payloads (parts.flatMap (·.1))).map fun v => v.entry path j) :=
          (dot_shares _ path j).symm

/-- What groups of scenarios fold to is folded in its turn with the masses of the groups, and
this comes to what all of the scenarios fold to. -/
theorem folds_of_groups (hparts : ∀ t ∈ parts, Heavy t.1 ∧ FoldsTo t.1 t.2)
    (hweighted : Weighted (parts.flatMap (·.1))) (hheavy : Heavy (parts.flatMap (·.1)))
    (hcompatible : Compatible (parts.flatMap (·.1))) :
    Folds (parts.flatMap (·.1)) (Value.expectation (parts.map (·.2))
      (parts.map fun t => mass t.1 / mass (parts.flatMap (·.1)))) := by
  have hprecedes : ∀ t ∈ parts, ∀ t' ∈ parts, t.2.Precedes t'.2 := by
    intro t ht t' ht'
    obtain ⟨s, -, hs, hdata, -⟩ := exists_payload hparts ht
    obtain ⟨s', -, hs', hdata', -⟩ := exists_payload hparts ht'
    exact (hparts t ht).2.2.precedes (hparts t' ht').2.2 hdata hdata'
      ((hparts t ht).2.1 _ hdata).1 ((hparts t' ht').2.1 _ hdata').1
      (hcompatible.aligned s hs s' hs')
  have hne : parts.map (·.2) ≠ [] := by
    intro hnil
    rw [List.map_eq_nil_iff] at hnil
    exact hheavy.ne_nil (by rw [hnil]; rfl)
  refine Settles.mono (Value.expectation_expects hne (by simp)
    (List.forall_mem_map.2 fun t ht => (hparts t ht).2.2.proper)
    (by simpa only [List.forall_mem_map] using hprecedes)) (fun e he => ?_)
    fun f hf => ⟨fun huniform => hf.1 ?_, hf.2⟩
  · exact foldsTo_of_groups hparts hweighted hheavy he.1 he.2
  · refine huniform.of_sameForm fun e he => ?_
    obtain ⟨t, ht, rfl⟩ := List.mem_map.1 he
    obtain ⟨s, -, hs, -, hlike⟩ := exists_payload hparts ht
    exact ⟨s.data, List.mem_map.2 ⟨s, hs, rfl⟩, hlike.symm⟩

/-! ## What may be left out -/

/-- A scenario that changes nothing among others: it has no mass, its numbers are finite, and
the payload of one of the others has the same structure. -/
structure Harmless (L : List (Scenario (Exact F))) (s : Scenario (Exact F)) : Prop where
  /-- It has no mass. -/
  massless : s.probability = 0
  /-- Its numbers are finite. -/
  finite : ∀ path, ∀ x ∈ s.data.numbersAt path, Scalar.isFinite x = true
  /-- Its structure is that of another one. -/
  sameForm : ∃ s' ∈ L, s'.data.SameForm s.data

theorem Harmless.summands_eq (hX : ∀ s ∈ X, Harmless L s) {total : F} (htotal : total ≠ 0)
    (path : List Value.Label) (j : Nat) :
    Scalar.sum (summands (.finite total) X path j) = .finite 0 := by
  have hzero (s : Scenario (Exact F)) (hs : s ∈ X) :
      s.probability / .finite total * s.data.entry path j = .finite 0 := by
    obtain ⟨y, hy⟩ : ∃ y, s.data.entry path j = .finite y := by
      rw [Value.entry, List.getD_eq_getElem?_getD]
      cases hx : (s.data.numbersAt path)[j]? with
      | none => exact ⟨0, rfl⟩
      | some x => exact (Exact.isFinite_iff x).1 ((hX s hs).finite path x (List.mem_of_getElem? hx))
    rw [(hX s hs).massless, Exact.zero_eq, Exact.finite_div htotal, zero_div, hy, Exact.finite_mul,
      zero_mul]
  induction X with
  | nil => rfl
  | cons s X ih =>
    rw [List.forall_mem_cons] at hX hzero
    have hrest := ih hX.2 hzero.2
    rw [summands] at hrest ⊢
    rw [List.map_cons, Exact.sum_cons, hzero.1, hrest, Exact.finite_add, add_zero]

theorem Harmless.mass_append (hX : ∀ s ∈ X, Harmless L s) : mass (L ++ X) = mass L := by
  have hzero : mass X = .finite 0 := by
    induction X with
    | nil => rfl
    | cons s X ih =>
      rw [List.forall_mem_cons] at hX
      have hrest := ih hX.2
      rw [mass] at hrest ⊢
      rw [List.map_cons, Exact.sum_cons, hX.1.massless, hrest, Exact.zero_eq, Exact.finite_add,
        add_zero]
  rw [Scenario.mass_append, hzero, Exact.add_comm, Exact.zero_add]

/-- Two lists of scenarios differ in their order, and in harmless scenarios. -/
def Regrouped (L L' : List (Scenario (Exact F))) : Prop :=
  ∃ X Y, (L ++ X).Perm (L' ++ Y) ∧ (∀ s ∈ X, Harmless L s) ∧ ∀ s ∈ Y, Harmless L' s

namespace Regrouped

theorem symm (h : Regrouped L L') : Regrouped L' L := by
  obtain ⟨X, Y, hperm, hX, hY⟩ := h
  exact ⟨Y, X, hperm.symm, hY, hX⟩

theorem mass_eq (h : Regrouped L L') : mass L' = mass L := by
  obtain ⟨X, Y, hperm, hX, hY⟩ := h
  rw [← Harmless.mass_append hX, ← Harmless.mass_append hY, mass_perm hperm]

/-- Every payload has the structure of one on the other side. -/
theorem exists_sameForm (h : Regrouped L L') {v : Value (Exact F)} (hv : v ∈ payloads L) :
    ∃ w ∈ payloads L', w.SameForm v := by
  obtain ⟨X, Y, hperm, -, hY⟩ := h
  obtain ⟨s, hs, rfl⟩ := List.mem_map.1 hv
  rcases List.mem_append.1 (hperm.mem_iff.1 (List.mem_append_left X hs)) with hs | hs
  · exact ⟨s.data, List.mem_map.2 ⟨s, hs, rfl⟩, .refl _⟩
  · obtain ⟨s', hs', hlike⟩ := (hY s hs).sameForm
    exact ⟨s'.data, List.mem_map.2 ⟨s', hs', rfl⟩, hlike⟩

theorem uniform (h : Regrouped L L') (huniform : Value.Uniform (payloads L)) :
    Value.Uniform (payloads L') :=
  huniform.of_sameForm fun _ hv => h.symm.exists_sameForm hv

theorem summands_eq (h : Regrouped L L') {total : F} (htotal : total ≠ 0)
    (path : List Value.Label) (j : Nat) :
    Scalar.sum (summands (.finite total) L path j) =
      Scalar.sum (summands (.finite total) L' path j) := by
  obtain ⟨X, Y, hperm, hX, hY⟩ := h
  have hall (M Z : List (Scenario (Exact F))) (hZ : ∀ s ∈ Z, Harmless M s) :
      Scalar.sum (summands (.finite total) M path j) =
        Scalar.sum (summands (.finite total) (M ++ Z) path j) := by
    have happend : summands (.finite total) (M ++ Z) path j =
        summands (.finite total) M path j ++ summands (.finite total) Z path j := List.map_append
    rw [happend, Exact.sum_append, Harmless.summands_eq hZ htotal, Exact.add_comm, Exact.zero_add]
  rw [hall L X hX, hall L' Y hY]
  exact Exact.sum_perm (hperm.map _)

/-- Both sides fold to the same data. -/
theorem same (h : Regrouped L L') (hweighted : Weighted L) (hheavy : Heavy L)
    {e e' : Value (Exact F)} (he : FoldsTo L e) (he' : FoldsTo L' e') : e.Same e' := by
  obtain ⟨total, htotal, hmass⟩ := hheavy.exists_mass hweighted
  obtain ⟨s, hs⟩ := List.exists_mem_of_ne_nil _ hheavy.ne_nil
  have hdata : s.data ∈ payloads L := List.mem_map.2 ⟨s, hs, rfl⟩
  obtain ⟨w, hw, hlike⟩ := h.exists_sameForm hdata
  have hform : e.SameForm e' :=
    ((he.2.sameForm _ hdata).trans hlike.symm).trans (he'.2.sameForm w hw).symm
  refine Value.same_of_entries he.2.proper he'.2.proper hform fun path j hj hj' => ?_
  rw [he.2.entry path j hj, he'.2.entry path j hj', dot_shares, dot_shares, h.mass_eq, hmass]
  exact h.summands_eq htotal.ne' path j

/-- Both sides fold to the same data, or both are refused. -/
theorem alike (h : Regrouped L L') (hweighted : Weighted L) (hheavy : Heavy L)
    {r r' : Except (Fault (Exact F)) (Value (Exact F))} (hr : Folds L r) (hr' : Folds L' r') :
    (∃ e e', r = .ok e ∧ r' = .ok e' ∧ e.Same e') ∨
      ∃ t t', r = .error (.notExpectable t) ∧ r' = .error (.notExpectable t') := by
  cases r with
  | ok e =>
    cases r' with
    | ok e' => exact .inl ⟨e, e', rfl, rfl, h.same hweighted hheavy hr hr'⟩
    | error f' => exact absurd (h.uniform hr.1) hr'.1
  | error f =>
    cases r' with
    | ok e' => exact absurd (h.symm.uniform hr'.1) hr.1
    | error f' =>
      obtain ⟨t, rfl⟩ := hr.2
      obtain ⟨t', rfl⟩ := hr'.2
      exact .inr ⟨t, t', rfl, rfl⟩

end Regrouped

end Scenario

end Recourse
