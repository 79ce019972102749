/-
  Proofs/Payload/Tower.lean --- expectations of expectations.

  Payloads may be summed group by group, each group with its weights divided by the mass of the
  group, and then the results of the groups with the masses for weights: this gives what all of
  the payloads give at once (`expectation_groups`).  The order in which payloads stand with their
  weights plays no role either, except that a mapping takes its keys in the order of the first
  one (`expectation_perm`).  Both follow the members of the first payload.  Where it is a number or
  an array, what all of them read as is summed entry by entry, and the entries are sums of
  numbers of a field, infinities and undefined values, which may be regrouped and reordered.
-/
import Recourse.Proofs.Payload.Returned
import Mathlib.Data.Rat.Floor

set_option autoImplicit false
set_option linter.unusedSectionVars false

namespace Recourse.Value

/-! ## Equality from the members -/

section Members

variable {K : Type} [Scalar K] {v w : Value K}

/-- What a payload has apart from its members: its form, and everything if it can have none. -/
def face (v : Value K) : Form × Option (Value K) :=
  (v.form, match v.form with
    | .structured _ _ => none
    | _ => some v)

/-- Two payloads are equal up to the order of the keys in mappings: wherever a path leads, both
have the same, apart from the members, which longer paths lead to. -/
def Rearranged (v w : Value K) : Prop :=
  ∀ path, (v.part? path).map face = (w.part? path).map face

theorem Rearranged.refl (v : Value K) : v.Rearranged v := fun _ => rfl

theorem rearranged_of_members {k : Kind} {n : Nat} (hv : v.form = .structured k n)
    (hw : w.form = .structured k n)
    (hmember : ∀ l, (v.member? l = none ∧ w.member? l = none) ∨
      ∃ a b, v.member? l = some a ∧ w.member? l = some b ∧ a.Rearranged b) : v.Rearranged w := by
  intro path
  cases path with
  | nil => exact congrArg some (by rw [face, face, hv, hw])
  | cons l path =>
    rw [part?_cons, part?_cons]
    obtain ⟨hv, hw⟩ | ⟨a, b, ha, hb, hab⟩ := hmember l
    · rw [hv, hw]
    · rw [ha, hb]
      exact hab path

end Members

variable {F : Type} [Field F] [LinearOrder F] [IsStrictOrderedRing F] [FloorRing F] {ι : Type}

/-! ## Sums of arrays -/

/-- Arrays are summed entry by entry. -/
theorem getD_weightedArrays {size : Nat} {f : ι → List (Exact F)} {as : List ι}
    (h : ∀ a ∈ as, (f a).length = size) (w : ι → Exact F) {j : Nat} (hj : j < size) :
    (weightedArrays size (as.map f) (as.map w)).getD j 0 =
      Scalar.sum (as.map fun a => w a * (f a).getD j 0) := by
  rw [(weightedArrays_spec (List.forall_mem_map.2 h) _).2 j hj, Scalar.dot, List.map_map,
    List.zipWith_map, List.zipWith_self]
  rfl

theorem length_weightedArrays {size : Nat} {f : ι → List (Exact F)} {as : List ι}
    (h : ∀ a ∈ as, (f a).length = size) (weights : List (Exact F)) :
    (weightedArrays size (as.map f) weights).length = size :=
  (weightedArrays_spec (List.forall_mem_map.2 h) weights).1

/-- Arrays are equal if they have the same entries. -/
theorem eq_of_getD {size : Nat} {xs ys : List (Exact F)} (hxs : xs.length = size)
    (hys : ys.length = size) (h : ∀ j, j < size → xs.getD j 0 = ys.getD j 0) : xs = ys := by
  refine List.ext_getElem (hxs.trans hys.symm) fun j hj hj' => ?_
  have hentry := h j (hxs ▸ hj)
  rwa [List.getD_eq_getElem?_getD, List.getD_eq_getElem?_getD, List.getElem?_eq_getElem hj,
    List.getElem?_eq_getElem hj'] at hentry

theorem weightedArrays_perm {size : Nat} {f : ι → List (Exact F)} {w : ι → Exact F}
    {as bs : List ι} (hperm : as.Perm bs) (h : ∀ a ∈ as, (f a).length = size) :
    weightedArrays size (as.map f) (as.map w) = weightedArrays size (bs.map f) (bs.map w) := by
  have h' : ∀ b ∈ bs, (f b).length = size := fun b hb => h b (hperm.mem_iff.2 hb)
  refine eq_of_getD (length_weightedArrays h _) (length_weightedArrays h' _) fun j hj => ?_
  rw [getD_weightedArrays h w hj, getD_weightedArrays h' w hj]
  exact Exact.sum_perm (hperm.map _)

/-! ## Groups -/

/-- The mass of a group. -/
def mass (w : ι → F) (g : List ι) : F := (g.map w).sum

/-- The weights of a group, divided by its mass. -/
def shares (w : ι → F) (g : List ι) : List (Exact F) := g.map fun a => .finite (w a / mass w g)

/-- A weight divided by the mass and multiplied by it again is the weight. -/
theorem mass_mul_share {w : ι → F} {g : List ι} (hmass : 0 < mass w g) (a : ι) (x : Exact F) :
    .finite (mass w g) * (.finite (w a / mass w g) * x) = .finite (w a) * x := by
  rw [Exact.finite_mul_mul hmass, mul_div_cancel₀ _ hmass.ne']

/-- Arrays may be summed group by group. -/
theorem weightedArrays_groups {size : Nat} {f : ι → List (Exact F)} {w : ι → F}
    {groups : List (List ι)} (h : ∀ g ∈ groups, ∀ a ∈ g, (f a).length = size)
    (hmass : ∀ g ∈ groups, 0 < mass w g) :
    weightedArrays size (groups.map fun g => weightedArrays size (g.map f) (shares w g))
        (groups.map fun g => .finite (mass w g)) =
      weightedArrays size (groups.flatten.map f) (groups.flatten.map fun a => .finite (w a)) := by
  have hall : ∀ a ∈ groups.flatten, (f a).length = size := fun a ha =>
    have ⟨g, hg, ha⟩ := List.mem_flatten.1 ha
    h g hg a ha
  have hsums : ∀ g ∈ groups, (weightedArrays size (g.map f) (shares w g)).length = size :=
    fun g hg => length_weightedArrays (h g hg) _
  refine eq_of_getD (length_weightedArrays hsums _) (length_weightedArrays hall _) fun j hj => ?_
  rw [getD_weightedArrays hsums _ hj, getD_weightedArrays hall _ hj, List.map_flatten,
    ← List.flatMap_def, Exact.sum_flatMap]
  refine congrArg Scalar.sum (List.map_congr_left fun g hg => ?_)
  rw [shares, getD_weightedArrays (h g hg) _ hj, Exact.finite_mul_sum, List.map_map]
  exact congrArg Scalar.sum (List.map_congr_left fun a _ => mass_mul_share (hmass g hg) a _)

/-! ## Members of indexed payloads -/

/-- The member of a payload one step on, nothing if there is none. -/
def memberOr (v : Value (Exact F)) (l : Label) : Value (Exact F) := (v.member? l).getD .null

theorem memberOr_eq {v m : Value (Exact F)} {l : Label} (h : v.member? l = some m) :
    v.memberOr l = m := by
  rw [memberOr, h, Option.getD_some]

theorem membersAt_map {φ : ι → Value (Exact F)} {as : List ι} {l : Label}
    (h : ∀ v ∈ as.map φ, (v.member? l).isSome = true) :
    membersAt (as.map φ) l = as.map fun a => (φ a).memberOr l := by
  induction as with
  | nil => rfl
  | cons a as ih =>
    rw [List.map_cons, List.forall_mem_cons] at h
    obtain ⟨m, hm⟩ := Option.isSome_iff_exists.1 h.1
    rw [List.map_cons, membersAt_cons hm, List.map_cons, memberOr_eq hm, ih h.2]

theorem proper_memberOr {φ : ι → Value (Exact F)} {as : List ι} {l : Label}
    (h : ∀ v ∈ as.map φ, (v.member? l).isSome = true) (hproper : ∀ a ∈ as, (φ a).Proper) :
    ∀ a ∈ as, ((φ a).memberOr l).Proper := by
  intro a ha
  obtain ⟨m, hm⟩ := Option.isSome_iff_exists.1 (h (φ a) (List.mem_map_of_mem ha))
  rw [memberOr_eq hm]
  exact (hproper a ha).member hm

/-- Results with the same members have none, or one each, one step on. -/
theorem none_or_members {v w : Value (Exact F)} {l : Label}
    (h : (v.member? l).isSome = (w.member? l).isSome) :
    (v.member? l = none ∧ w.member? l = none) ∨
      ∃ c d, v.member? l = some c ∧ w.member? l = some d := by
  cases hv : v.member? l <;> cases hw : w.member? l <;> simp [hv, hw] at h ⊢

/-! ## Regrouping -/

theorem exists_head {w : ι → F} {g : List ι} (hmass : 0 < mass w g) : ∃ a, g.head? = some a := by
  cases g with
  | nil => exact absurd hmass (lt_irrefl 0)
  | cons a g => exact ⟨a, rfl⟩

/-- The first payload of all is the first of the first group. -/
theorem exists_first_group {w : ι → F} {groups : List (List ι)} {a : ι}
    (hmass : ∀ g ∈ groups, 0 < mass w g) (h : groups.flatten.head? = some a) :
    ∃ g, groups.head? = some g ∧ g.head? = some a := by
  cases groups with
  | nil => cases h
  | cons g groups =>
    obtain ⟨b, hb⟩ := exists_head (hmass g List.mem_cons_self)
    rw [List.flatten_cons, List.head?_append, hb] at h
    exact ⟨g, rfl, hb.trans h⟩

theorem head?_map {α : Type} {a : ι} {as : List ι} (h : as.head? = some a) (f : ι → α) :
    (as.map f).head? = some (f a) := by
  rw [List.head?_map, h, Option.map_some]

theorem length_map_eq {α β : Type} (f : ι → α) (g : ι → β) (as : List ι) :
    (as.map f).length = (as.map g).length := by
  rw [List.length_map, List.length_map]

theorem map_ne_nil {α : Type} {a : ι} {as : List ι} (h : as.head? = some a) (f : ι → α) :
    as.map f ≠ [] := by
  rintro hnil
  rw [List.map_eq_nil_iff] at hnil
  rw [hnil] at h
  cases h

/-- Where the first payload is a number or an array, the sums of the groups read as arrays of
its shape, whatever the first payload of a group is. -/
theorem expectation_groups_numeric {w : ι → F} {groups : List (List ι)} {a : ι}
    {φ : ι → Value (Exact F)} {ψ : List ι → Value (Exact F)} {e e' : Value (Exact F)}
    (hmass : ∀ g ∈ groups, 0 < mass w g) (ha : groups.flatten.head? = some a)
    (hnumeric : (φ a).IsNumeric) (hproper : ∀ a ∈ groups.flatten, (φ a).Proper)
    (hwhole : expectation (groups.flatten.map φ)
      (groups.flatten.map fun a => .finite (w a)) = .ok e)
    (hgroups : ∀ g ∈ groups, expectation (g.map φ) (shares w g) = .ok (ψ g))
    (hfinal : expectation (groups.map ψ) (groups.map fun g => .finite (mass w g)) = .ok e') :
    e' = e := by
  obtain ⟨g₀, hg₀, ha₀⟩ := exists_first_group hmass ha
  have hmem₀ := List.mem_of_mem_head? hg₀
  obtain ⟨hreads, rfl⟩ := expectation_numeric (head?_map ha φ) hnumeric (length_map_eq ..) hwhole
  rw [List.forall_mem_map] at hreads
  have hin (g : List ι) (hg : g ∈ groups) : ∀ b ∈ g, (φ b).Proper ∧ (φ b).Reads (φ a).shape :=
    fun b hb => have hb' := List.mem_flatten.2 ⟨g, hg, hb⟩
      ⟨hproper b hb', hreads b hb'⟩
  -- A group may start with a sequence; what comes back is read as an array all the same.
  have hgroup (g : List ι) (hg : g ∈ groups) : (ψ g).Reads (φ a).shape ∧
      (ψ g).reading =
        weightedArrays (volume (φ a).shape) ((g.map φ).map reading) (shares w g) := by
    obtain ⟨b, hb⟩ := exists_head (hmass g hg)
    exact reads_expectation _ _ _ _ (head?_map hb φ) (length_map_eq ..)
      (List.forall_mem_map.2 fun b hb => (hin g hg b hb).1)
      (List.forall_mem_map.2 fun b hb => (hin g hg b hb).2) (hgroups g hg)
  have hψ := (expectation_numeric (head?_map ha₀ φ) hnumeric (length_map_eq ..)
    (hgroups g₀ hmem₀)).2
  have hnumeric₀ : (ψ g₀).IsNumeric := hψ ▸ isNumeric_ofArray _ _
  have hshape := hnumeric₀.reads.1.shape_eq (hgroup g₀ hmem₀).1
  obtain ⟨-, rfl⟩ := expectation_numeric (head?_map hg₀ ψ) hnumeric₀ (length_map_eq ..) hfinal
  have hsize : ∀ g ∈ groups, ∀ b ∈ g, (φ b).reading.length = volume (φ a).shape :=
    fun g hg b hb => (hin g hg b hb).2.length_reading (hin g hg b hb).1
  have hsums : (groups.map ψ).map reading = groups.map fun g =>
      weightedArrays (volume (φ a).shape) (g.map fun b => (φ b).reading) (shares w g) := by
    rw [List.map_map]
    refine List.map_congr_left fun g hg => ?_
    rw [Function.comp_apply, (hgroup g hg).2, List.map_map]
    rfl
  rw [hshape, hsums, weightedArrays_groups hsize hmass, List.map_map]
  rfl

/-- Payloads summed group by group, and then the sums by the masses of the groups, come to what
they are summed to at once. -/
theorem expectation_groups {w : ι → F} {groups : List (List ι)} {a : ι}
    (hmass : ∀ g ∈ groups, 0 < mass w g) (ha : groups.flatten.head? = some a)
    (first : Value (Exact F)) : ∀ (φ : ι → Value (Exact F)) (ψ : List ι → Value (Exact F))
      (e e' : Value (Exact F)), φ a = first → (∀ a ∈ groups.flatten, (φ a).Proper) →
      expectation (groups.flatten.map φ) (groups.flatten.map fun a => .finite (w a)) = .ok e →
      (∀ g ∈ groups, expectation (g.map φ) (shares w g) = .ok (ψ g)) →
      expectation (groups.map ψ) (groups.map fun g => .finite (mass w g)) = .ok e' → e' = e := by
  obtain ⟨g₀, hg₀, ha₀⟩ := exists_first_group hmass ha
  have hmem₀ := List.mem_of_mem_head? hg₀
  have hmem := List.mem_of_mem_head? ha
  -- Along the members of the first payload, which decides about the rule for all groups.
  induction first using induction_on_members with
  | h first ih =>
    rintro φ ψ e e' rfl hproper hwhole hgroups hfinal
    by_cases hnumeric : (φ a).IsNumeric
    · exact expectation_groups_numeric hmass ha hnumeric hproper hwhole hgroups hfinal
    have hwell := (hproper a hmem).wellMade
    have hwhole' := expectation_rebuilt (head?_map ha φ) hnumeric hwell (map_ne_nil ha _) hwhole
    have hgroup (g : List ι) (hg : g ∈ groups) : Rebuilt (shares w g) (g.map φ) (ψ g) := by
      obtain ⟨b, hb⟩ := exists_head (hmass g hg)
      have hb' := List.mem_flatten.2 ⟨g, hg, List.mem_of_mem_head? hb⟩
      exact expectation_rebuilt (head?_map hb φ)
        (hwhole'.not_isNumeric_of_mem (List.mem_map_of_mem hb')) (hproper b hb').wellMade
        (map_ne_nil hb _) (hgroups g hg)
    have hfinal' := expectation_rebuilt (head?_map hg₀ ψ) (hgroup g₀ hmem₀).not_isNumeric
      (hgroup g₀ hmem₀).wellMade (map_ne_nil hg₀ _) hfinal
    have hψ₀ : ψ g₀ ∈ groups.map ψ := List.mem_map_of_mem hmem₀
    have hφ₀ : φ a ∈ g₀.map φ := List.mem_map_of_mem (List.mem_of_mem_head? ha₀)
    obtain ⟨k, n, he, -⟩ := hwhole'.alike
    have he' : e'.form = e.form := (hfinal'.form_eq hψ₀).trans
      (((hgroup g₀ hmem₀).form_eq hφ₀).trans (hwhole'.form_eq (List.mem_map_of_mem hmem)).symm)
    refine eq_of_members (he'.trans he) he hfinal'.wellMade.nodup ?_ fun l => ?_
    · rw [hfinal'.keys_eq _ (head?_map hg₀ ψ), hwhole'.keys_eq _ (head?_map ha φ),
        (hgroup g₀ hmem₀).keys_eq _ (head?_map ha₀ φ)]
    have hsome : (e'.member? l).isSome = (e.member? l).isSome := by
      rw [← hfinal'.member_isSome hψ₀, ← (hgroup g₀ hmem₀).member_isSome hφ₀,
        hwhole'.member_isSome (List.mem_map_of_mem hmem)]
    obtain ⟨hnone', hnone⟩ | ⟨c', c, hc', hc⟩ := none_or_members hsome
    · rw [hnone', hnone]
    · obtain ⟨hall, hexpect⟩ := hwhole'.expectation_member hc
      obtain ⟨hall', hexpect'⟩ := hfinal'.expectation_member hc'
      obtain ⟨m, hm⟩ := Option.isSome_iff_exists.1 (hall (φ a) (List.mem_map_of_mem hmem))
      rw [membersAt_map hall] at hexpect
      rw [membersAt_map hall'] at hexpect'
      rw [hc', hc, ih l m hm (fun b => (φ b).memberOr l) (fun g => (ψ g).memberOr l) c c'
        (memberOr_eq hm) (proper_memberOr hall hproper) hexpect (fun g hg => ?_) hexpect']
      obtain ⟨d, hd⟩ := Option.isSome_iff_exists.1 (hall' (ψ g) (List.mem_map_of_mem hg))
      obtain ⟨hallg, hexpectg⟩ := (hgroup g hg).expectation_member hd
      rw [memberOr_eq hd, ← membersAt_map hallg, hexpectg]

/-! ## Reordering -/

/-- Where the first payload is a number or an array, so is the one that comes first in another
order: what has members goes with neither. -/
theorem expectation_perm_numeric {w : ι → Exact F} {as bs : List ι} {a b : ι}
    {φ : ι → Value (Exact F)} {e e' : Value (Exact F)} (hperm : as.Perm bs)
    (ha : as.head? = some a) (hb : bs.head? = some b) (hnumeric : (φ a).IsNumeric)
    (hproper : ∀ a ∈ as, (φ a).Proper) (h : expectation (as.map φ) (as.map w) = .ok e)
    (h' : expectation (bs.map φ) (bs.map w) = .ok e') : e' = e := by
  have hmem : a ∈ bs := hperm.mem_iff.1 (List.mem_of_mem_head? ha)
  have hmem' : b ∈ as := hperm.mem_iff.2 (List.mem_of_mem_head? hb)
  have hnumeric' : (φ b).IsNumeric := by
    by_contra hmembers
    have hrebuilt := expectation_rebuilt (head?_map hb φ) hmembers (hproper b hmem').wellMade
      (map_ne_nil hb _) h'
    exact hrebuilt.not_isNumeric_of_mem (List.mem_map_of_mem hmem) hnumeric
  obtain ⟨hreads, rfl⟩ := expectation_numeric (head?_map ha φ) hnumeric (length_map_eq ..) h
  obtain ⟨-, rfl⟩ := expectation_numeric (head?_map hb φ) hnumeric' (length_map_eq ..) h'
  rw [List.forall_mem_map] at hreads
  have hsize : ∀ c ∈ as, (φ c).reading.length = volume (φ a).shape :=
    fun c hc => (hreads c hc).length_reading (hproper c hc)
  rw [hnumeric'.reads.1.shape_eq (hreads b hmem'), List.map_map, List.map_map,
    weightedArrays_perm (f := reading ∘ φ) hperm hsize]

/-- Payloads that change places together with their weights are summed to the same, up to the
order of the keys in mappings. -/
theorem expectation_perm {w : ι → Exact F} {as bs : List ι} {a b : ι} (hperm : as.Perm bs)
    (ha : as.head? = some a) (hb : bs.head? = some b) (first : Value (Exact F)) :
    ∀ (φ : ι → Value (Exact F)) (e e' : Value (Exact F)), φ a = first →
      (∀ a ∈ as, (φ a).Proper) → expectation (as.map φ) (as.map w) = .ok e →
      expectation (bs.map φ) (bs.map w) = .ok e' → e'.Rearranged e := by
  have hmem := List.mem_of_mem_head? ha
  have hmem' : b ∈ as := hperm.mem_iff.2 (List.mem_of_mem_head? hb)
  -- Along the members of the payload that comes first before the change.
  induction first using induction_on_members with
  | h first ih =>
    rintro φ e e' rfl hproper h h'
    by_cases hnumeric : (φ a).IsNumeric
    · rw [expectation_perm_numeric hperm ha hb hnumeric hproper h h']
      exact .refl _
    have hrebuilt := expectation_rebuilt (head?_map ha φ) hnumeric (hproper a hmem).wellMade
      (map_ne_nil ha _) h
    have hmember := List.mem_map_of_mem (f := φ) hmem
    have hrebuilt' := expectation_rebuilt (head?_map hb φ)
      (hrebuilt.not_isNumeric_of_mem (List.mem_map_of_mem hmem')) (hproper b hmem').wellMade
      (map_ne_nil hb _) h'
    have hmember' := List.mem_map_of_mem (f := φ) (hperm.mem_iff.1 hmem)
    obtain ⟨k, n, he, -⟩ := hrebuilt.alike
    have he' : e'.form = e.form :=
      (hrebuilt'.form_eq hmember').trans (hrebuilt.form_eq hmember).symm
    refine rearranged_of_members (he'.trans he) he fun l => ?_
    have hsome : (e'.member? l).isSome = (e.member? l).isSome := by
      rw [← hrebuilt'.member_isSome hmember', hrebuilt.member_isSome hmember]
    obtain hnone | ⟨c', c, hc', hc⟩ := none_or_members hsome
    · exact .inl hnone
    · obtain ⟨hall, hexpect⟩ := hrebuilt.expectation_member hc
      obtain ⟨hall', hexpect'⟩ := hrebuilt'.expectation_member hc'
      obtain ⟨m, hm⟩ := Option.isSome_iff_exists.1 (hall (φ a) hmember)
      rw [membersAt_map hall] at hexpect
      rw [membersAt_map hall'] at hexpect'
      exact .inr ⟨c', c, hc', hc, ih l m hm (fun b => (φ b).memberOr l) c c' (memberOr_eq hm)
        (proper_memberOr hall hproper) hexpect hexpect'⟩

/-! ## Both together -/

/-- Weighed payloads may be summed group by group, with the weights in a group divided by its
mass, and then by the masses of the groups: the result is what all of them come to at once.
And wherever they may stand in another order, they come to the same up to the order of the keys
in mappings. -/
theorem expectation_tower :
    (∀ (groups : List (List (Value (Exact F) × F))) (es : List (Value (Exact F)))
        (e e' : Value (Exact F)),
      (∀ p ∈ groups.flatten, p.1.Proper) → (∀ g ∈ groups, 0 < mass (·.2) g) →
      expectation (groups.flatten.map (·.1)) (groups.flatten.map fun p => .finite p.2) = .ok e →
      groups.mapM (fun g => expectation (g.map (·.1)) (shares (·.2) g)) = .ok es →
      expectation es (groups.map fun g => .finite (mass (·.2) g)) = .ok e' → e' = e) ∧
    ∀ (ps qs : List (Value (Exact F) × F)) (e e' : Value (Exact F)),
      ps.Perm qs → (∀ p ∈ ps, p.1.Proper) →
      expectation (ps.map (·.1)) (ps.map fun p => .finite p.2) = .ok e →
      expectation (qs.map (·.1)) (qs.map fun p => .finite p.2) = .ok e' → e'.Rearranged e := by
  have hhead {ps : List (Value (Exact F) × F)} {ws : List (Exact F)} {e : Value (Exact F)}
      (h : expectation (ps.map (·.1)) ws = .ok e) : ∃ p, ps.head? = some p := by
    cases ps with
    | nil => cases h
    | cons p ps => exact ⟨p, rfl⟩
  constructor
  · intro groups es e e' hproper hmass hwhole hgroups hfinal
    obtain ⟨p, hp⟩ := hhead hwhole
    -- every group has one result
    have heach := forall₂_of_mapM hgroups
    let ψ (g : List (Value (Exact F) × F)) : Value (Exact F) :=
      (expectation (g.map (·.1)) (shares (·.2) g)).toOption.getD .null
    have hes : es = groups.map ψ := eq_map_of_forall₂ (heach.imp fun g c hc => by
      show c = Option.getD (Except.toOption _) _
      rw [hc]
      rfl)
    subst hes
    have hψ : ∀ g ∈ groups, expectation (g.map (·.1)) (shares (·.2) g) = .ok (ψ g) := by
      simpa [List.forall₂_map_right_iff, List.forall₂_same] using heach
    exact expectation_groups hmass hp _ _ ψ e e' rfl hproper hwhole hψ hfinal
  · intro ps qs e e' hperm hproper h h'
    obtain ⟨p, hp⟩ := hhead h
    obtain ⟨q, hq⟩ := hhead h'
    exact expectation_perm hperm hp hq _ _ e e' rfl hproper h h'

/-! ### An instance -/

/-- What holds of a result can be observed. -/
theorem exists_ok_of_map {ε α β : Type} {r : Except ε α} {f : α → β} {b : β}
    (h : r.toOption.map f = some b) : ∃ a, r = .ok a ∧ f a = b := by
  cases r with
  | ok a => exact ⟨a, rfl, Option.some.inj h⟩
  | error e => cases h

theorem proper_of_forall {v : Value (Exact F)} (h : v.WellMade) (hitems : ∀ m ∈ v.items, m.Proper)
    (hentries : ∀ f ∈ v.entries, f.2.Proper) : v.Proper := by
  refine proper_of_members h fun l m hm => ?_
  cases l with
  | position i => exact hitems m (List.mem_of_getElem? hm)
  | key name => exact hentries (name, m) (Table.mem_of_find? hm)

/-- The demand for two goods in spring, with the price. -/
def spring : Value (Exact ℚ) × ℚ :=
  (.mapping [("demand", .wholeArray [2] [4, 8]), ("price", .real (.finite 2))], 1 / 4)

/-- In summer, the price comes first. -/
def summer : Value (Exact ℚ) × ℚ :=
  (.mapping [("price", .whole 4), ("demand", .array [2] [.finite 6, .finite 2])], 1 / 4)

/-- In winter, the demand comes as a list. -/
def winter : Value (Exact ℚ) × ℚ :=
  (.mapping [("demand", .list [.whole 1, .whole 3]), ("price", .whole 1)], 1 / 2)

theorem seasons_proper : ∀ p ∈ [spring, summer, winter], p.1.Proper := by
  have hleaf (v : Value (Exact ℚ)) (h : v.WellMade) (hv : v.items = [] ∧ v.entries = []) :
      v.Proper := proper_of_leaf h (member?_of_empty hv.1 hv.2)
  have hmapping (key key' : String) (v v' : Value (Exact ℚ)) (hne : key ≠ key') (hv : v.Proper)
      (hv' : v'.Proper) : (Value.mapping [(key, v), (key', v')]).Proper :=
    proper_of_forall (show ([key, key'] : List String).Nodup by simp [hne])
      (fun _ h => (List.not_mem_nil h).elim) (by simp [entries, hv, hv'])
  have hlist : (Value.list [.whole 1, .whole 3] : Value (Exact ℚ)).Proper :=
    proper_of_forall trivial (List.forall_mem_cons.2
      ⟨hleaf _ trivial ⟨rfl, rfl⟩, List.forall_mem_singleton.2 (hleaf _ trivial ⟨rfl, rfl⟩)⟩)
      (fun _ h => (List.not_mem_nil h).elim)
  simp only [List.mem_cons, List.not_mem_nil, or_false, forall_eq_or_imp, forall_eq]
  exact ⟨hmapping _ _ _ _ (by decide) (hleaf _ rfl ⟨rfl, rfl⟩) (hleaf _ trivial ⟨rfl, rfl⟩),
    hmapping _ _ _ _ (by decide) (hleaf _ trivial ⟨rfl, rfl⟩) (hleaf _ rfl ⟨rfl, rfl⟩),
    hmapping _ _ _ _ (by decide) hlist (hleaf _ trivial ⟨rfl, rfl⟩)⟩

theorem seasons_tower : ∃ es e e' r,
    expectation [spring.1, summer.1, winter.1] [.finite (1 / 4), .finite (1 / 4), .finite (1 / 2)] =
      .ok e ∧
    [[spring, summer], [winter]].mapM (fun g => expectation (g.map (·.1)) (shares (·.2) g)) =
        .ok es ∧
    expectation es [.finite (1 / 2), .finite (1 / 2)] = .ok e' ∧
    expectation [summer.1, spring.1, winter.1] [.finite (1 / 4), .finite (1 / 4), .finite (1 / 2)] =
      .ok r ∧
    e'.numbersAt [.key "demand"] = [.finite 3, .finite 4] ∧ e' = e ∧ r.Rearranged e := by
  obtain ⟨e, he, -⟩ := exists_ok_of_map (f := (·.numbersAt [.key "demand"]))
    (b := [.finite 3, .finite 4]) (r := expectation [spring.1, summer.1, winter.1]
      [.finite (1 / 4), .finite (1 / 4), .finite (1 / 2)]) (by decide +kernel)
  obtain ⟨r, hr, -⟩ := exists_ok_of_map (f := (·.numbersAt [.key "demand"]))
    (b := [.finite 3, .finite 4]) (r := expectation [summer.1, spring.1, winter.1]
      [.finite (1 / 4), .finite (1 / 4), .finite (1 / 2)]) (by decide +kernel)
  obtain ⟨e', hgroups, hentries⟩ := exists_ok_of_map (f := (·.numbersAt [.key "demand"]))
    (b := [.finite 3, .finite 4]) (r := [[spring, summer], [winter]].mapM (fun g =>
      expectation (g.map (·.1)) (shares (·.2) g)) >>= fun es =>
        expectation es [.finite (1 / 2), .finite (1 / 2)]) (by decide +kernel)
  obtain ⟨es, hes, he'⟩ := bind_eq_ok_iff.1 hgroups
  refine ⟨es, e, e', r, he, hes, he', hr, hentries, ?_, ?_⟩
  · have hmasses : ([[spring, summer], [winter]].map fun g => Exact.finite (mass (·.2) g)) =
        [.finite (1 / 2), .finite (1 / 2)] := by decide +kernel
    exact expectation_tower.1 [[spring, summer], [winter]] es e e' seasons_proper
      (by decide +kernel) he hes (hmasses ▸ he')
  · exact expectation_tower.2 [spring, summer, winter] [summer, spring, winter] e r
      (.swap summer spring [winter]) seasons_proper he hr

end Recourse.Value
