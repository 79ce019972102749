/-
  Proofs/Payload/Returned.lean --- what an expectation that was returned says of the payloads.

  The first payload decides how to sum, and where a sum is returned the others went with it.
  If the first is a number or an array, all of them read as arrays of its shape, and the result
  has the weighted sums of what they read as (`expectation_numeric`).  Otherwise all have the form
  and the members of the first, and the result is put together from the expectations of the
  members (`Rebuilt`).  A sequence may stand where an array is asked for only because reading
  and summing can be exchanged (`reads_expectation`).
-/
import Recourse.Proofs.Payload.Folding
import Recourse.Proofs.Payload.Reading

set_option autoImplicit false
set_option linter.unusedSectionVars false

namespace Recourse.Value

variable {K : Type} [Scalar K] {weights : List K} {first e : Value K} {others : List (Value K)}

/-! ## Numbers and arrays -/

theorem readings_of_cells {s : List Nat} {vs : List (Value K)}
    {arrays : List (List Nat × List (Value K))} {numbers : List (List K)}
    (h : List.Forall₂ (fun v p => cells v = .ok p) vs arrays) (hshape : ∀ p ∈ arrays, p.1 = s)
    (hnumbers : List.Forall₂ (fun cs xs => cs.mapM cellNumber = .ok xs) (arrays.map (·.2))
      numbers) :
    (∀ v ∈ vs, v.Reads s) ∧ numbers = vs.map reading := by
  induction h generalizing numbers with
  | nil =>
    cases hnumbers
    exact ⟨fun v hv => (List.not_mem_nil hv).elim, rfl⟩
  | @cons v p vs arrays hcells _ ih =>
    cases hnumbers with
    | cons hxs hrest =>
      obtain ⟨hshape, hshapes⟩ := List.forall_mem_cons.1 hshape
      obtain ⟨hall, rfl⟩ := ih hshapes hrest
      obtain ⟨hreads, rfl⟩ := reads_of_cells (s := p.1) hcells hxs
      exact ⟨List.forall_mem_cons.2 ⟨hshape ▸ hreads, hall⟩, rfl⟩

/-- Arrays are summed if all of them are arrays of one shape, as many as have a weight. -/
theorem expectArrays_eq_ok {s : List Nat} {isNumeric : Bool} {vs : List (Value K)} {t : String}
    (hweights : weights ≠ []) (hne : vs ≠ []) (h : expectArrays s isNumeric vs weights t = .ok e) :
    isNumeric = true ∧ (∀ v ∈ vs.take weights.length, v.Reads s) ∧
      e = ofArray s
        (weightedArrays (volume s) ((vs.take weights.length).map reading) weights) := by
  unfold expectArrays at h
  obtain ⟨arrays, harrays, h⟩ := bind_eq_ok_iff.1 h
  have hcells := forall₂_of_mapM harrays
  split at h
  · cases h
  rename_i hshape
  obtain ⟨hshape, hnumeric⟩ : (∀ p ∈ arrays, p.1 = s) ∧ isNumeric = true := by
    simpa using hshape
  dsimp only at h
  split at h
  · rename_i hempty
    rw [List.isEmpty_iff, List.take_eq_nil_iff, List.length_eq_zero_iff, List.map_eq_nil_iff]
      at hempty
    obtain hnil | rfl := hempty
    · exact absurd hnil hweights
    · exact absurd (List.forall₂_nil_right_iff.1 hcells) hne
  obtain ⟨numbers, hnumbers, h⟩ := bind_eq_ok_iff.1 h
  rw [← List.map_take] at hnumbers
  obtain ⟨hreads, rfl⟩ := readings_of_cells (List.forall₂_take weights.length hcells)
    (fun p hp => hshape p (List.mem_of_mem_take hp)) (forall₂_of_mapM hnumbers)
  exact ⟨hnumeric, hreads, Except.ok.inj (h.symm.trans (ofArray_eq _ _))⟩

theorem weights_ne_nil {vs : List (Value K)} (hfirst : vs.head? = some first)
    (hlength : weights.length = vs.length) : weights ≠ [] := by
  rintro rfl
  rw [List.length_nil, eq_comm, List.length_eq_zero_iff] at hlength
  rw [hlength] at hfirst
  cases hfirst

theorem real?_of_mapM {vs : List (Value K)} {xs : List K} (h : vs.mapM real? = some xs) :
    ∀ v ∈ vs, v.real?.isSome = true := by
  intro v hv
  by_contra hnone
  rw [Bool.not_eq_true, Option.isSome_eq_false_iff, Option.isNone_iff_eq_none] at hnone
  rw [mapM_real?_eq_none hv hnone] at h
  cases h

/-- One number each is summed like arrays without an index. -/
theorem dot_eq_weightedArrays {vs : List (Value K)} (h : ∀ v ∈ vs, v.real?.isSome = true) :
    .real (Scalar.dot weights (vs.map (·.entry [] 0))) =
      ofArray [] (weightedArrays (volume []) (vs.map reading) weights) := by
  have hreading (v : Value K) (hv : v ∈ vs) : v.reading = v.numbers ∧ v.numbers.length = 1 :=
    ⟨(IsNumeric.reads (.inr (h v hv))).2, by
      have hv := h v hv
      cases v <;> first | rfl | cases hv⟩
  have hsingle : ∀ xs ∈ vs.map reading, xs.length = 1 :=
    List.forall_mem_map.2 fun v hv => (hreading v hv).1 ▸ (hreading v hv).2
  obtain ⟨hlength, hentry⟩ := weightedArrays_spec hsingle weights
  obtain ⟨x, hx⟩ := List.length_eq_one_iff.1 hlength
  have hsum := hentry 0 Nat.zero_lt_one
  rw [hx, List.map_map, List.map_congr_left (g := (·.entry [] 0)) fun v hv => by
    rw [Function.comp_apply, (hreading v hv).1]; rfl] at hsum
  show _ = ofArray [] (weightedArrays 1 _ _)
  rw [hx]
  exact congrArg _ hsum.symm

/-- Where the first payload is a number or an array of numbers, all read as arrays of its
shape, and the sums are those of what they read as. -/
theorem expectation_numeric {vs : List (Value K)} (hfirst : vs.head? = some first)
    (hnumeric : first.IsNumeric) (hlength : weights.length = vs.length)
    (h : expectation vs weights = .ok e) : (∀ v ∈ vs, v.Reads first.shape) ∧
      e = ofArray first.shape
        (weightedArrays (volume first.shape) (vs.map reading) weights) := by
  obtain ⟨others, rfl⟩ := List.head?_eq_some_iff.1 hfirst
  rw [expectation] at h
  cases first with
  | whole | real =>
    rw [expect] at h
    split at h
    · rename_i hreal
      have hall := real?_of_mapM hreal
      rw [mapM_real?_eq_some hall] at hreal
      cases hreal
      cases h
      refine ⟨fun v hv => ?_, dot_eq_weightedArrays hall⟩
      have hreads := (IsNumeric.reads (.inr (hall v hv))).1
      have hv := hall v hv
      cases v <;> first | exact hreads | cases hv
    · cases h
  | array | wholeArray =>
    rw [expect] at h
    have hsum := (expectArrays_eq_ok (weights_ne_nil rfl hlength) (List.cons_ne_nil _ _) h).2
    rwa [hlength, List.take_length] at hsum
  | _ => simp [IsNumeric, isArray, real?] at hnumeric

/-- A number or an array stands for arrays of its shape, also where there are fewer weights. -/
theorem exists_ofArray {vs : List (Value K)} (hfirst : vs.head? = some first)
    (hnumeric : first.IsNumeric) (hweights : weights ≠ []) (hproper : ∀ v ∈ vs, v.Proper)
    (h : expectation vs weights = .ok e) :
    ∃ sums, sums.length = volume first.shape ∧ e = ofArray first.shape sums := by
  obtain ⟨others, rfl⟩ := List.head?_eq_some_iff.1 hfirst
  rw [expectation] at h
  cases first with
  | whole | real =>
    rw [expect] at h
    split at h
    · cases h
      exact ⟨[_], rfl, rfl⟩
    · cases h
  | array | wholeArray =>
    rw [expect] at h
    obtain ⟨-, hreads, he⟩ := expectArrays_eq_ok hweights (List.cons_ne_nil _ _) h
    refine ⟨_, (weightedArrays_spec (List.forall_mem_map.2 fun v hv => ?_) weights).1, he⟩
    exact (hreads v hv).length_reading (hproper v (List.mem_of_mem_take hv))
  | _ => simp [IsNumeric, isArray, real?] at hnumeric

/-! ## Structures -/

/-- A result is put together from the expectations of the members: it has the form and the
members of each payload, and the keys in the order of the first one. -/
structure Rebuilt (weights : List K) (vs : List (Value K)) (e : Value K) : Prop where
  /-- It is made in the way of its type. -/
  wellMade : e.WellMade
  /-- All payloads have one form, and it stays. -/
  alike : ∃ k n, e.form = .structured k n ∧ ∀ v ∈ vs, v.form = .structured k n
  /-- The keys stay in the order of the first payload. -/
  keys_eq : ∀ v, vs.head? = some v → e.entries.map (·.1) = v.entries.map (·.1)
  /-- All payloads have the same members, and these have their expectations. -/
  member : ∀ l, (e.member? l = none ∧ ∀ v ∈ vs, v.member? l = none) ∨
    ∃ c, e.member? l = some c ∧ (∀ v ∈ vs, (v.member? l).isSome = true) ∧
      expectation (membersAt vs l) weights = .ok c

theorem membersAt_cons {m : Value K} {l : Label} (hm : first.member? l = some m) :
    membersAt (first :: others) l = m :: membersAt others l := List.filterMap_cons_some hm

theorem head?_membersAt {vs : List (Value K)} {m : Value K} {l : Label}
    (hfirst : vs.head? = some first) (hm : first.member? l = some m) :
    (membersAt vs l).head? = some m := by
  obtain ⟨others, rfl⟩ := List.head?_eq_some_iff.1 hfirst
  rw [membersAt_cons hm, List.head?_cons]

/-- What the members of the first payload and of a result say of the members of all. -/
theorem rebuilt_of_first {k : Kind} {n : Nat} (hwell : e.WellMade) (he : e.form = .structured k n)
    (hfirst : first.form = .structured k n) (hothers : ∀ w ∈ others, w.form = .structured k n)
    (hkeys : e.entries.map (·.1) = first.entries.map (·.1))
    (hsome : ∀ w ∈ others, ∀ l, (w.member? l).isSome = (first.member? l).isSome)
    (hmember : ∀ l, (first.member? l = none ∧ e.member? l = none) ∨
      ∃ m c, first.member? l = some m ∧ e.member? l = some c ∧
        expect weights m (membersAt others l) = .ok c) :
    Rebuilt weights (first :: others) e := by
  refine ⟨hwell, ⟨k, n, he, List.forall_mem_cons.2 ⟨hfirst, hothers⟩⟩, fun v hv => ?_, fun l => ?_⟩
  · cases hv
    exact hkeys
  · obtain ⟨hnone, hnone'⟩ | ⟨m, c, hm, hc, hexpect⟩ := hmember l
    · refine .inl ⟨hnone', List.forall_mem_cons.2 ⟨hnone, fun w hw => ?_⟩⟩
      have hw := hsome w hw l
      rwa [hnone, Option.isSome_none, Option.isSome_eq_false_iff, Option.isNone_iff_eq_none] at hw
    · have hfirst : (first.member? l).isSome = true := by rw [hm]; rfl
      exact .inr ⟨c, hc, List.forall_mem_cons.2 ⟨hfirst, fun w hw => (hsome w hw l).trans hfirst⟩,
        by rw [membersAt_cons hm, expectation, hexpect]⟩

theorem members_of_sequence {w : Value K} {k : Kind} {n : Nat} (hk : k = .list ∨ k = .tuple)
    (h : w.form = .structured k n) : w.items.length = n ∧ w.entries = [] := by
  rcases hk with rfl | rfl <;> cases w <;>
    simp_all [form, Form.ofShape_ne_structured, items, entries]

/-- Sequences are put together position by position. -/
theorem rebuilt_of_items (build : List (Value K) → Value K) {k : Kind} {xs : List (Value K)}
    {t : String} (hk : k = .list ∨ k = .tuple) (hitems : ∀ ys, (build ys).items = ys)
    (hentries : ∀ ys, (build ys).entries = [])
    (hform : ∀ ys, (build ys).form = .structured k ys.length) (hwell : ∀ ys, (build ys).WellMade)
    (h : (if ((others.all fun p => p.kind == k) &&
          others.all fun p => p.items.length == xs.length) = true
        then do return build (← expectItems weights xs (others.map items))
        else .error (.notExpectable t)) = .ok e) :
    Rebuilt weights (build xs :: others) e := by
  split at h
  swap
  · cases h
  rename_i hcheck
  obtain ⟨es, hes, h⟩ := bind_eq_ok_iff.1 h
  cases h
  rw [expectItems_eq] at hes
  have hmembers := forall₂_of_mapM hes
  have hlength : xs.length = es.length := by rw [← hmembers.length_eq, List.length_zipIdx]
  have halike := (checkLength_iff hk).1 hcheck
  refine rebuilt_of_first (hwell es) (hlength ▸ hform es) (hform xs) halike
    (by rw [hentries, hentries]) (fun w hw l => ?_) fun l => ?_
  · obtain ⟨hw, hw'⟩ := members_of_sequence hk (halike w hw)
    cases l with
    | position i =>
      rw [member?, member?, hitems]
      by_cases hi : i < xs.length
      · rw [List.getElem?_eq_getElem hi, List.getElem?_eq_getElem (hw ▸ hi)]
        rfl
      · rw [List.getElem?_eq_none (by omega), List.getElem?_eq_none (by omega)]
    | key name => rw [member?, member?, hentries, hw']
  · cases l with
    | position i =>
      rw [member?, member?, hitems, hitems]
      by_cases hi : i < xs.length
      · have hi' : i < es.length := hlength ▸ hi
        have hmember := hmembers.get (by rwa [List.length_zipIdx]) hi'
        refine .inr ⟨xs[i], es[i], List.getElem?_eq_getElem hi, List.getElem?_eq_getElem hi', ?_⟩
        simpa using hmember
      · exact .inl ⟨List.getElem?_eq_none (by omega), List.getElem?_eq_none (by omega)⟩
    | key name =>
      rw [member?, member?, hentries, hentries]
      exact .inl ⟨rfl, rfl⟩

/-- Mappings and records are put together key by key. -/
theorem rebuilt_of_fields (build : List (String × Value K) → Value K) {k : Kind}
    {fields : List (String × Value K)}
    {finish : List (String × Value K) → Except (Fault K) (Value K)}
    (hitems : ∀ fs, (build fs).items = []) (hentries : ∀ fs, (build fs).entries = fs)
    (hform : ∀ fs, fs.map (·.1) = fields.map (·.1) → (build fs).form = .structured k 0)
    (hfinish : ∀ fs, fs.map (·.1) = fields.map (·.1) → finish fs = .ok e →
      e = build fs ∧ e.WellMade)
    (hothers : ∀ w ∈ others, w.form = .structured k 0 ∧ w.items = [] ∧
      ∀ key, (Table.find? w.entries key).isSome = (Table.find? fields key).isSome)
    (h : expectFields weights fields (others.map entries) >>= finish = .ok e) :
    Rebuilt weights (build fields :: others) e := by
  obtain ⟨fs, hfs, h⟩ := bind_eq_ok_iff.1 h
  rw [expectFields_eq] at hfs
  have hmembers : List.Forall₂ (fun f g => g.1 = f.1 ∧
      expect weights f.2 (membersAt others (.key f.1)) = .ok g.2) fields fs := by
    refine (forall₂_of_mapM hfs).imp fun f g hg => ?_
    obtain ⟨c, hc, hg⟩ := bind_eq_ok_iff.1 hg
    cases hg
    exact ⟨rfl, hc⟩
  have hkeys : fs.map (·.1) = fields.map (·.1) :=
    Table.keys_eq_of_forall₂ (hmembers.imp fun _ _ h => h.1)
  obtain ⟨rfl, hwell⟩ := hfinish fs hkeys h
  refine rebuilt_of_first hwell (hform fs hkeys) (hform fields rfl) (fun w hw => (hothers w hw).1)
    (by rw [hentries, hentries, hkeys]) (fun w hw l => ?_) fun l => ?_
  · cases l with
    | position i => rw [member?, member?, hitems, (hothers w hw).2.1]
    | key name =>
      rw [member?, member?, hentries]
      exact (hothers w hw).2.2 name
  · cases l with
    | position i =>
      rw [member?, member?, hitems, hitems]
      exact .inl ⟨rfl, rfl⟩
    | key name =>
      rw [member?, member?, hentries, hentries]
      obtain hnone | ⟨m, c, hm, hc, hexpect⟩ := Table.find?_of_forall₂ hmembers name
      · exact .inl hnone
      · exact .inr ⟨m, c, hm, hc, hexpect⟩

theorem rebuilt_of_record (build : List (String × Value K) → Value K) {k : Kind}
    {fields : List (String × Value K)}
    {finish : List (String × Value K) → Except (Fault K) (Value K)} {t : String}
    (hk : RecordKind k) (hitems : ∀ fs, (build fs).items = [])
    (hentries : ∀ fs, (build fs).entries = fs)
    (hform : ∀ fs, fs.map (·.1) = fields.map (·.1) → (build fs).form = .structured k 0)
    (hfinish : ∀ fs, fs.map (·.1) = fields.map (·.1) → finish fs = .ok e →
      e = build fs ∧ e.WellMade)
    (h : (if (others.all fun p => p.kind == k) = true
        then expectFields weights fields (others.map entries) >>= finish
        else .error (.notExpectable t)) = .ok e) :
    Rebuilt weights (build fields :: others) e := by
  split at h
  swap
  · cases h
  rename_i hcheck
  have halike := (checkKind_iff (.inr hk)).1 hcheck
  refine rebuilt_of_fields build hitems hentries hform hfinish (fun w hw => ?_) h
  obtain ⟨r, ks, hr⟩ := hk
  have hw' := members_of_form (halike w hw) (.inr ⟨r, ks, hr⟩)
  have hfields := members_of_form (hform fields rfl) (.inr ⟨r, ks, hr⟩)
  refine ⟨halike w hw, hw'.1, fun key => Bool.eq_iff_iff.2 ?_⟩
  rw [Table.find?_isSome_iff, Table.find?_isSome_iff, hw'.2 r ks hr, ← hfields.2 r ks hr, hentries]

/-- Where the first payload has members, the result is put together from those of all. -/
theorem expectation_rebuilt {vs : List (Value K)} (hfirst : vs.head? = some first)
    (hnumeric : ¬first.IsNumeric) (hwell : first.WellMade) (hweights : weights ≠ [])
    (h : expectation vs weights = .ok e) : Rebuilt weights vs e := by
  obtain ⟨others, rfl⟩ := List.head?_eq_some_iff.1 hfirst
  rw [expectation] at h
  cases first with
  | null | flag | text | «sealed» =>
    rw [expect] at h
    cases h
  | weather => exact hwell.elim
  | whole | real => exact absurd (.inr rfl) hnumeric
  | array | wholeArray => exact absurd (.inl rfl) hnumeric
  | textArray ss =>
    rw [expect] at h
    cases (expectArrays_eq_ok hweights (List.cons_ne_nil _ _) h).1
  | list xs =>
    rw [expect] at h
    exact rebuilt_of_items .list (.inl rfl) (fun _ => rfl) (fun _ => rfl) (fun _ => rfl)
      (fun _ => trivial) h
  | tuple xs =>
    rw [expect] at h
    exact rebuilt_of_items .tuple (.inr rfl) (fun _ => rfl) (fun _ => rfl) (fun _ => rfl)
      (fun _ => trivial) h
  | mapping fields =>
    rw [expect] at h
    split at h
    swap
    · cases h
    rename_i hcheck
    change ((others.all fun p => p.kind == .mapping) && _) = true at hcheck
    rw [Bool.and_eq_true, checkKind_iff (.inl rfl), List.all_eq_true] at hcheck
    -- The keys are checked on their own: they are no part of the kind, as those of a record are.
    refine rebuilt_of_fields .mapping (fun _ => rfl) (fun _ => rfl) (fun _ _ => rfl)
      (fun fs hfs h => ?_) (fun w hw => ⟨hcheck.1 w hw,
        (members_of_form (hcheck.1 w hw) (.inl rfl)).1,
        (sameKeys_iff fields w.entries).1 (hcheck.2 w hw)⟩) h
    cases h
    exact ⟨rfl, show (fs.map (·.1)).Nodup from hfs ▸ hwell⟩
  | named t fields =>
    rw [expect] at h
    refine rebuilt_of_record (.named t) ⟨t, _, .inl rfl⟩ (fun _ => rfl) (fun _ => rfl)
      (fun fs hfs => by rw [form, hfs]) (fun fs hfs h => ?_) h
    cases h
    exact ⟨rfl, show (fs.map (·.1)).Nodup from hfs ▸ hwell⟩
  | record t fields =>
    rw [expect] at h
    refine rebuilt_of_record (.record t) ⟨t, _, .inr (.inl rfl)⟩ (fun _ => rfl) (fun _ => rfl)
      (fun fs hfs => by rw [form, hfs]) (fun fs hfs h => ?_) h
    cases h
    exact ⟨rfl, show (fs.map (·.1)).Nodup from hfs ▸ hwell⟩
  | totalled t fields =>
    rw [expect] at h
    refine rebuilt_of_record (.totalled t) ⟨t, _, .inr (.inr rfl)⟩ (fun _ => rfl) (fun _ => rfl)
      (fun fs hfs => by rw [form, hfs]) (fun fs hfs h => ?_) h
    obtain ⟨sum, hsum, h⟩ := bind_eq_ok_iff.1 h
    cases h
    exact ⟨rfl, show (fs.map (·.1)).Nodup from hfs ▸ hwell.1, sum, hsum⟩

theorem IsNumeric.form_ne_structured {v : Value K} (h : v.IsNumeric) (k : Kind) (n : Nat) :
    v.form ≠ .structured k n := h.form_eq ▸ Form.ofShape_ne_structured _ k n

namespace Rebuilt

variable {vs : List (Value K)} {v c : Value K} {l : Label}

/-- A result has the form of each payload. -/
theorem form_eq (h : Rebuilt weights vs e) (hv : v ∈ vs) : e.form = v.form := by
  obtain ⟨k, n, he, hall⟩ := h.alike
  rw [he, hall v hv]

/-- A result is no number and no array. -/
theorem not_isNumeric (h : Rebuilt weights vs e) : ¬e.IsNumeric := by
  obtain ⟨k, n, he, -⟩ := h.alike
  exact fun hnumeric => hnumeric.form_ne_structured k n he

theorem not_isNumeric_of_mem (h : Rebuilt weights vs e) (hv : v ∈ vs) : ¬v.IsNumeric :=
  fun hnumeric => h.not_isNumeric (isNumeric_of_form ((h.form_eq hv).trans hnumeric.form_eq))

/-- A result has the members of each payload. -/
theorem member_isSome (h : Rebuilt weights vs e) (hv : v ∈ vs) (l : Label) :
    (v.member? l).isSome = (e.member? l).isSome := by
  obtain ⟨hnone, hall⟩ | ⟨c, hc, hsome, -⟩ := h.member l
  · rw [hnone, hall v hv]
  · rw [hsome v hv, hc, Option.isSome_some]

/-- A member of a result is the expectation of the members of all. -/
theorem expectation_member (h : Rebuilt weights vs e) (hc : e.member? l = some c) :
    (∀ v ∈ vs, (v.member? l).isSome = true) ∧ expectation (membersAt vs l) weights = .ok c := by
  obtain ⟨hnone, -⟩ | ⟨c', hc', hall⟩ := h.member l
  · rw [hnone] at hc
    cases hc
  · cases hc.symm.trans hc'
    exact hall

end Rebuilt

/-! ## Reading what comes back -/

theorem isSequence_of_form {v w : Value K} (h : v.form = w.form) (hv : v.isSequence = true) :
    w.isSequence = true := by
  by_contra hw
  rw [isSequence_congr h.symm (Bool.eq_false_iff.2 hw)] at hv
  cases hv

/-- What has members and reads as an array is a sequence. -/
theorem Reads.isSequence {s : List Nat} {v : Value K} {k : Kind} {n : Nat} (h : v.Reads s)
    (hform : v.form = .structured k n) : v.isSequence = true := by
  obtain ⟨cs, hcells, hcs⟩ := h.exists_cells
  by_contra hseq
  rw [cells_eq (Bool.eq_false_iff.2 hseq)] at hcells
  cases hcells
  cases v with
  | list | tuple | named => exact hseq rfl
  | array s | wholeArray s => exact Form.ofShape_ne_structured s k n hform
  | mapping | record | totalled =>
    obtain ⟨x, hx, -⟩ := bind_eq_ok_iff.1 ((List.mapM_cons).symm.trans hcs)
    cases hx
  | _ => cases hform

theorem map_reading_membersAt {vs : List (Value K)} {l : Label}
    (h : ∀ v ∈ vs, (v.member? l).isSome = true) :
    (membersAt vs l).map reading = vs.map (·.readingAt l) := by
  induction vs with
  | nil => rfl
  | cons v vs ih =>
    rw [List.forall_mem_cons] at h
    obtain ⟨m, hm⟩ := Option.isSome_iff_exists.1 h.1
    rw [membersAt_cons hm, List.map_cons, List.map_cons, ih h.2, readingAt_eq hm]

/-- Payloads with members that read as arrays are sequences, and so is what comes back.  They
all have members in the same places. -/
theorem Rebuilt.sequences {vs : List (Value K)} {s : List Nat} (h : Rebuilt weights vs e)
    (hfirst : first ∈ vs) (hreads : ∀ v ∈ vs, v.Reads s) :
    (∀ v ∈ vs, v.isSequence = true ∧ v.labels = first.labels) ∧
      e.isSequence = true ∧ e.labels = first.labels := by
  obtain ⟨k, n, he, halike⟩ := h.alike
  have hseqs (v : Value K) (hv : v ∈ vs) : v.isSequence = true :=
    (hreads v hv).isSequence (halike v hv)
  have hform := (halike first hfirst).trans he.symm
  exact ⟨fun v hv => ⟨hseqs v hv, labels_congr ((halike first hfirst).trans (halike v hv).symm)
      (hseqs first hfirst)⟩,
    isSequence_of_form hform (hseqs first hfirst), labels_congr hform (hseqs first hfirst)⟩

/-- Sequences without members read as arrays without entries, and nothing is summed. -/
theorem Rebuilt.reads_nothing {vs : List (Value K)} {s : List Nat} (h : Rebuilt weights vs e)
    (hfirst : first ∈ vs) (hproper : ∀ v ∈ vs, v.Proper) (hreads : ∀ v ∈ vs, v.Reads s)
    (hnil : first.labels = []) :
    e.Reads s ∧ e.reading = weightedArrays (volume s) (vs.map reading) weights := by
  obtain ⟨hall, hseq, hlabels⟩ := h.sequences hfirst hreads
  have hnothing (v : Value K) (hv : v ∈ vs) : v.Reads [0] ∧ v.reading = [] :=
    reads_of_no_labels (hall v hv).1 (hproper v hv).wellMade ((hall v hv).2.trans hnil)
  obtain rfl := (hreads first hfirst).shape_eq (hnothing first hfirst).1
  obtain ⟨hreads', hreading⟩ := reads_of_no_labels hseq h.wellMade (hlabels.trans hnil)
  refine ⟨hreads', hreading.trans (weightedArrays_zero (fun xs hxs => ?_) weights).symm⟩
  obtain ⟨v, hv, rfl⟩ := List.mem_map.1 hxs
  rw [(hnothing v hv).2, List.length_nil]

/-- A sequence put together from sums of arrays of one shape reads as the sum of the arrays that
the sequences read as. -/
theorem Rebuilt.reads {vs : List (Value K)} {s : List Nat} (h : Rebuilt weights vs e)
    (hfirst : first ∈ vs) (hproper : ∀ v ∈ vs, v.Proper) (hreads : ∀ v ∈ vs, v.Reads s)
    (hmember : ∀ l m c inner, first.member? l = some m → e.member? l = some c →
      (∀ m' ∈ membersAt vs l, m'.Reads inner) → c.Reads inner ∧
        c.reading = weightedArrays (volume inner) ((membersAt vs l).map reading) weights) :
    e.Reads s ∧ e.reading = weightedArrays (volume s) (vs.map reading) weights := by
  by_cases hnil : first.labels = []
  · exact h.reads_nothing hfirst hproper hreads hnil
  obtain ⟨hall, hseq, hlabels⟩ := h.sequences hfirst hreads
  -- the members of each sequence have one shape, which is the same for all of them
  obtain ⟨inner, rfl, -⟩ := (reads_sequence_iff (hall first hfirst).1
    (hproper first hfirst).wellMade hnil).1 ⟨hreads first hfirst, rfl⟩
  have hmembers (v : Value K) (hv : v ∈ vs) :
      (∀ l ∈ first.labels, ∃ m, v.member? l = some m ∧ m.Reads inner) ∧
        v.reading = first.labels.flatMap v.readingAt := by
    obtain ⟨hseq, hlabels⟩ := hall v hv
    obtain ⟨inner', hinner, hmembers, hreading⟩ := (reads_sequence_iff hseq
      (hproper v hv).wellMade (hlabels ▸ hnil)).1 ⟨hreads v hv, rfl⟩
    rw [hlabels] at hinner hmembers hreading
    cases hinner
    exact ⟨hmembers, hreading⟩
  have hsum (l : Label) (hl : l ∈ first.labels) : ∃ c, e.member? l = some c ∧ c.Reads inner ∧
      c.reading = weightedArrays (volume inner) (vs.map (·.readingAt l)) weights := by
    obtain ⟨m, hm, -⟩ := (hmembers first hfirst).1 l hl
    have hisSome := h.member_isSome hfirst l
    rw [hm, Option.isSome_some, eq_comm] at hisSome
    obtain ⟨c, hc⟩ := Option.isSome_iff_exists.1 hisSome
    obtain ⟨hc', hreading⟩ := hmember l m c inner hm hc fun m' hm' => by
      obtain ⟨v, hv, hvm⟩ := List.mem_filterMap.1 hm'
      obtain ⟨m'', hm'', hreads'⟩ := (hmembers v hv).1 l hl
      exact Option.some.inj (hm''.symm.trans hvm) ▸ hreads'
    exact ⟨c, hc, hc', by rw [hreading, map_reading_membersAt (h.expectation_member hc).1]⟩
  have hsize : ∀ v ∈ vs, ∀ l ∈ first.labels, (v.readingAt l).length = volume inner := by
    intro v hv l hl
    obtain ⟨m, hm, hm'⟩ := (hmembers v hv).1 l hl
    rw [readingAt_eq hm]
    exact hm'.length_reading ((hproper v hv).member hm)
  refine (reads_sequence_iff hseq h.wellMade (hlabels ▸ hnil)).2
    ⟨inner, by rw [hlabels], fun l hl => ?_, ?_⟩
  · obtain ⟨c, hc, hreads', -⟩ := hsum l (hlabels ▸ hl)
    exact ⟨c, hc, hreads'⟩
  · rw [hlabels, volume_cons, List.map_congr_left fun v hv => (hmembers v hv).2,
      weightedArrays_flatMap weights hsize]
    refine List.flatMap_congr fun l hl => ?_
    obtain ⟨c, hc, -, hreading⟩ := hsum l hl
    rw [readingAt_eq hc, hreading]

/-- Payloads that read as arrays of one shape are summed to a payload that reads as the sum of
these arrays, even where the first of them is a sequence and is summed member by member. -/
theorem reads_expectation (first : Value K) : ∀ (vs : List (Value K)) (e : Value K) (s : List Nat),
    vs.head? = some first → weights.length = vs.length → (∀ v ∈ vs, v.Proper) →
    (∀ v ∈ vs, v.Reads s) → expectation vs weights = .ok e →
    e.Reads s ∧ e.reading = weightedArrays (volume s) (vs.map reading) weights := by
  induction first using induction_on_members with
  | h first ih =>
    intro vs e s hfirst hlength hproper hreads h
    have hmem := List.mem_of_mem_head? hfirst
    by_cases hnumeric : first.IsNumeric
    · obtain ⟨-, rfl⟩ := expectation_numeric hfirst hnumeric hlength h
      obtain rfl := (hreads first hmem).shape_eq hnumeric.reads.1
      exact reads_ofArray _ _
    · have hrebuilt := expectation_rebuilt hfirst hnumeric (hproper first hmem).wellMade
        (weights_ne_nil hfirst hlength) h
      refine hrebuilt.reads hmem hproper hreads fun l m c inner hm hc hinner => ?_
      obtain ⟨hsome, hexpect⟩ := hrebuilt.expectation_member hc
      refine ih l m hm _ c inner (head?_membersAt hfirst hm)
        (hlength.trans (length_membersAt hsome).symm) (fun m' hm' => ?_) hinner hexpect
      obtain ⟨v, hv, hvm⟩ := List.mem_filterMap.1 hm'
      exact (hproper v hv).member hvm

/-! ## Equality from the members -/

/-- The payload of a kind with given members. -/
def ofMembers (k : Kind) (items : List (Value K)) (entries : List (String × Value K)) : Value K :=
  match k with
  | .list => .list items
  | .tuple => .tuple items
  | .mapping => .mapping entries
  | .named t _ => .named t entries
  | .record t _ => .record t entries
  | .totalled t _ => .totalled t entries
  | _ => .null

theorem eq_ofMembers {v : Value K} {k : Kind} {n : Nat} (h : v.form = .structured k n) :
    v = ofMembers k v.items v.entries := by
  cases v with
  | array s | wholeArray s => exact absurd h (Form.ofShape_ne_structured s k n)
  | list | tuple | mapping | named | record | totalled =>
    cases h
    rfl
  | _ => cases h

/-- Fields under distinct keys are determined by the keys in order and what is found there. -/
theorem eq_of_find? {t t' : Table String (Value K)} (hnodup : (t.map (·.1)).Nodup)
    (hkeys : t'.map (·.1) = t.map (·.1)) (h : ∀ key, t.find? key = t'.find? key) : t = t' := by
  have hlength : t'.length = t.length := by simpa using congrArg List.length hkeys
  refine List.ext_getElem hlength.symm fun i hi hi' => ?_
  have hkey : t'[i].1 = t[i].1 := by
    have := List.getElem_of_eq hkeys (by rwa [List.length_map])
    simpa using this
  have hfind := Table.find?_eq_of_mem hnodup (List.getElem_mem hi)
  have hfind' := Table.find?_eq_of_mem (hkeys ▸ hnodup) (List.getElem_mem hi')
  rw [hkey, ← h, hfind] at hfind'
  exact Prod.ext hkey.symm (Option.some.inj hfind')

theorem WellMade.nodup {v : Value K} (hwell : v.WellMade) : (v.entries.map (·.1)).Nodup := by
  cases v with
  | mapping | named | record => exact hwell
  | totalled => exact hwell.1
  | _ => exact List.nodup_nil

/-- A payload with members is determined by its form, its keys and its members. -/
theorem eq_of_members {v w : Value K} {k : Kind} {n : Nat} (hv : v.form = .structured k n)
    (hw : w.form = .structured k n) (hnodup : (v.entries.map (·.1)).Nodup)
    (hkeys : w.entries.map (·.1) = v.entries.map (·.1))
    (hmember : ∀ l, v.member? l = w.member? l) : v = w := by
  have hitems : v.items = w.items := List.ext_getElem? fun i => hmember (.position i)
  have hentries : v.entries = w.entries :=
    eq_of_find? hnodup hkeys fun key => hmember (.key key)
  rw [eq_ofMembers hv, eq_ofMembers hw, hitems, hentries]

end Recourse.Value
