/-
  Proofs/Payload/Outline.lean --- the structure of an expectation.

  An expectation has the structure of the first payload, with floats for the numbers: the same
  lengths and types of sequences, the same fields of records, the same keys in the same order,
  and the same shapes of arrays (`expectation_outline`).  An array without an index is the
  exception.  Its entry is multiplied and added like a number, and what comes back is a number.
  So the type of the first payload is kept, unless it is that of an integer or that of such an
  array, which become floats (`expectation_kind`).
-/
import Recourse.Payload.Schema
import Recourse.Proofs.Payload.Returned
import Mathlib.Data.Rat.Floor

set_option autoImplicit false
set_option linter.unusedSectionVars false

namespace Recourse

theorem Table.find?_map {α β : Type} (g : α → β) (t : Table String α) (key : String) :
    Table.find? (t.map fun e => (e.1, g e.2)) key = (Table.find? t key).map g := by
  induction t with
  | nil => rfl
  | cons e t ih =>
    obtain ⟨k, a⟩ := e
    rw [List.map_cons, Table.find?, Table.find?]
    split
    · rfl
    · exact ih

namespace Value

variable {K : Type}

/-! ## Replacing what has no members -/

mutual
/-- A payload with every part that cannot have members replaced. -/
def mapLeaves (f : Value K → Value K) : Value K → Value K
  | .list xs => .list (mapItems f xs)
  | .tuple xs => .tuple (mapItems f xs)
  | .mapping fields => .mapping (mapFields f fields)
  | .named t fields => .named t (mapFields f fields)
  | .record t fields => .record t (mapFields f fields)
  | .totalled t fields => .totalled t (mapFields f fields)
  | v => f v

/-- Members of a sequence with their parts replaced. -/
def mapItems (f : Value K → Value K) : List (Value K) → List (Value K)
  | [] => []
  | v :: rest => mapLeaves f v :: mapItems f rest

/-- Members of a mapping or a record with their parts replaced. -/
def mapFields (f : Value K → Value K) : List (String × Value K) → List (String × Value K)
  | [] => []
  | (key, v) :: rest => (key, mapLeaves f v) :: mapFields f rest
end

variable {f g : Value K → Value K} {v : Value K}

theorem mapItems_eq (f : Value K → Value K) (xs : List (Value K)) :
    mapItems f xs = xs.map (mapLeaves f) := by
  induction xs with
  | nil => rw [mapItems, List.map_nil]
  | cons x xs ih => rw [mapItems, ih, List.map_cons]

theorem mapFields_eq (f : Value K → Value K) (fields : List (String × Value K)) :
    mapFields f fields = fields.map fun e => (e.1, mapLeaves f e.2) := by
  induction fields with
  | nil => rw [mapFields, List.map_nil]
  | cons e fields ih => rw [mapFields, ih, List.map_cons]

theorem keys_mapFields (f : Value K → Value K) (fields : List (String × Value K)) :
    (mapFields f fields).map (·.1) = fields.map (·.1) := by
  rw [mapFields_eq, List.map_map]
  rfl

/-- What has no members is replaced as a whole. -/
theorem mapLeaves_of_leaf (h : ∀ k n, v.form ≠ .structured k n) : v.mapLeaves f = f v := by
  cases v with
  | list | tuple | mapping | named | record | totalled => exact absurd rfl (h _ _)
  | _ => rw [mapLeaves] <;> simp

theorem items_mapLeaves {k : Kind} {n : Nat} (h : v.form = .structured k n) :
    (v.mapLeaves f).items = v.items.map (mapLeaves f) := by
  cases v with
  | array s | wholeArray s => exact absurd h (Form.ofShape_ne_structured s k n)
  | list | tuple => rw [mapLeaves, items, mapItems_eq, items]
  | mapping | named | record | totalled => rw [mapLeaves, items, items, List.map_nil] <;> simp
  | _ => cases h

theorem entries_mapLeaves {k : Kind} {n : Nat} (h : v.form = .structured k n) :
    (v.mapLeaves f).entries = v.entries.map fun e => (e.1, mapLeaves f e.2) := by
  cases v with
  | array s | wholeArray s => exact absurd h (Form.ofShape_ne_structured s k n)
  | list | tuple => rw [mapLeaves, entries, entries, List.map_nil] <;> simp
  | mapping | named | record | totalled => rw [mapLeaves, entries, mapFields_eq, entries]
  | _ => cases h

theorem form_mapLeaves {k : Kind} {n : Nat} (h : v.form = .structured k n) :
    (v.mapLeaves f).form = .structured k n := by
  cases v with
  | array s | wholeArray s => exact absurd h (Form.ofShape_ne_structured s k n)
  | list | tuple => rw [mapLeaves, form, mapItems_eq, List.length_map, ← h, form]
  | mapping => rw [mapLeaves, form, ← h, form]
  | named | record | totalled => rw [mapLeaves, form, keys_mapFields, ← h, form]
  | _ => cases h

/-- The members are those of before with their parts replaced. -/
theorem member?_mapLeaves {k : Kind} {n : Nat} (h : v.form = .structured k n) (l : Label) :
    (v.mapLeaves f).member? l = (v.member? l).map (mapLeaves f) := by
  cases l with
  | position i => rw [member?, member?, items_mapLeaves h, List.getElem?_map]
  | key name => rw [member?, member?, entries_mapLeaves h, Table.find?_map]

section Scalar

variable [Scalar K]

/-- Payloads are replaced alike where all of their parts are. -/
theorem mapLeaves_congr (hv : v.Proper) (h : ∀ path a, v.part? path = some a → f a = g a) :
    v.mapLeaves f = v.mapLeaves g := by
  induction v using induction_on_members with
  | h v ih =>
    by_cases hform : ∃ k n, v.form = .structured k n
    · obtain ⟨k, n, hform⟩ := hform
      refine eq_of_members (form_mapLeaves hform) (form_mapLeaves hform) ?_ ?_ fun l => ?_
      · rw [entries_mapLeaves hform, List.map_map]
        exact hv.wellMade.nodup
      · rw [entries_mapLeaves hform, entries_mapLeaves hform, List.map_map, List.map_map]
        rfl
      · rw [member?_mapLeaves hform, member?_mapLeaves hform]
        cases hm : v.member? l with
        | none => rfl
        | some m =>
          rw [Option.map_some, Option.map_some, ih l m hm (hv.member hm) fun path a ha =>
            h (l :: path) a (by rw [part?_cons, hm]; exact ha)]
    · rw [not_exists] at hform
      have hleaf : ∀ k n, v.form ≠ .structured k n := fun k => not_exists.1 (hform k)
      rw [mapLeaves_of_leaf hleaf, mapLeaves_of_leaf hleaf]
      exact h [] v rfl

/-! ## Outlines -/

/-- Zero for each number of a float or of an array of floats; anything else stays. -/
def blank : Value K → Value K
  | .real _ => .real 0
  | .array s xs => .array s (xs.map fun _ => 0)
  | v => v

/-- The float zero for a number, and an array of such zeros for an array of numbers. -/
def zeroed : Value K → Value K
  | .whole _ | .real _ => .real 0
  | .array s _ | .wholeArray s _ => .array s (Scalar.zeros (volume s))
  | v => v

/-- The same, with a number also for an array without an index. -/
def collapsed (v : Value K) : Value K :=
  match v.form with
  | .number => .real 0
  | _ => v.zeroed

variable {weights : List K} {vs : List (Value K)} {e first : Value K}

theorem blank_ofArray {s : List Nat} {sums : List K} (hsums : sums.length = volume s)
    (hfirst : first.IsNumeric) (hshape : first.shape = s) :
    (ofArray s sums).blank = first.collapsed := by
  rw [collapsed, hfirst.form_eq, hshape]
  by_cases hs : s = []
  · subst hs
    obtain ⟨x, rfl⟩ := List.length_eq_one_iff.1 hsums
    rfl
  · have harray : ofArray s sums = .array s sums := by
      unfold ofArray
      split
      · exact absurd rfl hs
      · rfl
    have hzeroed : first.zeroed = .array s (Scalar.zeros (volume s)) := by
      cases first with
      | array | wholeArray => rw [← hshape, zeroed, shape]
      | whole | real => exact absurd hshape.symm hs
      | _ => simp [IsNumeric, isArray, real?] at hfirst
    rw [harray, blank, Form.ofShape, if_neg hs, hzeroed, List.map_const', hsums]
    rfl

/-- An expectation has the structure of the first payload, with floats for the numbers, and
with numbers for arrays without an index. -/
theorem expectation_outline (hweights : weights ≠ []) (first : Value K) :
    ∀ (vs : List (Value K)) (e : Value K), vs.head? = some first → (∀ v ∈ vs, v.Proper) →
      expectation vs weights = .ok e → e.mapLeaves blank = first.mapLeaves collapsed := by
  induction first using induction_on_members with
  | h first ih =>
    intro vs e hfirst hproper h
    have hmem := List.mem_of_mem_head? hfirst
    by_cases hnumeric : first.IsNumeric
    · obtain ⟨sums, hsums, rfl⟩ := exists_ofArray hfirst hnumeric hweights hproper h
      rw [mapLeaves_of_leaf (isNumeric_ofArray _ _).form_ne_structured,
        mapLeaves_of_leaf hnumeric.form_ne_structured]
      exact blank_ofArray hsums hnumeric rfl
    · have hrebuilt := expectation_rebuilt hfirst hnumeric (hproper first hmem).wellMade hweights h
      obtain ⟨k, n, he, hall⟩ := hrebuilt.alike
      have hform := hall first hmem
      refine eq_of_members (form_mapLeaves he) (form_mapLeaves hform) ?_ ?_ fun l => ?_
      · rw [entries_mapLeaves he, List.map_map]
        exact hrebuilt.wellMade.nodup
      · rw [entries_mapLeaves he, entries_mapLeaves hform, List.map_map, List.map_map]
        exact (hrebuilt.keys_eq first hfirst).symm
      · rw [member?_mapLeaves he, member?_mapLeaves hform]
        have hsome := hrebuilt.member_isSome hmem l
        cases hc : e.member? l with
        | none =>
          rw [hc, Option.isSome_none, Option.isSome_eq_false_iff,
            Option.isNone_iff_eq_none] at hsome
          rw [hsome]
          rfl
        | some c =>
          rw [hc, Option.isSome_some] at hsome
          obtain ⟨m, hm⟩ := Option.isSome_iff_exists.1 hsome
          obtain ⟨-, hexpect⟩ := hrebuilt.expectation_member hc
          rw [hm, Option.map_some, Option.map_some,
            ih l m hm _ c (head?_membersAt hfirst hm) (fun m' hm' => ?_) hexpect]
          obtain ⟨v, hv, hvm⟩ := List.mem_filterMap.1 hm'
          exact (hproper v hv).member hvm

/-- Where no part is an array without an index, nothing collapses. -/
theorem mapLeaves_collapsed (hv : v.Proper) (h : v.Settled) :
    v.mapLeaves collapsed = v.mapLeaves zeroed := by
  refine mapLeaves_congr hv fun path a ha => ?_
  unfold collapsed
  split
  · rename_i hform
    cases a with
    | array s xs | wholeArray s xs => exact absurd hform (h path _ ha rfl)
    | whole | real => rfl
    | _ => cases hform
  · rfl

/-! ## Types -/

theorem keys_expectFields {fields fs : List (String × Value K)}
    {others : List (List (String × Value K))} (h : expectFields weights fields others = .ok fs) :
    fs.map (·.1) = fields.map (·.1) := by
  induction fields generalizing fs with
  | nil =>
    rw [expectFields] at h
    cases h
    rfl
  | cons f fields ih =>
    rw [expectFields] at h
    obtain ⟨c, -, h⟩ := bind_eq_ok_iff.1 h
    obtain ⟨rest, hrest, h⟩ := bind_eq_ok_iff.1 h
    cases h
    rw [List.map_cons, List.map_cons, ih hrest]

/-- It is an array without an index. -/
def IsPoint (v : Value K) : Prop := v.isArray = true ∧ v.form = .number

/-- What comes back for a payload: a float for a number and perhaps for an array without an
index, and otherwise something of the same type. -/
structure KeepsKind (first e : Value K) : Prop where
  /-- The type stays, or it is that of a float. -/
  kind : (e.kind = .real ∧ (first.kind = .whole ∨ first.kind = .real ∨ first.IsPoint)) ∨
    (e.kind = first.kind ∧ first.kind ≠ .flag ∧ first.kind ≠ .whole)
  /-- An array without an index comes back for such an array only. -/
  point : e.IsPoint → first.IsPoint

theorem keepsKind_real {x : K} (h : first.kind = .whole ∨ first.kind = .real ∨ first.IsPoint) :
    KeepsKind first (.real x) where
  kind := .inl ⟨rfl, h⟩
  point h := absurd h.1 Bool.false_ne_true

theorem keepsKind_of_ofArray {s : List Nat} {sums : List K} (hfirst : first.isArray = true)
    (hform : first.form = .ofShape s) : KeepsKind first (ofArray s sums) := by
  have harray : first.kind = .array := by
    cases first <;> first | rfl | cases hfirst
  have hpoint (h : s = []) : first.IsPoint := ⟨hfirst, by rw [hform, h]; rfl⟩
  unfold ofArray
  split
  · exact keepsKind_real (.inr (.inr (hpoint rfl)))
  · refine ⟨.inr ⟨harray.symm, harray ▸ Kind.noConfusion, harray ▸ Kind.noConfusion⟩, fun h => ?_⟩
    exact ⟨hfirst, hform.trans h.2⟩

/-- Payloads with members are of a type of their own. -/
theorem keepsKind_of_kind (hkind : e.kind = first.kind) (hflag : first.kind ≠ .flag)
    (hwhole : first.kind ≠ .whole) (harray : first.kind ≠ .array) : KeepsKind first e := by
  refine ⟨.inr ⟨hkind, hflag, hwhole⟩, fun h => ?_⟩
  rw [← hkind] at harray
  have h := h.1
  cases e <;> first | exact absurd rfl harray | cases h

theorem keepsKind_of_check {c : Bool} {t : String} {r : Except (Fault K) (Value K)}
    (h : (if c = true then r else .error (.notExpectable t)) = .ok e)
    (hr : r = .ok e → e.kind = first.kind) (hflag : first.kind ≠ .flag)
    (hwhole : first.kind ≠ .whole) (harray : first.kind ≠ .array) : KeepsKind first e := by
  split at h
  · exact keepsKind_of_kind (hr h) hflag hwhole harray
  · cases h

theorem keepsKind_of_fields {c : Bool} {t : String} {fields : List (String × Value K)}
    {others : List (List (String × Value K))}
    {finish : List (String × Value K) → Except (Fault K) (Value K)}
    (h : (if c = true then expectFields weights fields others >>= finish
      else .error (.notExpectable t)) = .ok e)
    (hfinish : ∀ fs, fs.map (·.1) = fields.map (·.1) → finish fs = .ok e → e.kind = first.kind)
    (hflag : first.kind ≠ .flag) (hwhole : first.kind ≠ .whole) (harray : first.kind ≠ .array) :
    KeepsKind first e := by
  refine keepsKind_of_check h (fun h => ?_) hflag hwhole harray
  obtain ⟨fs, hfs, h⟩ := bind_eq_ok_iff.1 h
  exact hfinish fs (keys_expectFields hfs) h

/-- The first payload decides about the type of what comes back. -/
theorem expectation_kind (hfirst : vs.head? = some first) (hweights : weights ≠ [])
    (h : expectation vs weights = .ok e) : KeepsKind first e := by
  obtain ⟨others, rfl⟩ := List.head?_eq_some_iff.1 hfirst
  rw [expectation] at h
  cases first with
  | null | flag | text | «sealed» =>
    rw [expect] at h
    cases h
  | weather rain =>
    rw [expect] at h
    obtain ⟨r, -, h⟩ := bind_eq_ok_iff.1 h
    cases h
    exact keepsKind_of_kind rfl Kind.noConfusion Kind.noConfusion Kind.noConfusion
  | whole =>
    rw [expect] at h
    split at h <;> cases h
    exact keepsKind_real (.inl rfl)
  | real =>
    rw [expect] at h
    split at h <;> cases h
    exact keepsKind_real (.inr (.inl rfl))
  | array | wholeArray =>
    rw [expect] at h
    obtain ⟨-, -, rfl⟩ := expectArrays_eq_ok hweights (List.cons_ne_nil _ _) h
    exact keepsKind_of_ofArray rfl rfl
  | textArray ss =>
    rw [expect] at h
    cases (expectArrays_eq_ok hweights (List.cons_ne_nil _ _) h).1
  | list | tuple =>
    rw [expect] at h
    refine keepsKind_of_check h (fun h => ?_) Kind.noConfusion Kind.noConfusion Kind.noConfusion
    obtain ⟨xs, -, h⟩ := bind_eq_ok_iff.1 h
    cases h
    rfl
  | mapping =>
    rw [expect] at h
    refine keepsKind_of_fields h (fun fs _ h => ?_) Kind.noConfusion Kind.noConfusion
      Kind.noConfusion
    cases h
    rfl
  | named t =>
    rw [expect] at h
    refine keepsKind_of_fields h (fun fs hfs h => ?_) Kind.noConfusion Kind.noConfusion
      Kind.noConfusion
    cases h
    exact congrArg (Kind.named t) hfs
  | record t =>
    rw [expect] at h
    refine keepsKind_of_fields h (fun fs hfs h => ?_) Kind.noConfusion Kind.noConfusion
      Kind.noConfusion
    cases h
    exact congrArg (Kind.record t) hfs
  | totalled t =>
    rw [expect] at h
    refine keepsKind_of_fields h (fun fs hfs h => ?_) Kind.noConfusion Kind.noConfusion
      Kind.noConfusion
    obtain ⟨sum, -, h⟩ := bind_eq_ok_iff.1 h
    cases h
    exact congrArg (Kind.totalled t) hfs

/-! ## Schemas -/

/-- A payload fits the schema for expected payloads, or it is a number where arrays are asked
for.  What has to do with arrays without an index comes from such an array. -/
structure Expected (S : Schema) (vs : List (Value K)) (v : Value K) : Prop where
  /-- It fits the schema, unless it is a number in place of an array without an index. -/
  fits : S.relaxed.accepts v = true ∨
    S = .kind .array ∧ v.kind = .real ∧ ∃ w ∈ vs, w.IsPoint
  /-- It is no array without an index, unless there was one. -/
  point : v.IsPoint → ∃ w ∈ vs, w.IsPoint

theorem accepts_relaxed_of_kind {S : Schema} {v w : Value K} (h : S.accepts v = true)
    (hkind : w.kind = v.kind) (hflag : v.kind ≠ .flag) (hwhole : v.kind ≠ .whole) :
    S.relaxed.accepts w = true := by
  cases S with
  | anything => rfl
  | number => simpa only [Schema.relaxed, Schema.accepts, hkind] using h
  | kind k =>
    cases k <;> simp_all [Schema.relaxed, Schema.accepts]

theorem accepts_relaxed_of_real {S : Schema} {v w : Value K} (h : S.accepts v = true)
    (hv : v.kind = .whole ∨ v.kind = .real) (hw : w.kind = .real) :
    S.relaxed.accepts w = true := by
  cases S with
  | anything => rfl
  | number => simp [Schema.relaxed, Schema.accepts, hw]
  | kind k =>
    cases k <;> rcases hv with hv | hv <;> simp_all [Schema.relaxed, Schema.accepts]

theorem relaxed_relaxed (S : Schema) : S.relaxed.relaxed = S.relaxed := by
  cases S with
  | number | anything => rfl
  | kind k => cases k <;> rfl

theorem eq_array_of_relaxed {S : Schema} (h : S.relaxed = .kind .array) : S = .kind .array := by
  cases S with
  | number | anything => cases h
  | kind k => cases k <;> first | rfl | cases h

/-- What comes back for payloads of which the first fits a schema is expected there. -/
theorem expected_of_accepts {S : Schema} (hfirst : vs.head? = some first) (hweights : weights ≠ [])
    (hS : S.accepts first = true) (h : expectation vs weights = .ok e) : Expected S vs e := by
  have hmem := List.mem_of_mem_head? hfirst
  have hkeeps := expectation_kind hfirst hweights h
  refine ⟨?_, fun he => ⟨first, hmem, hkeeps.point he⟩⟩
  obtain ⟨hreal, hwhole | hreal' | hpoint⟩ | ⟨hkind, hflag, hwhole⟩ := hkeeps.kind
  · exact .inl (accepts_relaxed_of_real hS (.inl hwhole) hreal)
  · exact .inl (accepts_relaxed_of_real hS (.inr hreal') hreal)
  · have harray : first.kind = .array := by
      have hfirst := hpoint.1
      cases first <;> first | rfl | cases hfirst
    cases S with
    | anything => exact .inl rfl
    | number => simp [Schema.accepts, harray] at hS
    | kind k =>
      have hk : k = .array := by cases k <;> simp_all [Schema.accepts]
      exact .inr ⟨congrArg _ hk, hreal, first, hmem, hpoint⟩
  · exact .inl (accepts_relaxed_of_kind hS hkind hflag hwhole)

/-- What comes back for expected payloads is expected again. -/
theorem Expected.expectation {S : Schema} {ws : List (Value K)}
    (hvs : ∀ v ∈ vs, Expected S ws v) (hfirst : vs.head? = some first) (hweights : weights ≠ [])
    (h : expectation vs weights = .ok e) : Expected S ws e := by
  have hmem := List.mem_of_mem_head? hfirst
  have hexpected := hvs first hmem
  have hkeeps := expectation_kind hfirst hweights h
  have hpoint : (∃ v ∈ vs, v.IsPoint) → ∃ w ∈ ws, w.IsPoint :=
    fun ⟨v, hv, hpoint⟩ => (hvs v hv).point hpoint
  refine ⟨?_, fun he => hexpected.point (hkeeps.point he)⟩
  obtain haccepts | ⟨rfl, hreal, hw⟩ := hexpected.fits
  · obtain haccepts | ⟨harray, hreal, hv⟩ :=
      (expected_of_accepts hfirst hweights haccepts h).fits
    · exact .inl (relaxed_relaxed S ▸ haccepts)
    · exact .inr ⟨eq_array_of_relaxed harray, hreal, hpoint hv⟩
  · obtain ⟨hreal', -⟩ | ⟨hkind, -⟩ := hkeeps.kind
    · exact .inr ⟨rfl, hreal', hw⟩
    · exact .inr ⟨rfl, hkind.trans hreal, hw⟩

end Scalar

end Value

end Recourse
