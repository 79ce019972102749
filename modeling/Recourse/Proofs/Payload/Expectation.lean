/-
  Proofs/Payload/Expectation.lean --- when payloads have an expectation, and which.

  The first of some payloads decides how they are summed, and everything is checked against
  it on the way.  Still the outcome says something about all of them alike: they have an
  expectation exactly if they are of one structure every part of which has one, and then each
  of its numbers is the weighted sum of the numbers found in the same place (`expect_expects`).
  The induction follows the members of the first payload; the members of the others at the
  same labels go with them.
-/
import Recourse.Proofs.Effect
import Recourse.Proofs.Payload.Part
import Mathlib.Data.List.Forall2

set_option autoImplicit false
set_option linter.unusedSectionVars false

namespace Recourse.Value

variable {K : Type} [Scalar K]

/-! ## What an expectation is -/

/-- One payload has the weighted sums of the numbers of others, which have its structure. -/
structure Averages (weights : List K) (vs : List (Value K)) (e : Value K) : Prop where
  /-- It is made in the way of its type. -/
  proper : e.Proper
  /-- A sum of arrays without an index is a number. -/
  settled : e.Settled
  /-- The structure stays. -/
  sameForm : ∀ v ∈ vs, e.SameForm v
  /-- The numbers are summed place by place. -/
  entry : ∀ path j, j < (e.numbersAt path).length →
    e.entry path j = Scalar.dot weights (vs.map fun v => v.entry path j)

/-- An outcome as it should be: payloads of one structure are averaged, and others refused. -/
def Expects (weights : List K) (vs : List (Value K)) (r : Except (Fault K) (Value K)) : Prop :=
  Settles r (fun e => Uniform vs ∧ Averages weights vs e)
    fun f => ¬Uniform vs ∧ ∃ t, f = .notExpectable t

/-- A number, or an array of numbers. -/
def IsNumeric (v : Value K) : Prop := v.isArray = true ∨ v.real?.isSome = true

/-- What may be found in another payload where something is found in the first one.  The rule
for arrays turns what it meets into an array, so that it must not meet what could become one
without being one; and the rule for numbers takes no array. -/
def Joins (a b : Value K) : Prop :=
  match a with
  | .whole _ | .real _ => b.isArray = true → b.form ≠ .number
  | .array s _ | .wholeArray s _ =>
      b.IsNumeric ∨ (s ≠ [] ∧ b.isSequence = false ∧ b.isTexts = false)
  | .textArray _ => b.isSequence = false
  | _ => True

/-- Whatever is found in a payload may join what is found there in the first one. -/
def Precedes (v w : Value K) : Prop :=
  ∀ path a b, v.part? path = some a → w.part? path = some b → a.Joins b

theorem Precedes.member {v w m m' : Value K} {l : Label} (h : v.Precedes w)
    (hm : v.member? l = some m) (hm' : w.member? l = some m') : m.Precedes m' :=
  fun path a b ha hb => h (l :: path) a b (by rw [part?_cons, hm]; exact ha)
    (by rw [part?_cons, hm']; exact hb)

/-! ## Members -/

variable {weights : List K} {vs : List (Value K)} {first e : Value K} {others : List (Value K)}

theorem map_membersAt {l : Label} (h : ∀ v ∈ vs, (v.member? l).isSome = true) (path : List Label)
    (j : Nat) : (membersAt vs l).map (·.entry path j) = vs.map (·.entry (l :: path) j) := by
  induction vs with
  | nil => rfl
  | cons v vs ih =>
    rw [List.forall_mem_cons] at h
    obtain ⟨m, hm⟩ := Option.isSome_iff_exists.1 h.1
    have ih := ih h.2
    have hcons : membersAt (v :: vs) l = m :: membersAt vs l := List.filterMap_cons_some hm
    rw [hcons, List.map_cons, List.map_cons, ih, entry_cons hm]

theorem length_membersAt {l : Label} (h : ∀ v ∈ vs, (v.member? l).isSome = true) :
    (membersAt vs l).length = vs.length := by
  have hlength := congrArg List.length (map_membersAt h [] 0)
  simpa using hlength

/-- An average is put together from the averages of the members. -/
theorem averages_of_members (hwell : e.WellMade) (hsettled : e.isArray = true → e.form ≠ .number)
    (hform : ∀ v ∈ vs, e.form = v.form)
    (hentry : ∀ j, j < e.numbers.length →
      e.entry [] j = Scalar.dot weights (vs.map fun v => v.entry [] j))
    (hmember : ∀ l, (e.member? l = none ∧ ∀ v ∈ vs, v.member? l = none) ∨
      ∃ c, e.member? l = some c ∧ (∀ v ∈ vs, (v.member? l).isSome = true) ∧
        Averages weights (membersAt vs l) c) : Averages weights vs e := by
  have hsome (l : Label) (c : Value K) (hc : e.member? l = some c) :
      (∀ v ∈ vs, (v.member? l).isSome = true) ∧ Averages weights (membersAt vs l) c := by
    obtain ⟨hnone, -⟩ | ⟨c', hc', hall⟩ := hmember l
    · rw [hc] at hnone
      cases hnone
    · rw [hc] at hc'
      cases hc'
      exact hall
  -- A path is empty, and about the value itself, or it starts at a member that averages.
  refine ⟨proper_of_members hwell fun l c hc => (hsome l c hc).2.proper,
    settled_of_members hsettled fun l c hc => (hsome l c hc).2.settled, fun v hv path => ?_,
    fun path j hj => ?_⟩
  · cases path with
    | nil => exact congrArg some (hform v hv)
    | cons l path =>
      rw [formAt_cons, formAt_cons]
      obtain ⟨hnone, hall⟩ | ⟨c, hc, hall, haverage⟩ := hmember l
      · rw [hnone, hall v hv]
      · obtain ⟨m, hm⟩ := Option.isSome_iff_exists.1 (hall v hv)
        rw [hc, hm]
        exact haverage.sameForm m (List.mem_filterMap.2 ⟨v, hv, hm⟩) path
  · cases path with
    | nil => exact hentry j hj
    | cons l path =>
      cases hc : e.member? l with
      | none =>
        rw [numbersAt_of_not_member hc] at hj
        exact absurd hj (Nat.not_lt_zero j)
      | some c =>
        rw [numbersAt_cons hc] at hj
        rw [entry_cons hc, (hsome l c hc).2.entry path j hj, map_membersAt (hsome l c hc).1]

/-! ## Numbers and arrays -/

/-- The shape of a payload that is no sequence, as an array. -/
def shape : Value K → List Nat
  | .array shape _ | .wholeArray shape _ => shape
  | .textArray ss => [ss.length]
  | _ => []

theorem IsNumeric.form_eq {v : Value K} (h : v.IsNumeric) : v.form = .ofShape v.shape := by
  cases v with
  | array | wholeArray | whole | real => rfl
  | _ => simp [IsNumeric, isArray, real?] at h

theorem isNumeric_of_form {v : Value K} {s : List Nat} (h : v.form = .ofShape s) :
    v.IsNumeric := by
  cases v with
  | array | wholeArray => exact .inl rfl
  | whole | real => exact .inr rfl
  | null | flag | text | textArray | weather | «sealed» =>
    exact absurd h.symm (Form.ofShape_ne_other s)
  | _ => exact absurd h.symm (Form.ofShape_ne_structured s _ _)

theorem IsNumeric.member?_eq {v : Value K} (h : v.IsNumeric) (l : Label) : v.member? l = none := by
  cases v <;> simp_all [IsNumeric, isArray, real?]
  all_goals cases l <;> rfl

theorem IsNumeric.length_numbers {v : Value K} (h : v.IsNumeric) (hv : v.Proper) :
    v.numbers.length = volume v.shape := by
  have hwell := hv.wellMade
  cases v <;> simp_all [IsNumeric, isArray, real?, numbers, shape, volume, WellMade]

/-- The cells of a payload that is no sequence, as an array. -/
def cellValues : Value K → List (Value K)
  | .array _ xs => xs.map .real
  | .wholeArray _ ns => ns.map .whole
  | .textArray ss => ss.map .text
  | v => [v]

theorem cells_eq {v : Value K} (h : v.isSequence = false) :
    cells v = .ok (v.shape, v.cellValues) := by
  cases v with
  | list | tuple | named => cases h
  | _ => simp only [cells, shape, cellValues]

theorem IsNumeric.isSequence_eq {v : Value K} (h : v.IsNumeric) : v.isSequence = false := by
  cases v <;> simp_all [IsNumeric, isArray, real?, isSequence]

theorem shape_of_not_numeric {v : Value K} (h : ¬v.IsNumeric) (htexts : v.isTexts = false) :
    v.shape = [] := by
  cases v with
  | array | wholeArray => exact absurd (.inl rfl) h
  | textArray => cases htexts
  | _ => rfl

theorem mapM_cellNumber_real (xs : List K) : (xs.map Value.real).mapM cellNumber = .ok xs := by
  rw [mapM_eq_ok (g := fun v => v.numbers.headD 0) _ (by simp [cellNumber, numbers]), List.map_map]
  exact congrArg _ (List.map_id xs)

theorem mapM_cellNumber_whole (ns : List Int) :
    (ns.map Value.whole).mapM cellNumber = .ok (ns.map fun n => (Scalar.ofInt n : K)) := by
  rw [mapM_eq_ok (g := fun v => v.numbers.headD 0) _ (by simp [cellNumber, numbers]), List.map_map]
  rfl

theorem IsNumeric.cellNumbers_eq {v : Value K} (h : v.IsNumeric) :
    v.cellValues.mapM cellNumber = .ok v.numbers := by
  cases v with
  | array shape xs => exact mapM_cellNumber_real xs
  | wholeArray shape ns => exact mapM_cellNumber_whole ns
  | whole n => exact mapM_cellNumber_whole [n]
  | real x => exact mapM_cellNumber_real [x]
  | _ => simp [IsNumeric, isArray, real?] at h

/-! ### Sums entry by entry -/

theorem zipWith_mul_map {α : Type} (weights : List K) (g : α → K) (as : List α) :
    List.zipWith (· * ·) weights (as.map g) = (as.zip weights).map fun p => p.2 * g p.1 := by
  induction as generalizing weights with
  | nil => simp
  | cons a as ih =>
    cases weights with
    | nil => rfl
    | cons w weights => rw [List.map_cons, List.zipWith_cons_cons, ih]; rfl

theorem foldl_zipWith {size : Nat} (ps : List (List K × K)) (acc : List K)
    (hacc : acc.length = size) (hps : ∀ p ∈ ps, p.1.length = size) :
    (ps.foldl (fun acc p => List.zipWith (fun a x => a + p.2 * x) acc p.1) acc).length = size ∧
      ∀ j, j < size →
        (ps.foldl (fun acc p => List.zipWith (fun a x => a + p.2 * x) acc p.1) acc).getD j 0 =
          ps.foldl (fun a p => a + p.2 * p.1.getD j 0) (acc.getD j 0) := by
  induction ps generalizing acc with
  | nil => exact ⟨hacc, fun _ _ => rfl⟩
  | cons p ps ih =>
    rw [List.forall_mem_cons] at hps
    have hlength : (List.zipWith (fun a x => a + p.2 * x) acc p.1).length = size := by
      rw [List.length_zipWith, hacc, hps.1, Nat.min_self]
    obtain ⟨hall, hentry⟩ := ih _ hlength hps.2
    refine ⟨hall, fun j hj => (hentry j hj).trans ?_⟩
    rw [List.foldl_cons]
    congr 1
    have ha := List.getElem?_eq_getElem (hacc.symm ▸ hj)
    have hx := List.getElem?_eq_getElem (hps.1.symm ▸ hj)
    rw [List.getD_eq_getElem?_getD, List.getD_eq_getElem?_getD, List.getD_eq_getElem?_getD,
      List.getElem?_zipWith, ha, hx]
    rfl

/-- A weighted sum of arrays of one size is taken entry by entry. -/
theorem weightedArrays_spec {size : Nat} {arrays : List (List K)}
    (h : ∀ xs ∈ arrays, xs.length = size) (weights : List K) :
    (weightedArrays size arrays weights).length = size ∧ ∀ j, j < size →
      (weightedArrays size arrays weights).getD j 0 =
        Scalar.dot weights (arrays.map (·.getD j 0)) := by
  obtain ⟨hlength, hentry⟩ := foldl_zipWith (arrays.zip weights) (Scalar.zeros size)
    (List.length_replicate ..) fun p hp => h p.1 (List.of_mem_zip hp).1
  refine ⟨hlength, fun j hj => (hentry j hj).trans ?_⟩
  have hzero : (Scalar.zeros size : List K).getD j 0 = 0 := by
    rw [Scalar.zeros, List.getD_eq_getElem?_getD, List.getElem?_replicate, if_pos hj]
    rfl
  rw [Scalar.dot, Scalar.sum, zipWith_mul_map, List.foldl_map, hzero]

/-! ### The rules -/

/-- An array of sums, which is a number if it has no index. -/
def ofArray (shape : List Nat) (sums : List K) : Value K :=
  match shape, sums with
  | [], [x] => .real x
  | _, _ => .array shape sums

theorem ofArray_eq (shape : List Nat) (sums : List K) :
    (match shape, sums with
      | [], [x] => .ok (.real x)
      | _, _ => .ok (.array shape sums) : Except (Fault K) (Value K)) =
      .ok (ofArray shape sums) := by
  unfold ofArray
  split <;> rfl

theorem averages_ofArray {shape : List Nat} {sums : List K}
    (hmember : ∀ v ∈ vs, ∀ l, v.member? l = none) (hform : ∀ v ∈ vs, v.form = .ofShape shape)
    (hsums : sums.length = volume shape) (hentry : ∀ j, j < volume shape →
      sums.getD j 0 = Scalar.dot weights (vs.map ((·.getD j 0) ∘ numbers))) :
    Averages weights vs (ofArray shape sums) := by
  by_cases h : shape = []
  · subst h
    obtain ⟨x, rfl⟩ := List.length_eq_one_iff.1 hsums
    refine averages_of_members trivial (fun h => by cases h) (fun v hv => (hform v hv).symm) ?_
      fun l => .inl ⟨by cases l <;> rfl, fun v hv => hmember v hv l⟩
    exact hentry
  · have harray : ofArray shape sums = .array shape sums := by
      unfold ofArray
      split
      · exact absurd rfl h
      · rfl
    have hne : Form.ofShape shape ≠ .number := by simp [Form.ofShape, h]
    rw [harray]
    refine averages_of_members hsums (fun _ => hne) (fun v hv => (hform v hv).symm) ?_
      fun l => .inl ⟨by cases l <;> rfl, fun v hv => hmember v hv l⟩
    exact fun j hj => hentry j (hsums ▸ hj)

/-- The rule for arrays: numbers and arrays of one shape are summed entry by entry. -/
theorem expectArrays_expects (typeName : String) (hfirst : first.IsNumeric)
    (hothers : ∀ w ∈ others,
      w.IsNumeric ∨ (first.shape ≠ [] ∧ w.isSequence = false ∧ w.isTexts = false))
    (hproper : ∀ v ∈ first :: others, v.Proper)
    (hlength : weights.length = (first :: others).length) :
    Expects weights (first :: others)
      (expectArrays first.shape true (first :: others) weights typeName) := by
  have hcells : (first :: others).mapM cells =
      .ok ((first :: others).map fun v => (v.shape, v.cellValues)) := by
    refine mapM_eq_ok _ (List.forall_mem_cons.2 ⟨cells_eq hfirst.isSequence_eq, fun w hw => ?_⟩)
    exact cells_eq ((hothers w hw).elim (fun h => h.isSequence_eq) fun h => h.2.1)
  unfold expectArrays
  rw [hcells]
  show Expects _ _ (if _ then _ else _)
  split
  · rename_i hshape
    obtain ⟨v, hv, hne⟩ : ∃ v ∈ others, v.shape ≠ first.shape := by simpa using hshape
    refine ⟨fun h => hne ?_, typeName, rfl⟩
    have hform := ((h v (List.mem_cons_of_mem _ hv)).2 first List.mem_cons_self).form_eq
    rw [hfirst.form_eq] at hform
    exact Form.ofShape_injective ((isNumeric_of_form hform).form_eq.symm.trans hform)
  · rename_i hshape
    have hshape : ∀ v ∈ first :: others, v.shape = first.shape := by simpa using hshape
    have hnumeric : ∀ v ∈ first :: others, v.IsNumeric := by
      refine List.forall_mem_cons.2 ⟨hfirst, fun w hw => (hothers w hw).elim id ?_⟩
      rintro ⟨hne, -, htexts⟩
      by_contra h
      exact hne (hshape w (List.mem_cons_of_mem _ hw) ▸ shape_of_not_numeric h htexts)
    have hcut : List.take weights.length (((first :: others).map
        fun v => (v.shape, v.cellValues)).map (·.2)) = (first :: others).map cellValues := by
      rw [List.map_map, hlength]
      exact List.take_of_length_le (by simp)
    have hnumbers : ((first :: others).map cellValues).mapM (fun xs => xs.mapM cellNumber) =
        .ok ((first :: others).map numbers) := by
      rw [List.mapM_map]
      exact mapM_eq_ok _ fun v hv => (hnumeric v hv).cellNumbers_eq
    have hsizes : ∀ xs ∈ (first :: others).map numbers, xs.length = volume first.shape := by
      rw [List.forall_mem_map]
      exact fun v hv => hshape v hv ▸ (hnumeric v hv).length_numbers (hproper v hv)
    obtain ⟨hsums, hentry⟩ := weightedArrays_spec hsizes weights
    simp only [List.map_map] at hentry
    rw [hcut, if_neg (by simp), hnumbers]
    have hform (v : Value K) (hv : v ∈ first :: others) : v.form = .ofShape first.shape :=
      hshape v hv ▸ (hnumeric v hv).form_eq
    have huniform : Uniform (first :: others) :=
      uniform_of_leaves (fun v hv => (hnumeric v hv).member?_eq)
        (fun v hv w hw => (hform v hv).trans (hform w hw).symm)
        fun v hv => hform v hv ▸ Form.ofShape_ne_other _
    have haverage := averages_ofArray (fun v hv => (hnumeric v hv).member?_eq) hform hsums hentry
    show Expects weights (first :: others) (match first.shape, weightedArrays _ _ _ with
      | [], [x] => .ok (.real x)
      | _, _ => .ok (.array _ _))
    rw [ofArray_eq]
    exact ⟨huniform, haverage⟩

theorem not_uniform_of_form {w : Value K} (hw : w ∈ others) (h : w.form ≠ first.form) :
    ¬Uniform (first :: others) := fun huniform =>
  h ((huniform w (List.mem_cons_of_mem first hw)).2 first List.mem_cons_self).form_eq

theorem not_uniform_of_other (h : first.form = .other) : ¬Uniform (first :: others) :=
  fun huniform => (huniform first List.mem_cons_self).1 [] (congrArg some h)

theorem real?_eq {v : Value K} (h : v.real?.isSome = true) : v.real? = some (v.entry [] 0) := by
  cases v <;> first | rfl | cases h

theorem mapM_real?_eq_some (h : ∀ v ∈ vs, v.real?.isSome = true) :
    vs.mapM real? = some (vs.map (·.entry [] 0)) := by
  induction vs with
  | nil => rfl
  | cons v vs ih =>
    rw [List.forall_mem_cons] at h
    rw [List.mapM_cons, real?_eq h.1, ih h.2]
    rfl

theorem mapM_real?_eq_none {w : Value K} (hw : w ∈ vs) (h : w.real? = none) :
    vs.mapM real? = none := by
  induction vs with
  | nil => cases hw
  | cons v vs ih =>
    rw [List.mapM_cons]
    rcases List.mem_cons.1 hw with rfl | hw
    · rw [h]
      rfl
    · rw [ih hw]
      cases v.real? <;> rfl

/-- The rule for numbers: all have to be numbers, and no arrays. -/
theorem expects_of_real (t : String) (hfirst : first.real?.isSome = true)
    (hjoins : ∀ w ∈ others, w.isArray = true → w.form ≠ .number) :
    Expects weights (first :: others) (match (first :: others).mapM real? with
      | some xs => .ok (.real (Scalar.dot weights xs))
      | none => .error (.notExpectable t)) := by
  have hnumber (v : Value K) (h : v.real?.isSome = true) :
      v.form = .number ∧ ∀ l, v.member? l = none :=
    ⟨(by cases v <;> first | rfl | cases h), IsNumeric.member?_eq (.inr h)⟩
  by_cases hothers : ∀ w ∈ others, w.real?.isSome = true
  · have hall : ∀ v ∈ first :: others, v.real?.isSome = true :=
      List.forall_mem_cons.2 ⟨hfirst, hothers⟩
    rw [mapM_real?_eq_some hall]
    refine ⟨uniform_of_leaves (fun v hv => (hnumber v (hall v hv)).2)
      (fun v hv w hw => (hnumber v (hall v hv)).1.trans (hnumber w (hall w hw)).1.symm)
      (fun v hv => (hnumber v (hall v hv)).1 ▸ Form.noConfusion), ?_⟩
    refine averages_of_members trivial (fun h => by cases h)
      (fun v hv => (hnumber v (hall v hv)).1.symm) (fun j hj => ?_)
      fun l => .inl ⟨by cases l <;> rfl, fun v hv => (hnumber v (hall v hv)).2 l⟩
    obtain rfl : j = 0 := Nat.lt_one_iff.1 hj
    rfl
  · simp only [not_forall, Bool.not_eq_true, Option.isSome_eq_false_iff,
      Option.isNone_iff_eq_none] at hothers
    obtain ⟨w, hw, hnone⟩ := hothers
    rw [mapM_real?_eq_none (List.mem_cons_of_mem first hw) hnone]
    refine ⟨not_uniform_of_form hw fun hform => ?_, t, rfl⟩
    rw [(hnumber first hfirst).1] at hform
    have harray : w.isArray = true := by
      cases w <;> simp_all [form, isArray, real?]
    exact hjoins w hw harray hform

/-- The rule for arrays, where the first payload is one of texts. -/
theorem expectArrays_texts (ss : List String) (t : String)
    (hothers : ∀ w ∈ others, w.isSequence = false) :
    Expects weights (.textArray ss :: others)
      (expectArrays [ss.length] false (.textArray ss :: others) weights t) := by
  have hcells : (Value.textArray ss :: others).mapM cells =
      .ok ((Value.textArray ss :: others).map fun v => (v.shape, v.cellValues)) :=
    mapM_eq_ok _ (List.forall_mem_cons.2 ⟨cells_eq rfl, fun w hw => cells_eq (hothers w hw)⟩)
  unfold expectArrays
  rw [hcells]
  show Expects _ _ (if _ then _ else _)
  rw [if_pos (by simp)]
  exact ⟨not_uniform_of_other rfl, t, rfl⟩

/-! ## Totals -/

/-- The shape of a payload that can be added to others. -/
def numericShape (v : Value K) : Option (List Nat) := v.numeric?.map (·.1)

/-- A payload that can be added to others has as many numbers as its shape says. -/
def Filled (v : Value K) : Prop := ∀ s xs, v.numeric? = some (s, xs) → xs.length = volume s

theorem Proper.filled {v : Value K} (h : v.Proper) : v.Filled := by
  have hwell := h.wellMade
  intro s xs hxs
  cases v <;> simp only [numeric?, Option.some.injEq, Prod.mk.injEq, reduceCtorEq] at hxs
  all_goals
    obtain ⟨rfl, rfl⟩ := hxs
    first | rfl | (rw [List.length_map]; exact hwell)

theorem ofNumerals_spec {s : List Nat} {xs : List (Numeral K)} (h : xs.length = volume s) :
    (ofNumerals s xs).numericShape = some s ∧ (ofNumerals s xs).Filled := by
  unfold ofNumerals
  dsimp only
  split
  · exact ⟨rfl, fun _ _ hxs => by cases hxs; rfl⟩
  · exact ⟨rfl, fun _ _ hxs => by cases hxs; rfl⟩
  · split
    · rename_i hwhole
      refine ⟨rfl, fun _ _ hxs => ?_⟩
      cases hxs
      rw [List.length_map, hwhole.1, h]
    · refine ⟨rfl, fun _ _ hxs => ?_⟩
      cases hxs
      rw [List.length_map, List.length_map, h]

/-- The shape of the sum of payloads of two shapes. -/
def sumShape (s s' : List Nat) : Option (List Nat) :=
  if s = s' then some s else if s = [] then some s' else if s' = [] then some s else none

theorem add_settles {a b : Value K} {s : List Nat} (ha : a.numericShape = some s) (hfa : a.Filled)
    (hfb : b.Filled) :
    Settles (add a b) (fun v => b.numericShape.bind (sumShape s) = v.numericShape ∧
        v.numericShape.isSome = true ∧ v.Filled)
      fun _ => b.numericShape.bind (sumShape s) = none := by
  obtain ⟨xs, hxs⟩ : ∃ xs, a.numeric? = some (s, xs) := by
    obtain ⟨⟨_, xs⟩, hxs, rfl⟩ := Option.map_eq_some_iff.1 ha
    exact ⟨xs, hxs⟩
  have hlength := hfa _ _ hxs
  unfold add numericShape
  rw [hxs]
  cases hb : b.numeric? with
  | none => rfl
  | some pair =>
    obtain ⟨s', ys⟩ := pair
    have hlength' := hfb _ _ hb
    have hok (t : List Nat) (zs : List (Numeral K)) (ht : sumShape s s' = some t)
        (hzs : zs.length = volume t) : Settles (.ok (ofNumerals t zs))
          (fun v : Value K => sumShape s s' = v.numeric?.map (·.1) ∧
            (v.numeric?.map (·.1)).isSome = true ∧ v.Filled)
          (fun _ : Fault K => sumShape s s' = none) := by
      obtain ⟨hshape, hfilled⟩ := ofNumerals_spec hzs
      unfold numericShape at hshape
      exact ⟨ht.trans hshape.symm, by rw [hshape]; rfl, hfilled⟩
    dsimp only [Option.map_some, Option.bind_some]
    -- Equal shapes are added entry by entry; of two others one has to be a scalar, which is spread.
    by_cases hsame : s = s'
    · subst hsame
      rw [if_pos rfl]
      exact hok s _ (if_pos rfl) (by rw [List.length_zipWith, hlength, hlength', Nat.min_self])
    rw [if_neg hsame]
    cases s with
    | nil =>
      obtain ⟨x, rfl⟩ := List.length_eq_one_iff.1 hlength
      refine hok s' _ ?_ (by rw [List.length_map, hlength'])
      rw [sumShape, if_neg hsame, if_pos rfl]
    | cons n s =>
      cases s' with
      | nil =>
        obtain ⟨y, rfl⟩ := List.length_eq_one_iff.1 hlength'
        refine hok (n :: s) _ ?_ (by rw [List.length_map, hlength])
        rw [sumShape, if_neg hsame, if_neg (List.cons_ne_nil n s), if_pos rfl]
      | cons n' s' =>
        show sumShape (n :: s) (n' :: s') = none
        rw [sumShape, if_neg hsame, if_neg (List.cons_ne_nil n s), if_neg (List.cons_ne_nil n' s')]

/-- The shape of a total, from the shapes of the fields. -/
def totalShape (s : List Nat) (shapes : List (Option (List Nat))) : Option (List Nat) :=
  shapes.foldlM (fun s s' => s'.bind (sumShape s)) s

theorem foldlM_add_settles (fields : List (String × Value K)) (h : ∀ f ∈ fields, f.2.Filled)
    {acc : Value K} {s : List Nat} (hacc : acc.numericShape = some s) (hfilled : acc.Filled) :
    Settles (fields.foldlM (fun acc f => add acc f.2) acc)
      (fun _ => (totalShape s (fields.map (·.2.numericShape))).isSome = true)
      fun _ => totalShape s (fields.map (·.2.numericShape)) = none := by
  induction fields generalizing acc s with
  | nil => rfl
  | cons f fields ih =>
    rw [List.forall_mem_cons] at h
    rw [List.foldlM_cons]
    have hstep : totalShape s ((f :: fields).map (·.2.numericShape)) =
        (f.2.numericShape.bind (sumShape s)).bind fun t =>
          totalShape t (fields.map (·.2.numericShape)) := rfl
    rw [hstep]
    refine Settles.bind ((add_settles hacc hfilled h.1).mono ?_ ?_)
    · rintro v ⟨hshape, hsome, hv⟩
      obtain ⟨t, ht⟩ := Option.isSome_iff_exists.1 hsome
      rw [hshape, ht]
      exact ih h.2 ht hv
    · intro _ hnone
      rw [hnone]
      rfl

/-- Whether there is a total depends on the shapes of the fields alone. -/
theorem exists_total_iff {fields : List (String × Value K)} (h : ∀ f ∈ fields, f.2.Filled) :
    (∃ t, total fields = .ok t) ↔
      (totalShape [] (fields.map (·.2.numericShape))).isSome = true := by
  have hzero : (Value.whole 0 : Value K).Filled := fun _ _ hxs => by cases hxs; rfl
  have hshape : (Value.whole 0 : Value K).numericShape = some [] := rfl
  have htotal := foldlM_add_settles fields h hshape hzero
  unfold total
  cases hfold : fields.foldlM (fun acc f => add acc f.2) (.whole 0) with
  | ok t => exact iff_of_true ⟨t, rfl⟩ (htotal.of_ok hfold)
  | error f =>
    rw [htotal.of_error hfold]
    exact iff_of_false (fun ⟨_, h⟩ => by cases h) Bool.false_ne_true

/-- Payloads of one form that have an expectation have one shape in a sum. -/
theorem numericShape_congr {v w : Value K} (h : v.form = w.form) (hv : v.form ≠ .other) :
    v.numericShape = w.numericShape := by
  have hshape (u : Value K) (hu : u.form ≠ .other) : u.numericShape = match u.form with
      | .number => some []
      | .array s => some s
      | _ => none := by
    cases u with
    | array s xs | wholeArray s xs => cases s <;> rfl
    | flag b => exact absurd rfl hu
    | _ => rfl
  rw [hshape v hv, hshape w (h ▸ hv), h]

/-! ## Structures -/

theorem expectItems_drop (weights : List K) (xs : List (Value K)) (rows : List (List (Value K)))
    (n : Nat) : expectItems weights xs (rows.map (·.drop n)) =
      (xs.zipIdx n).mapM fun p => expect weights p.1 (rows.filterMap (·[p.2]?)) := by
  induction xs generalizing n with
  | nil => rfl
  | cons x xs ih =>
    have hheads : (rows.map (·.drop n)).filterMap List.head? = rows.filterMap (·[n]?) := by
      rw [List.filterMap_map]
      exact List.filterMap_congr fun row _ => List.head?_drop
    have htails : (rows.map (·.drop n)).map List.tail = rows.map (·.drop (n + 1)) := by
      rw [List.map_map]
      exact List.map_congr_left fun row _ => List.tail_drop
    rw [expectItems, hheads, htails, ih, List.zipIdx_cons, List.mapM_cons]

/-- The members of sequences are expected position by position. -/
theorem expectItems_eq (weights : List K) (xs : List (Value K)) (others : List (Value K)) :
    expectItems weights xs (others.map items) =
      xs.zipIdx.mapM fun p => expect weights p.1 (membersAt others (.position p.2)) := by
  have hdrop := expectItems_drop weights xs (others.map items) 0
  simp only [List.drop_zero, List.map_id', List.filterMap_map] at hdrop
  exact hdrop

/-- The members of mappings and records are expected key by key. -/
theorem expectFields_eq (weights : List K) (fields : List (String × Value K))
    (others : List (Value K)) : expectFields weights fields (others.map entries) =
      fields.mapM fun f => do return (f.1, ← expect weights f.2 (membersAt others (.key f.1))) := by
  induction fields with
  | nil => rfl
  | cons f fields ih =>
    obtain ⟨key, v⟩ := f
    have hcolumn : column (others.map entries) key = membersAt others (.key key) := by
      rw [column, List.filterMap_map]
      rfl
    rw [expectFields, hcolumn, ih, List.mapM_cons, bind_assoc]
    simp only [pure_bind]

theorem numbers_of_structured {v : Value K} {k : Kind} {n : Nat} (h : v.form = .structured k n) :
    v.numbers = [] := by
  cases v with
  | array s | wholeArray s => exact absurd h (Form.ofShape_ne_structured s k n)
  | whole | real => cases h
  | _ => rfl

/-- A structure is averaged member by member. -/
theorem averages_of_structured {k : Kind} {n : Nat} (hwell : e.WellMade)
    (hform : e.form = .structured k n) (hvs : ∀ v ∈ vs, v.form = .structured k n)
    (hmember : ∀ l, (e.member? l = none ∧ ∀ v ∈ vs, v.member? l = none) ∨
      ∃ c, e.member? l = some c ∧ (∀ v ∈ vs, (v.member? l).isSome = true) ∧
        Uniform (membersAt vs l) ∧ Averages weights (membersAt vs l) c) :
    Uniform vs ∧ Averages weights vs e := by
  constructor
  · refine uniform_of_members (fun v hv w hw => (hvs v hv).trans (hvs w hw).symm)
      (fun v hv => hvs v hv ▸ Form.noConfusion) (fun l v hv w hw => ?_) fun l => ?_
    · obtain ⟨-, hnone⟩ | ⟨-, -, hsome, -⟩ := hmember l
      · rw [hnone v hv, hnone w hw]
      · rw [hsome v hv, hsome w hw]
    · obtain ⟨-, hnone⟩ | ⟨-, -, -, huniform, -⟩ := hmember l
      · intro m hm
        obtain ⟨v, hv, hvm⟩ := List.mem_filterMap.1 hm
        rw [hnone v hv] at hvm
        cases hvm
      · exact huniform
  · refine averages_of_members hwell (fun _ => hform ▸ Form.noConfusion)
      (fun v hv => hform.trans (hvs v hv).symm) (fun j hj => ?_) fun l => ?_
    · rw [numbers_of_structured hform] at hj
      exact absurd hj (Nat.not_lt_zero j)
    · obtain hnone | ⟨c, hc, hsome, -, haverage⟩ := hmember l
      · exact .inl hnone
      · exact .inr ⟨c, hc, hsome, haverage⟩

/-- The rule for sequences, which have the same number of members. -/
theorem expects_of_items (build : List (Value K) → Value K) {k : Kind} {xs : List (Value K)}
    (hitems : ∀ ys, (build ys).items = ys) (hentries : ∀ ys, (build ys).entries = [])
    (hform : ∀ ys, (build ys).form = .structured k ys.length) (hwell : ∀ ys, (build ys).WellMade)
    (hothers : ∀ w ∈ others, w.form = .structured k xs.length ∧ w.items.length = xs.length ∧
      w.entries = [])
    (hmembers : ∀ i x, xs[i]? = some x → Expects weights
      (membersAt (build xs :: others) (.position i))
      (expect weights x (membersAt others (.position i)))) :
    Expects weights (build xs :: others)
      (expectItems weights xs (others.map items) >>= fun es => .ok (build es)) := by
  have hall : ∀ v ∈ build xs :: others, v.form = .structured k xs.length ∧
      v.items.length = xs.length ∧ v.entries = [] :=
    List.forall_mem_cons.2 ⟨⟨hform xs, congrArg List.length (hitems xs), hentries xs⟩, hothers⟩
  rw [expectItems_eq]
  -- The members at one position are what the rule is applied to; if they do not go together,
  -- neither do the sequences.
  have heach := Settles.mapM (R := fun p c =>
      Uniform (membersAt (build xs :: others) (.position p.2)) ∧
        Averages weights (membersAt (build xs :: others) (.position p.2)) c)
    (E := fun f => ¬Uniform (build xs :: others) ∧ ∃ t, f = .notExpectable t) xs.zipIdx
    (f := fun p => expect weights p.1 (membersAt others (.position p.2))) fun p hp =>
      (hmembers p.2 p.1 (List.mk_mem_zipIdx_iff_getElem?.1 hp)).mono (fun _ h => h)
        fun _ h => ⟨fun huniform => h.1 (huniform.members _), h.2⟩
  refine Settles.bind (heach.mono (fun es hes => ?_) fun _ h => h)
  rw [List.forall₂_iff_get] at hes
  obtain ⟨hlength, hget⟩ := hes
  rw [List.length_zipIdx] at hlength
  refine averages_of_structured (hwell es) (hform es) (fun v hv => ?_) fun l => ?_
  · rw [(hall v hv).1, hlength]
  · cases l with
    | key name =>
      refine .inl ⟨by rw [member?, hentries]; rfl, fun v hv => ?_⟩
      rw [member?, (hall v hv).2.2]
      rfl
    | position i =>
      by_cases hi : i < es.length
      · refine .inr ⟨es[i], ?_, fun v hv => ?_, ?_⟩
        · rw [member?, hitems, List.getElem?_eq_getElem hi]
        · have hv := (hall v hv).2.1
          rw [member?, List.getElem?_eq_getElem (by omega)]
          rfl
        · have hi' := hget i (by rw [List.length_zipIdx]; omega) hi
          simpa using hi'
      · refine .inl ⟨by rw [member?, hitems, List.getElem?_eq_none (by omega)], fun v hv => ?_⟩
        have hv := (hall v hv).2.1
        rw [member?, List.getElem?_eq_none (by omega)]

/-- The kinds of records, whose fields are part of the kind. -/
def RecordKind (k : Kind) : Prop :=
  ∃ t ks, k = .named t ks ∨ k = .record t ks ∨ k = .totalled t ks

theorem kind_eq_iff {w : Value K} {k : Kind} (hk : k = .mapping ∨ RecordKind k) :
    w.kind = k ↔ w.form = .structured k 0 := by
  rcases hk with rfl | ⟨t, ks, rfl | rfl | rfl⟩ <;>
    cases w <;> simp [kind, form, Form.ofShape_ne_structured]

theorem checkKind_iff {k : Kind} (hk : k = .mapping ∨ RecordKind k) :
    (others.all fun p => p.kind == k) = true ↔ ∀ w ∈ others, w.form = .structured k 0 := by
  simp only [List.all_eq_true, beq_iff_eq]
  exact forall₂_congr fun w _ => kind_eq_iff hk

theorem checkLength_iff {k : Kind} {n : Nat} (hk : k = .list ∨ k = .tuple) :
    ((others.all fun p => p.kind == k) && others.all fun p => p.items.length == n) = true ↔
      ∀ w ∈ others, w.form = .structured k n := by
  simp only [Bool.and_eq_true, List.all_eq_true, beq_iff_eq, ← forall₂_and]
  refine forall₂_congr fun w _ => ?_
  rcases hk with rfl | rfl <;> cases w <;> simp [kind, items, form, Form.ofShape_ne_structured]

/-- What a structure is built from can be read off its form. -/
theorem members_of_form {w : Value K} {k : Kind} (h : w.form = .structured k 0)
    (hk : k = .mapping ∨ RecordKind k) :
    w.items = [] ∧ ∀ t ks, k = .named t ks ∨ k = .record t ks ∨ k = .totalled t ks →
      w.entries.map (·.1) = ks := by
  rcases hk with rfl | ⟨t, ks, rfl | rfl | rfl⟩ <;>
    cases w <;> simp_all [form, Form.ofShape_ne_structured, items, entries]

theorem sameKeys_iff (a b : List (String × Value K)) : sameKeys a b = true ↔
    ∀ key, (Table.find? b key).isSome = (Table.find? a key).isSome := by
  have hkey (key : String) :
      (Table.find? b key).isSome = (Table.find? a key).isSome ↔
        (key ∈ b.map (·.1) ↔ key ∈ a.map (·.1)) := by
    rw [Bool.eq_iff_iff, Table.find?_isSome_iff, Table.find?_isSome_iff]
  simp only [sameKeys, Bool.and_eq_true, List.all_eq_true, List.contains_iff_mem, hkey]
  exact ⟨fun h key => ⟨h.2 key, h.1 key⟩, fun h => ⟨fun key => (h key).2, fun key => (h key).1⟩⟩

/-- The rule for mappings and records, which have the same keys. -/
theorem expects_of_fields (build : List (String × Value K) → Value K) {k : Kind}
    {fields : List (String × Value K)}
    {finish : List (String × Value K) → Except (Fault K) (Value K)}
    (hitems : ∀ fs, (build fs).items = []) (hentries : ∀ fs, (build fs).entries = fs)
    (hform : ∀ fs, fs.map (·.1) = fields.map (·.1) → (build fs).form = .structured k 0)
    (hnodup : (fields.map (·.1)).Nodup)
    (hfinish : ∀ fs, List.Forall₂ (fun f g => g.1 = f.1 ∧ g.2.Proper ∧ g.2.form = f.2.form ∧
      f.2.form ≠ .other) fields fs → finish fs = .ok (build fs) ∧ (build fs).WellMade)
    (hothers : ∀ w ∈ others, w.form = .structured k 0 ∧ w.items = [] ∧
      ∀ key, (Table.find? w.entries key).isSome = (Table.find? fields key).isSome)
    (hmembers : ∀ key v, Table.find? fields key = some v → Expects weights
      (membersAt (build fields :: others) (.key key))
      (expect weights v (membersAt others (.key key)))) :
    Expects weights (build fields :: others)
      (expectFields weights fields (others.map entries) >>= finish) := by
  have hall : ∀ v ∈ build fields :: others, v.form = .structured k 0 ∧ v.items = [] ∧
      ∀ key, (Table.find? v.entries key).isSome = (Table.find? fields key).isSome :=
    List.forall_mem_cons.2 ⟨⟨hform fields rfl, hitems fields, fun _ => by rw [hentries]⟩, hothers⟩
  have hfind (f : String × Value K) (hf : f ∈ fields) : Table.find? fields f.1 = some f.2 :=
    Table.find?_eq_of_mem hnodup hf
  rw [expectFields_eq]
  have heach := Settles.mapM (R := fun f g => g.1 = f.1 ∧
      Uniform (membersAt (build fields :: others) (.key f.1)) ∧
        Averages weights (membersAt (build fields :: others) (.key f.1)) g.2)
    (E := fun f => ¬Uniform (build fields :: others) ∧ ∃ t, f = .notExpectable t) fields
    (f := fun f => do return (f.1, ← expect weights f.2 (membersAt others (.key f.1)))) fun f hf =>
      Settles.bind ((hmembers f.1 f.2 (hfind f hf)).mono (fun _ h => ⟨rfl, h⟩)
        fun _ h => ⟨fun huniform => h.1 (huniform.members _), h.2⟩)
  refine Settles.bind (heach.mono (fun fs hfs => ?_) fun _ h => h)
  have hkeys : fs.map (·.1) = fields.map (·.1) :=
    Table.keys_eq_of_forall₂ (hfs.imp fun _ _ h => h.1)
  -- The keys are those of the first payload, and every value has the form of its field.
  have hforms : List.Forall₂ (fun f g => g.1 = f.1 ∧ g.2.Proper ∧ g.2.form = f.2.form ∧
      f.2.form ≠ .other) fields fs := by
    refine ((List.forall₂_and_left _ _).2 ⟨hfind, hfs⟩).imp fun f g h => ?_
    obtain ⟨hf, hkey, huniform, haverage⟩ := h
    have hmem : f.2 ∈ membersAt (build fields :: others) (.key f.1) :=
      List.mem_filterMap.2 ⟨_, List.mem_cons_self, by rw [member?, hentries, hf]⟩
    exact ⟨hkey, haverage.proper, (haverage.sameForm f.2 hmem).form_eq,
      fun hother => (huniform f.2 hmem).1 [] (congrArg some hother)⟩
  obtain ⟨hok, hwell⟩ := hfinish fs hforms
  rw [hok]
  refine averages_of_structured hwell (hform fs hkeys) (fun v hv => (hall v hv).1) fun l => ?_
  cases l with
  | position i =>
    refine .inl ⟨by rw [member?, hitems]; rfl, fun v hv => ?_⟩
    rw [member?, (hall v hv).2.1]
    rfl
  | key name =>
    obtain ⟨hnone, hnone'⟩ | ⟨a, c, ha, hc, huniform, haverage⟩ := Table.find?_of_forall₂ hfs name
    · refine .inl ⟨by rw [member?, hentries, hnone'], fun v hv => ?_⟩
      have hv := (hall v hv).2.2 name
      rw [hnone, Option.isSome_none, Option.isSome_eq_false_iff, Option.isNone_iff_eq_none] at hv
      exact hv
    · refine .inr ⟨c, by rw [member?, hentries, hc], fun v hv => ?_, huniform, haverage⟩
      have hv := (hall v hv).2.2 name
      rw [ha] at hv
      exact hv

theorem refused_of_form (t : String) (h : ¬∀ w ∈ others, w.form = first.form) :
    Expects weights (first :: others) (.error (.notExpectable t)) := by
  simp only [not_forall] at h
  obtain ⟨w, hw, hform⟩ := h
  exact ⟨not_uniform_of_form hw hform, t, rfl⟩

theorem expects_of_sequence (build : List (Value K) → Value K) {k : Kind} {xs : List (Value K)}
    (hk : k = .list ∨ k = .tuple) (hitems : ∀ ys, (build ys).items = ys)
    (hentries : ∀ ys, (build ys).entries = [])
    (hform : ∀ ys, (build ys).form = .structured k ys.length) (hwell : ∀ ys, (build ys).WellMade)
    (t : String)
    (hmembers : ∀ i x, xs[i]? = some x →
      (∀ w ∈ others, (w.member? (.position i)).isSome = true) → Expects weights
        (membersAt (build xs :: others) (.position i))
        (expect weights x (membersAt others (.position i)))) :
    Expects weights (build xs :: others)
      (if ((others.all fun p => p.kind == k) &&
          others.all fun p => p.items.length == xs.length) = true
        then do return build (← expectItems weights xs (others.map items))
        else .error (.notExpectable t)) := by
  split
  · rename_i hcheck
    have hothers : ∀ w ∈ others, w.items.length = xs.length ∧ w.entries = [] := by
      intro w hw
      have hform := (checkLength_iff hk).1 hcheck w hw
      rcases hk with rfl | rfl <;> cases w <;>
        simp_all [form, Form.ofShape_ne_structured, items, entries]
    refine expects_of_items build hitems hentries hform hwell
      (fun w hw => ⟨(checkLength_iff hk).1 hcheck w hw, hothers w hw⟩) fun i x hx => ?_
    refine hmembers i x hx fun w hw => ?_
    rw [member?, List.getElem?_eq_getElem]
    · rfl
    · rw [(hothers w hw).1]
      exact (List.getElem?_eq_some_iff.1 hx).1
  · rename_i hcheck
    refine refused_of_form t fun h => hcheck ((checkLength_iff hk).2 ?_)
    rwa [hform] at h

/-- The fields of a record stay where their names do. -/
theorem nodup_of_forall₂ {fields fs : List (String × Value K)}
    {R : String × Value K → String × Value K → Prop}
    (h : List.Forall₂ (fun f g => g.1 = f.1 ∧ R f g) fields fs)
    (hnodup : (fields.map (·.1)).Nodup) : (fs.map (·.1)).Nodup := by
  rwa [Table.keys_eq_of_forall₂ (h.imp fun _ _ h => h.1)]

/-- Fields of the forms of others, which have an expectation, have their shapes in a sum. -/
theorem numericShapes_of_forall₂ {fields fs : List (String × Value K)}
    (hfs : List.Forall₂ (fun f g => g.1 = f.1 ∧ g.2.Proper ∧ g.2.form = f.2.form ∧
      f.2.form ≠ .other) fields fs) :
    (∀ g ∈ fs, g.2.Filled) ∧ fs.map (·.2.numericShape) = fields.map (·.2.numericShape) := by
  induction hfs with
  | nil => exact ⟨fun _ h => (List.not_mem_nil h).elim, rfl⟩
  | cons h _ ih =>
    obtain ⟨-, hproper, hform, hother⟩ := h
    refine ⟨List.forall_mem_cons.2 ⟨hproper.filled, ih.1⟩, ?_⟩
    rw [List.map_cons, List.map_cons, ih.2, numericShape_congr hform (hform ▸ hother)]

/-- A record of expected fields has a total if the record has one. -/
theorem total_of_forall₂ {t : String} {fields fs : List (String × Value K)}
    (h : (Value.totalled t fields).Proper)
    (hfs : List.Forall₂ (fun f g => g.1 = f.1 ∧ g.2.Proper ∧ g.2.form = f.2.form ∧
      f.2.form ≠ .other) fields fs) :
    (do let _ ← total fs; return .totalled t fs : Except (Fault K) (Value K)) =
        .ok (.totalled t fs) ∧ (Value.totalled t fs).WellMade := by
  have hwell := h.wellMade
  have hfilled : ∀ f ∈ fields, f.2.Filled := fun f hf =>
    (h.member (l := .key f.1) (Table.find?_eq_of_mem hwell.1 hf)).filled
  obtain ⟨hfilled', hshapes⟩ := numericShapes_of_forall₂ hfs
  have htotal : ∃ v, total fs = .ok v := by
    rw [exists_total_iff hfilled', hshapes, ← exists_total_iff hfilled]
    exact hwell.2
  obtain ⟨v, hv⟩ := htotal
  rw [hv]
  exact ⟨rfl, nodup_of_forall₂ hfs hwell.1, v, hv⟩

theorem expects_of_record (build : List (String × Value K) → Value K) {k : Kind}
    {fields : List (String × Value K)}
    {finish : List (String × Value K) → Except (Fault K) (Value K)} (hk : RecordKind k)
    (hitems : ∀ fs, (build fs).items = []) (hentries : ∀ fs, (build fs).entries = fs)
    (hform : ∀ fs, fs.map (·.1) = fields.map (·.1) → (build fs).form = .structured k 0)
    (hnodup : (fields.map (·.1)).Nodup)
    (hfinish : ∀ fs, List.Forall₂ (fun f g => g.1 = f.1 ∧ g.2.Proper ∧ g.2.form = f.2.form ∧
      f.2.form ≠ .other) fields fs → finish fs = .ok (build fs) ∧ (build fs).WellMade)
    (t : String)
    (hmembers : ∀ key v, Table.find? fields key = some v →
      (∀ w ∈ others, (w.member? (.key key)).isSome = true) → Expects weights
        (membersAt (build fields :: others) (.key key))
        (expect weights v (membersAt others (.key key)))) :
    Expects weights (build fields :: others)
      (if (others.all fun p => p.kind == k) = true
        then expectFields weights fields (others.map entries) >>= finish
        else .error (.notExpectable t)) := by
  split
  · rename_i hcheck
    have hforms := (checkKind_iff (.inr hk)).1 hcheck
    have hfirst := hform fields rfl
    have hkeys : ∀ w ∈ others, w.items = [] ∧ ∀ key,
        (Table.find? w.entries key).isSome = (Table.find? fields key).isSome := by
      intro w hw
      obtain ⟨r, ks, hr⟩ := hk
      have hw := members_of_form (hforms w hw) (.inr ⟨r, ks, hr⟩)
      have hb := members_of_form hfirst (.inr ⟨r, ks, hr⟩)
      refine ⟨hw.1, fun key => Bool.eq_iff_iff.2 ?_⟩
      rw [Table.find?_isSome_iff, Table.find?_isSome_iff, hw.2 r ks hr, ← hb.2 r ks hr, hentries]
    refine expects_of_fields build hitems hentries hform hnodup hfinish
      (fun w hw => ⟨hforms w hw, hkeys w hw⟩) fun key v hv => hmembers key v hv fun w hw => ?_
    rw [member?, (hkeys w hw).2 key, hv]
    rfl
  · rename_i hcheck
    refine refused_of_form t fun h => hcheck ((checkKind_iff (.inr hk)).2 ?_)
    rwa [hform fields rfl] at h

theorem expects_of_mapping {fields : List (String × Value K)} (hnodup : (fields.map (·.1)).Nodup)
    (t : String)
    (hmembers : ∀ key v, Table.find? fields key = some v →
      (∀ w ∈ others, (w.member? (.key key)).isSome = true) → Expects weights
        (membersAt (.mapping fields :: others) (.key key))
        (expect weights v (membersAt others (.key key)))) :
    Expects weights (.mapping fields :: others)
      (if ((others.all fun p => p.kind == .mapping) &&
          others.all fun p => sameKeys fields p.entries) = true
        then do return .mapping (← expectFields weights fields (others.map entries))
        else .error (.notExpectable t)) := by
  split
  · rename_i hcheck
    rw [Bool.and_eq_true, checkKind_iff (.inl rfl), List.all_eq_true] at hcheck
    have hkeys := fun w hw => (sameKeys_iff fields w.entries).1 (hcheck.2 w hw)
    refine expects_of_fields .mapping (fun _ => rfl) (fun _ => rfl) (fun _ _ => rfl) hnodup
      (fun fs hfs => ⟨rfl, nodup_of_forall₂ hfs hnodup⟩)
      (fun w hw => ⟨hcheck.1 w hw, (members_of_form (hcheck.1 w hw) (.inl rfl)).1, hkeys w hw⟩)
      fun key v hv => hmembers key v hv fun w hw => ?_
    rw [member?, hkeys w hw key, hv]
    rfl
  · rename_i hcheck
    by_cases hforms : ∀ w ∈ others, w.form = .structured .mapping 0
    · rw [Bool.and_eq_true, checkKind_iff (.inl rfl), and_iff_right hforms, List.all_eq_true]
        at hcheck
      simp only [sameKeys_iff, not_forall] at hcheck
      obtain ⟨w, hw, key, hkey⟩ := hcheck
      refine ⟨fun huniform => hkey ?_, t, rfl⟩
      have hsame := (huniform w (List.mem_cons_of_mem _ hw)).2 _ List.mem_cons_self
      exact hsame.member_isSome (.key key)
    · exact refused_of_form t hforms

/-- The first payload decides, and the outcome is as it should be. -/
theorem expect_expects (first : Value K) : ∀ others : List (Value K),
    weights.length = (first :: others).length → (∀ v ∈ first :: others, v.Proper) →
    (∀ w ∈ others, first.Precedes w) →
    Expects weights (first :: others) (expect weights first others) := by
  induction first using induction_on_members with
  | h first ih =>
    intro others hlength hproper hprecedes
    have hjoins (w : Value K) (hw : w ∈ others) : first.Joins w := hprecedes w hw [] first w rfl rfl
    -- what is left to do for a member that all of them have
    have hchild (l : Label) (m : Value K) (hm : first.member? l = some m)
        (hall : ∀ w ∈ others, (w.member? l).isSome = true) :
        Expects weights (membersAt (first :: others) l)
          (expect weights m (membersAt others l)) := by
      have hcons : membersAt (first :: others) l = m :: membersAt others l :=
        List.filterMap_cons_some hm
      rw [hcons]
      refine ih l m hm _ ?_ ?_ ?_
      · rw [List.length_cons, length_membersAt hall, hlength, List.length_cons]
      · rw [← hcons]
        intro m' hm'
        obtain ⟨v, hv, hvm⟩ := List.mem_filterMap.1 hm'
        exact (hproper v hv).member hvm
      · intro m' hm'
        obtain ⟨w, hw, hwm⟩ := List.mem_filterMap.1 hm'
        exact (hprecedes w hw).member hm hwm
    cases first with
    | null | flag b | text s | sealed t =>
      simp only [expect]
      exact ⟨not_uniform_of_other rfl, _, rfl⟩
    | weather rain => exact (hproper _ List.mem_cons_self).wellMade.elim
    | whole n | real x =>
      simp only [expect]
      exact expects_of_real _ rfl hjoins
    | array s xs | wholeArray s xs =>
      simp only [expect]
      exact expectArrays_expects _ (.inl rfl) hjoins hproper hlength
    | textArray ss =>
      simp only [expect]
      exact expectArrays_texts ss _ hjoins
    | list xs =>
      simp only [expect]
      exact expects_of_sequence .list (.inl rfl) (fun _ => rfl) (fun _ => rfl) (fun _ => rfl)
        (fun _ => trivial) _ fun i x hx hall => hchild (.position i) x hx hall
    | tuple xs =>
      simp only [expect]
      exact expects_of_sequence .tuple (.inr rfl) (fun _ => rfl) (fun _ => rfl) (fun _ => rfl)
        (fun _ => trivial) _ fun i x hx hall => hchild (.position i) x hx hall
    | mapping fields =>
      simp only [expect]
      exact expects_of_mapping (hproper _ List.mem_cons_self).wellMade _
        fun key v hv hall => hchild (.key key) v hv hall
    | named t fields =>
      simp only [expect]
      exact expects_of_record (.named t) ⟨t, _, .inl rfl⟩ (fun _ => rfl) (fun _ => rfl)
        (fun fs hfs => by rw [form, hfs]) (hproper _ List.mem_cons_self).wellMade
        (fun fs hfs => ⟨rfl, nodup_of_forall₂ hfs (hproper _ List.mem_cons_self).wellMade⟩) _
        fun key v hv hall => hchild (.key key) v hv hall
    | record t fields =>
      simp only [expect]
      exact expects_of_record (.record t) ⟨t, _, .inr (.inl rfl)⟩ (fun _ => rfl) (fun _ => rfl)
        (fun fs hfs => by rw [form, hfs]) (hproper _ List.mem_cons_self).wellMade
        (fun fs hfs => ⟨rfl, nodup_of_forall₂ hfs (hproper _ List.mem_cons_self).wellMade⟩) _
        fun key v hv hall => hchild (.key key) v hv hall
    | totalled t fields =>
      simp only [expect]
      exact expects_of_record (.totalled t) ⟨t, _, .inr (.inr rfl)⟩ (fun _ => rfl) (fun _ => rfl)
        (fun fs hfs => by rw [form, hfs]) (hproper _ List.mem_cons_self).wellMade.1
        (fun fs hfs => total_of_forall₂ (hproper _ List.mem_cons_self) hfs) _
        fun key v hv hall => hchild (.key key) v hv hall

end Recourse.Value
