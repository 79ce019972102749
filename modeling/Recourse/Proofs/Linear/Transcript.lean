/-
  Proofs/Linear/Transcript.lean --- an engine that replays a transcript.

  A transcript lists, in the order of the calls, what an engine found, with the reasons.
  The replaying engine checks every reason against the program that it is handed and
  breaks down where one does not hold, so that it is sound whatever the transcript says
  (`Transcript.sound`).  The checks are decidable, and a run on a given transcript can
  be evaluated.
-/
import Recourse.Proofs.Linear.Descent
import Recourse.Proofs.Linear.Engine

set_option autoImplicit false
set_option linter.unusedSectionVars false

open scoped BigOperators

namespace Recourse

variable {F : Type} [Field F] [LinearOrder F] [IsStrictOrderedRing F] [FloorRing F]

/-! ## Decidable conditions -/

namespace HandedProgram

theorem feasible_iff (h : HandedProgram (Exact F)) (v : Nat → F) :
    h.Feasible v ↔ (∀ r ∈ h.upperRows, r.2.RespectsUpper (r.1.valueAt v)) ∧
      (∀ r ∈ h.equalRows, r.2.RespectsLower (r.1.valueAt v) ∧ r.2.RespectsUpper (r.1.valueAt v)) ∧
      ∀ b ∈ h.bounds.zipIdx, (∀ limit ∈ b.1.1, limit.RespectsLower (v b.2)) ∧
        ∀ limit ∈ b.1.2, limit.RespectsUpper (v b.2) := by
  constructor
  · intro hv
    refine ⟨hv.upper, fun r hr => ⟨?_, ?_⟩, ?_⟩
    · exact fun b hb => (hv.equal r hr b hb).ge
    · exact fun b hb => (hv.equal r hr b hb).le
    · intro b hb
      exact hv.columns b.2 b.1 (List.mk_mem_zipIdx_iff_getElem?.1 hb)
  · rintro ⟨hupper, hequal, hcolumns⟩
    refine ⟨hupper, ?_, ?_⟩
    · intro r hr b hb
      exact le_antisymm ((hequal r hr).2 b hb) ((hequal r hr).1 b hb)
    · intro j b hj
      exact hcolumns (b, j) (List.mk_mem_zipIdx_iff_getElem?.2 hj)

instance decidableFeasible (h : HandedProgram (Exact F)) (v : Nat → F) :
    Decidable (h.Feasible v) :=
  decidable_of_iff _ (h.feasible_iff v).symm

/-- A direction along which a program stays feasible and gets cheaper without end. -/
@[mk_iff]
structure Descends (h : HandedProgram (Exact F)) (d : Nat → F) : Prop where
  /-- No upper row grows. -/
  upper : ∀ r ∈ h.upperRows, r.1.valueAt d ≤ 0
  /-- No equal row changes. -/
  equal : ∀ r ∈ h.equalRows, r.1.valueAt d = 0
  /-- A column moves only where it has no bound. -/
  columns : ∀ b ∈ h.bounds.zipIdx, (b.1.1.isSome = true → 0 ≤ d b.2) ∧
    (b.1.2.isSome = true → d b.2 ≤ 0)
  /-- The cost falls. -/
  cost : costAt h.cost d < 0

instance decidableDescends (h : HandedProgram (Exact F)) (d : Nat → F) :
    Decidable (h.Descends d) :=
  decidable_of_iff _ (descends_iff h d).symm

/-- Every ray in such a direction is feasible. -/
theorem Descends.feasible {h : HandedProgram (Exact F)} {v d : Nat → F} (hd : h.Descends d)
    (hv : h.Feasible v) {t : F} (ht : 0 ≤ t) : h.Feasible (v + t • d) := by
  rw [feasible_iff] at hv ⊢
  obtain ⟨hupper, hequal, hcolumns⟩ := hv
  refine ⟨?_, ?_, ?_⟩
  · intro r hr b hb
    have hle := mul_nonpos_of_nonneg_of_nonpos ht (hd.upper r hr)
    rw [SparseRow.valueAt_ray]
    linarith [hupper r hr b hb]
  · intro r hr
    rw [SparseRow.valueAt_ray, hd.equal r hr, mul_zero, add_zero]
    exact hequal r hr
  · intro b hb
    obtain ⟨hlower, hupper⟩ := hcolumns b hb
    obtain ⟨hup, hdown⟩ := hd.columns b hb
    rw [Pi.add_apply, Pi.smul_apply, smul_eq_mul]
    constructor
    · intro limit hlimit a ha
      have hle := mul_nonneg ht (hup (Option.isSome_iff_exists.2 ⟨_, hlimit⟩))
      linarith [hlower limit hlimit a ha]
    · intro limit hlimit a ha
      have hle := mul_nonpos_of_nonneg_of_nonpos ht (hdown (Option.isSome_iff_exists.2 ⟨_, hlimit⟩))
      linarith [hupper limit hlimit a ha]

/-- A feasible point with a direction that descends shows that a program is unbounded. -/
theorem Descends.unbounded {h : HandedProgram (Exact F)} {v d : Nat → F} (hd : h.Descends d)
    (hv : h.Feasible v) : h.Unbounded := by
  intro level
  obtain ⟨t, ht, hlevel⟩ := exists_ray_below hd.cost (costAt h.cost v) level
  refine ⟨v + t • d, hd.feasible hv ht, ?_⟩
  rw [costAt_ray]
  exact hlevel

end HandedProgram

instance decidableAllFinite (xs : List (Exact F)) : Decidable (AllFinite xs) :=
  inferInstanceAs (Decidable (∀ a ∈ xs, Scalar.isFinite a = true))

set_option synthInstance.maxSize 512 in
instance OptimalPoint.decidableCertifies (o : OptimalPoint (Exact F))
    (h : HandedProgram (Exact F)) : Decidable (o.Certifies h) :=
  decidable_of_iff _ (OptimalPoint.certifies_iff o h).symm

/-! ## Transcripts -/

/-- What an engine found, with its reason. -/
inductive Finding (F : Type) where
  /-- An optimal point with its marginals. -/
  | optimal (o : OptimalPoint (Exact F))
  /-- A feasible point and a direction that descends. -/
  | unbounded (point direction : List F)

namespace Finding

/-- The verdict. -/
def verdict : Finding F → Verdict (Exact F)
  | .optimal o => .optimal o
  | .unbounded _ _ => .ended .unbounded

/-- The reason holds for a program. -/
def Holds : Finding F → HandedProgram (Exact F) → Prop
  | .optimal o, h => o.Certifies h
  | .unbounded point direction, h => h.Feasible (point.getD · 0) ∧ h.Descends (direction.getD · 0)

instance decidableHolds (f : Finding F) (h : HandedProgram (Exact F)) : Decidable (f.Holds h) :=
  match f with
  | .optimal o => inferInstanceAs (Decidable (o.Certifies h))
  | .unbounded point direction =>
      inferInstanceAs (Decidable (h.Feasible (point.getD · 0) ∧ h.Descends (direction.getD · 0)))

theorem rightFor_of_holds {f : Finding F} {h : HandedProgram (Exact F)} (hf : f.Holds h) :
    f.verdict.RightFor h := by
  cases f with
  | optimal o => exact hf
  | unbounded point direction => exact hf.2.unbounded hf.1

end Finding

/-- What an engine found, call by call. -/
structure Transcript (F : Type) where
  /-- The findings that are still to come. -/
  findings : List (Finding F)

namespace Transcript

/-- The next finding, if it holds for the program; the clock stands still. -/
instance : Host (Transcript F) (Exact F) where
  optimize h _ := do
    match (← Act.environment).findings with
    | [] => Act.fail (.misuse .position)
    | f :: rest =>
        Act.modifyEnvironment fun _ => ⟨rest⟩
        if f.Holds h then return f.verdict else Act.fail (.misuse .value)
  clock := return 0

/-- Replaying a transcript is sound. -/
theorem sound : Host.Sound (Transcript F) F where
  verdict h e := by
    apply Act.ensures_bind
    intro ledger
    show Act.Ensures (match ledger.env.findings with
      | [] => _
      | f :: rest => _) _ _
    cases ledger.env.findings with
    | nil => exact Act.ensures_fail ⟨_, rfl⟩
    | cons f rest =>
      apply Act.ensures_bind
      intro _
      show Act.Ensures (if f.Holds h then _ else _) _ _
      split
      · rename_i hf
        exact Act.ensures_pure (Finding.rightFor_of_holds hf)
      · exact Act.ensures_fail ⟨_, rfl⟩
  clock := fun _ => trivial

end Transcript

/-! ## Rows that the column bounds rule out -/

namespace HandedProgram

variable {h : HandedProgram (Exact F)} {v : Nat → F}

/-- What a term of a row contributes at least while its column keeps to its bounds. -/
def leastTerm (h : HandedProgram (Exact F)) (t : Nat × Exact F) : Option F :=
  let bounds := h.bounds.getD t.1 (none, none)
  match if 0 ≤ t.2.value then bounds.1 else bounds.2 with
  | some (.finite b) => some (t.2.value * b)
  | _ => none

/-- An upper row exceeds its limit wherever the columns keep to their bounds. -/
def overdrawn (h : HandedProgram (Exact F)) : Bool := h.upperRows.any fun r =>
  match r.1.mapM h.leastTerm, r.2 with
  | some least, .finite limit => decide (limit < least.sum)
  | _, _ => false

theorem leastTerm_le (hv : h.Feasible v) {t : Nat × Exact F} {least : F}
    (ht : h.leastTerm t = some least) : least ≤ t.2.value * v t.1 := by
  have hbounds : ∀ bounds, h.bounds[t.1]? = some bounds →
      (∀ limit ∈ bounds.1, limit.RespectsLower (v t.1)) ∧
        ∀ limit ∈ bounds.2, limit.RespectsUpper (v t.1) := fun bounds => hv.columns t.1 bounds
  unfold leastTerm at ht
  cases hcolumn : h.bounds[t.1]? with
  | none => simp [List.getD_eq_getElem?_getD, hcolumn] at ht
  | some bounds =>
    obtain ⟨hlower, hupper⟩ := hbounds bounds hcolumn
    simp only [List.getD_eq_getElem?_getD, hcolumn, Option.getD_some] at ht
    split at ht
    case h_2 => cases ht
    rename_i b hb
    cases ht
    split at hb
    · rename_i hsign
      exact mul_le_mul_of_nonneg_left (hlower _ hb b rfl) hsign
    · rename_i hsign
      exact mul_le_mul_of_nonpos_left (hupper _ hb b rfl) (not_le.1 hsign).le

theorem sum_leastTerms_le (hv : h.Feasible v) {ts : SparseRow (Exact F)} {leasts : List F}
    (hts : ts.mapM h.leastTerm = some leasts) : leasts.sum ≤ SparseRow.valueAt ts v := by
  induction ts generalizing leasts with
  | nil =>
    cases hts
    exact le_refl _
  | cons t ts ih =>
    rw [List.mapM_cons] at hts
    obtain ⟨least, ht, hts⟩ := Option.bind_eq_some_iff.1 hts
    obtain ⟨rest, hrest, hsum⟩ := Option.bind_eq_some_iff.1 hts
    cases hsum
    exact add_le_add (leastTerm_le hv ht) (ih hrest)

/-- Such a program has no feasible point. -/
theorem not_feasible_of_overdrawn (ho : h.overdrawn = true) (v : Nat → F) : ¬ h.Feasible v := by
  intro hv
  obtain ⟨r, hr, hrow⟩ := List.any_eq_true.1 ho
  split at hrow
  · rename_i leasts limit hleasts hlimit
    have hsum := sum_leastTerms_le hv hleasts
    have hle := hv.upper r hr limit hlimit
    exact absurd (of_decide_eq_true hrow) (not_lt.2 (hsum.trans hle))
  · cases hrow

end HandedProgram

/-- A transcript for an engine that looks for such a row before it looks there. -/
structure Casebook (F : Type) where
  /-- The findings that are still to come. -/
  findings : List (Finding F)

namespace Casebook

instance : Host (Casebook F) (Exact F) where
  optimize h _ := do
    if h.overdrawn then return .ended .infeasible
    match (← Act.environment).findings with
    | [] => Act.fail (.misuse .position)
    | f :: rest =>
        Act.modifyEnvironment fun _ => ⟨rest⟩
        if f.Holds h then return f.verdict else Act.fail (.misuse .value)
  clock := return 0

theorem sound : Host.Sound (Casebook F) F where
  verdict h e := by
    show Act.Ensures (if h.overdrawn = true then pure (Verdict.ended .infeasible) else _) _ _
    split
    · rename_i ho
      exact Act.ensures_pure (HandedProgram.not_feasible_of_overdrawn ho)
    apply Act.ensures_bind
    intro ledger
    show Act.Ensures (match ledger.env.findings with
      | [] => _
      | f :: rest => _) _ _
    cases ledger.env.findings with
    | nil => exact Act.ensures_fail ⟨_, rfl⟩
    | cons f rest =>
      apply Act.ensures_bind
      intro _
      show Act.Ensures (if f.Holds h then _ else _) _ _
      split
      · rename_i hf
        exact Act.ensures_pure (Finding.rightFor_of_holds hf)
      · exact Act.ensures_fail ⟨_, rfl⟩
  clock := fun _ => trivial

end Casebook

end Recourse
