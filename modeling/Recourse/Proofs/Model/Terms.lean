/-
  Proofs/Model/Terms.lean --- adding and scaling linear expressions.

  Terms are added one at a time: a column that is there keeps its place and its
  coefficient grows, a new one goes to the end.  Terms of numbers that mention each
  column once stay such terms, and their value is the sum.  From this follow the values
  of scaled and of combined expressions, whose constants may be infinite or undefined.
-/
import Recourse.Proofs.Effect
import Recourse.Proofs.Model.Meaning
import Recourse.Proofs.Number.Infinite

set_option autoImplicit false
set_option linter.unusedSectionVars false

namespace Recourse.LinearExpr

variable {F : Type} [Field F] [LinearOrder F] [IsStrictOrderedRing F] [FloorRing F]

/-! ## Adding terms -/

theorem keys_addTerm (weight : Exact F) (terms : Table Nat (Exact F)) (e : Nat × Exact F) :
    (addTerm weight terms e).map (·.1) =
      if e.1 ∈ terms.map (·.1) then terms.map (·.1) else terms.map (·.1) ++ [e.1] := by
  induction terms with
  | nil => rfl
  | cons t rest ih =>
    obtain ⟨k, b⟩ := t
    unfold addTerm at ih ⊢
    unfold Table.alter
    by_cases hk : e.1 = k
    · simp [hk]
    · have hne : ¬ (e.1 == k) = true := by simpa using hk
      rw [if_neg hne, List.map_cons, List.map_cons, ih]
      by_cases hmem : e.1 ∈ rest.map (·.1)
      · rw [if_pos hmem, if_pos (List.mem_cons_of_mem _ hmem)]
      · rw [if_neg hmem, if_neg (by simpa [hk] using hmem), List.cons_append]

theorem finite_addTerm (p a : F) (j : Nat) {terms : Table Nat (Exact F)}
    (h : ∀ t ∈ terms, Scalar.isFinite t.2 = true) :
    ∀ t ∈ addTerm (.finite p) terms (j, .finite a), Scalar.isFinite t.2 = true := by
  induction terms with
  | nil =>
    intro t ht
    rw [List.mem_singleton.1 ht]
    exact Exact.isFinite_finite (0 + p * a)
  | cons t rest ih =>
    obtain ⟨k, b⟩ := t
    have hb : Scalar.isFinite b = true := h _ List.mem_cons_self
    have hrest : ∀ t ∈ rest, Scalar.isFinite t.2 = true := fun t ht =>
      h t (List.mem_cons_of_mem _ ht)
    unfold addTerm at ih ⊢
    unfold Table.alter
    split
    · intro t ht
      rcases List.mem_cons.1 ht with rfl | ht
      · rw [← Exact.finite_value hb]
        exact Exact.isFinite_finite (b.value + p * a)
      · exact hrest t ht
    · intro t ht
      rcases List.mem_cons.1 ht with rfl | ht
      · exact hb
      · exact ih hrest t ht

theorem valueAt_addTerm (p a : F) (j : Nat) {terms : Table Nat (Exact F)}
    (h : ∀ t ∈ terms, Scalar.isFinite t.2 = true) (v : Nat → F) :
    SparseRow.valueAt (addTerm (.finite p) terms (j, .finite a)) v =
      SparseRow.valueAt terms v + p * (a * v j) := by
  induction terms with
  | nil =>
    show (0 + p * a) * v j + 0 = 0 + p * (a * v j)
    ring
  | cons t rest ih =>
    obtain ⟨k, b⟩ := t
    have hb : Scalar.isFinite b = true := h _ List.mem_cons_self
    have ih := ih fun t ht => h t (List.mem_cons_of_mem _ ht)
    unfold addTerm at ih ⊢
    unfold Table.alter
    split
    · rename_i hk
      rw [← eq_of_beq hk, ← Exact.finite_value hb]
      show (b.value + p * a) * v j + SparseRow.valueAt rest v = b.value * v j +
        SparseRow.valueAt rest v + p * (a * v j)
      ring
    · rw [SparseRow.valueAt_cons, SparseRow.valueAt_cons, ih, add_assoc]

theorem mem_keys_addTerm {weight : Exact F} {terms : Table Nat (Exact F)} {e : Nat × Exact F} {j : Nat}
    (hj : j ∈ (addTerm weight terms e).map (·.1)) :
    j ∈ terms.map (·.1) ∨ j = e.1 := by
  rw [keys_addTerm] at hj
  split at hj
  · exact Or.inl hj
  · simpa using hj

theorem ProperTerms.addTerm {terms : Table Nat (Exact F)} {n j : Nat} (h : ProperTerms terms n)
    (hj : j < n) (p a : F) :
    ProperTerms (addTerm (.finite p) terms (j, .finite a)) n where
  within := by
    intro u hu
    rcases mem_keys_addTerm (List.mem_map.2 ⟨u, hu, rfl⟩) with hold | hnew
    · obtain ⟨w, hw, heq⟩ := List.mem_map.1 hold
      rw [← heq]
      exact h.within w hw
    · rw [hnew]
      exact hj
  finite := finite_addTerm p a j h.finite
  nodup := by
    rw [keys_addTerm]
    split
    · exact h.nodup
    · rename_i hnew
      refine List.nodup_append.2 ⟨h.nodup, List.nodup_singleton _, ?_⟩
      rintro i hi k hk rfl
      exact hnew (List.mem_singleton.1 hk ▸ hi)

/-- Terms that are added one by one. -/
theorem foldl_addTerm_spec {ts terms : Table Nat (Exact F)} {n n' : Nat} (hts : ProperTerms ts n')
    (h : ProperTerms terms n) {columns : Nat → Nat} (hcolumns : ∀ k < n', columns k < n) (p : F) :
    let sum := ts.foldl (fun acc t => addTerm (.finite p) acc (columns t.1, t.2)) terms
    ProperTerms sum n ∧ ∀ v, SparseRow.valueAt sum v =
      SparseRow.valueAt terms v + p * SparseRow.valueAt ts fun k => v (columns k) := by
  induction ts generalizing terms with
  | nil => exact ⟨h, fun v => by simp⟩
  | cons t ts ih =>
    obtain ⟨j, e⟩ := t
    obtain ⟨hj, hwithin⟩ := List.forall_mem_cons.1 hts.within
    obtain ⟨he, hfinite⟩ := List.forall_mem_cons.1 hts.finite
    obtain ⟨a, rfl⟩ : ∃ a, e = .finite a := ⟨_, (Exact.finite_value he).symm⟩
    obtain ⟨hproper, hvalue⟩ := ih ⟨hwithin, hfinite, (List.nodup_cons.1 hts.nodup).2⟩
      (h.addTerm (hcolumns j hj) p a)
    refine ⟨hproper, ?_⟩
    intro v
    rw [List.foldl_cons, hvalue v, valueAt_addTerm p a (columns j) h.finite v,
      SparseRow.valueAt_cons, Exact.value_finite]
    ring

/-! ## Values of expressions -/

/-- The value of an expression, its constant apart. -/
theorem eval_eq {e : LinearExpr (Exact F)} {n : Nat} (h : ProperTerms e.terms n) (v : Nat → F) :
    e.eval (fun j => .finite (v j)) = .finite (SparseRow.valueAt e.terms v) + e.constant := by
  have hterms : Scalar.sum (e.terms.map fun t => t.2 * .finite (v t.1)) =
      .finite (SparseRow.valueAt e.terms v) := SparseRow.eval_finite h.finite v
  rw [eval, hterms]

/-- The coefficients of an expression, column by column, against a point. -/
theorem dot_coefficients {e : LinearExpr (Exact F)} {n : Nat} (h : ProperTerms e.terms n)
    {v : List F} (hv : v.length = n) :
    Scalar.dot ((List.range n).map e.coefficient) (v.map .finite) =
      .finite (SparseRow.valueAt e.terms fun j => v.getD j 0) := by
  have hproper : ({ e with constant := 0 } : LinearExpr (Exact F)).Proper n :=
    ⟨h.within, h.finite, h.nodup, Exact.isFinite_finite 0⟩
  have hcost : AllFinite ((List.range n).map e.coefficient) := by
    intro a ha
    obtain ⟨j, -, rfl⟩ := List.mem_map.1 ha
    exact isFinite_coefficient hproper j
  rw [dot_eq hcost (allFinite_map_finite v) (by simp [hv]), funext (coord_map_finite v)]
  exact congrArg _ (costAt_coefficients hproper _)

/-- A column as an expression. -/
theorem properTerms_toExpr {c : Variable (Exact F)} {n : Nat} (hc : c.index < n) :
    ProperTerms c.toExpr.terms n := by
  refine ⟨?_, ?_, List.nodup_singleton _⟩
  · rintro t ht
    rw [List.mem_singleton.1 ht]
    exact hc
  · rintro t ht
    rw [List.mem_singleton.1 ht]
    exact Exact.isFinite_finite (1 : F)

theorem properTerms_ofNumber (x : Exact F) (n : Nat) : ProperTerms (ofNumber x).terms n :=
  ⟨fun _ ht => absurd ht List.not_mem_nil, fun _ ht => absurd ht List.not_mem_nil, List.nodup_nil⟩

theorem eval_ofNumber (x : Exact F) (p : Nat → Exact F) : (ofNumber x).eval p = x :=
  Exact.zero_add x

theorem eval_toExpr (c : Variable (Exact F)) (v : Nat → F) :
    c.toExpr.eval (fun j => .finite (v j)) = .finite (v c.index) := by
  rw [eval_eq (properTerms_toExpr (Nat.lt_succ_self c.index)), Variable.toExpr]
  simp [Exact.zero_eq, Exact.one_eq]

/-! ## Scaled and combined expressions -/

section Operations

variable {e other : LinearExpr (Exact F)} {n : Nat}

theorem valueAt_scaled (h : ∀ t ∈ e.terms, Scalar.isFinite t.2 = true) (a : F) (v : Nat → F) :
    SparseRow.valueAt (e.scaled (.finite a)).terms v = SparseRow.valueAt e.terms v * a := by
  unfold scaled
  generalize e.terms = terms at h ⊢
  induction terms with
  | nil => simp
  | cons t rest ih =>
    obtain ⟨ht, hrest⟩ := List.forall_mem_cons.1 h
    rw [List.map_cons, SparseRow.valueAt_cons, ih hrest, SparseRow.valueAt_cons,
      ← Exact.finite_value ht]
    simp only [Exact.finite_mul, Exact.value_finite]
    ring

theorem ProperTerms.scaled (h : ProperTerms e.terms n) (a : F) :
    ProperTerms (e.scaled (.finite a)).terms n := by
  refine ⟨?_, ?_, ?_⟩
  · intro t ht
    obtain ⟨u, hu, rfl⟩ := List.mem_map.1 ht
    exact h.within u hu
  · intro t ht
    obtain ⟨u, hu, rfl⟩ := List.mem_map.1 ht
    rw [← Exact.finite_value (h.finite u hu)]
    exact Exact.isFinite_finite (u.2.value * a)
  · rw [LinearExpr.scaled, List.map_map]
    exact h.nodup

/-- A scaled expression has the scaled value. -/
theorem eval_scaled (h : ProperTerms e.terms n) (a : F) (v : Nat → F) :
    (e.scaled (.finite a)).eval (fun j => .finite (v j)) =
      e.eval (fun j => .finite (v j)) * .finite a := by
  rw [eval_eq (h.scaled a), eval_eq h, valueAt_scaled h.finite, Exact.mul_comm _ (.finite a),
    Exact.finite_mul_add, Exact.finite_mul, mul_comm a, Exact.mul_comm (.finite a)]
  rfl

/-- The terms of a combination. -/
theorem combine_spec (h : ProperTerms e.terms n) (hother : ProperTerms other.terms n) (w : F) :
    ProperTerms (e.combine other (.finite w)).terms n ∧
      ∀ v, SparseRow.valueAt (e.combine other (.finite w)).terms v =
        SparseRow.valueAt e.terms v + w * SparseRow.valueAt other.terms v :=
  foldl_addTerm_spec hother h (fun _ hk => hk) w

/-- A combination has the combined value. -/
theorem eval_combine (h : ProperTerms e.terms n) (hother : ProperTerms other.terms n) (w : F)
    (v : Nat → F) :
    (e.combine other (.finite w)).eval (fun j => .finite (v j)) =
      e.eval (fun j => .finite (v j)) + .finite w * other.eval (fun j => .finite (v j)) := by
  obtain ⟨hterms, hvalue⟩ := combine_spec h hother w
  rw [eval_eq hterms, eval_eq h, eval_eq hother, hvalue, Exact.finite_mul_add, Exact.finite_mul,
    ← Exact.finite_add, combine]
  ac_rfl

end Operations

end Recourse.LinearExpr

namespace Recourse.Model

/-- The objective at a point, as the library works it out. -/
theorem evaluateObjective_eq_eval {K : Type} [Scalar K] {m : Model K} {point : List K}
    (hwithin : ∀ t ∈ m.objective.terms, t.1 < m.columns.length)
    (hlength : point.length = m.columns.length) :
    m.evaluateObjective point = .ok (m.objective.eval fun j => point.getD j 0) := by
  have hterms : (m.objective.terms.mapM fun t => do
      return t.2 * (← SolveResult.entry point t.1) : Except (Fault K) (List K)) =
      .ok (m.objective.terms.map fun t => t.2 * point.getD t.1 0) := by
    refine mapM_eq_ok _ fun t ht => ?_
    have hlt : t.1 < point.length := hlength ▸ hwithin t ht
    rw [SolveResult.entry, List.getElem?_eq_getElem hlt, List.getD_eq_getElem _ _ hlt]
    rfl
  have hcount : point.length = m.variableCount := hlength
  unfold evaluateObjective
  simp only [hcount, ne_eq, not_true, if_false]
  rw [hterms]
  rfl

end Recourse.Model
