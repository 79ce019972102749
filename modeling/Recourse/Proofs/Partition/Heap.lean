/-
  Proofs/Partition/Heap.lean --- what comes off a heap.

  Merging keeps the items of two heaps and their order (`items_merge`, `Ordered.merge`), and
  everything else is done by merging.  So what comes off a heap is an item that no other
  one comes before (`Ordered.pop?_first`).
-/
import Recourse.Partition.Heap
import Mathlib.Algebra.Order.Group.Multiset
import Mathlib.Tactic.Abel

set_option autoImplicit false

namespace Recourse.Heap

variable {α : Type} {before : α → α → Bool}

/-! ## The items -/

/-- The items of a heap, in no order. -/
def items (h : Heap α) : Multiset α := h.toList

theorem items_empty : (empty : Heap α).items = 0 := rfl

theorem items_node (top : α) (left right : Heap α) :
    (node top left right).items = {top} + (left.items + right.items) := rfl

/-- Wherever the top of the other heap comes to stand, the items stay. -/
theorem items_meld {mergeRight : Heap α → Heap α} (top : α) (left right : Heap α)
    (hright : ∀ h, (mergeRight h).items = right.items + h.items) (h : Heap α) :
    (meld before top left right mergeRight h).items = (node top left right).items + h.items := by
  induction h with
  | empty => exact (add_zero _).symm
  | node other left' right' _ ih =>
    rw [meld]
    split
    · rw [items_node, ih, items_node, items_node]
      abel
    · rw [items_node, hright, items_node, items_node]
      abel

/-- Merging keeps the items. -/
theorem items_merge (h h' : Heap α) : (merge before h h').items = h.items + h'.items := by
  induction h generalizing h' with
  | empty => exact (zero_add _).symm
  | node top left right _ ih => exact items_meld top left right ih h'

theorem items_push (h : Heap α) (a : α) : (h.push before a).items = {a} + h.items :=
  items_merge _ _

theorem items_ofList (items : List α) : (ofList before items).items = items := by
  have hfold : ∀ h : Heap α, (items.foldl (push before) h).items = h.items + items := by
    induction items with
    | nil => exact fun h => (add_zero _).symm
    | cons a items ih =>
      intro h
      rw [List.foldl_cons, ih, items_push, ← Multiset.cons_coe, ← Multiset.singleton_add]
      abel
  exact (hfold _).trans (zero_add _)

theorem pop?_eq_none {h : Heap α} (hpop : h.pop? before = none) : h = .empty := by
  cases h with
  | empty => rfl
  | node top left right => cases hpop

/-- What comes off and what is left are the items. -/
theorem items_pop? {h rest : Heap α} {a : α} (hpop : h.pop? before = some (a, rest)) :
    h.items = {a} + rest.items := by
  cases h with
  | empty => cases hpop
  | node top left right =>
    cases hpop
    rw [items_node, items_merge]

/-! ## The order -/

/-- What `before` has to offer: nothing comes before what comes before it, and an item that
comes before another one comes before everything else, or else that comes before the
other. -/
structure Precedence (before : α → α → Bool) : Prop where
  /-- Two items do not come before each other. -/
  asymm : ∀ a b, before a b = true → before b a = false
  /-- A third item stands behind the first or in front of the second. -/
  between : ∀ a b c, before a b = true → before a c = true ∨ before c b = true

/-- An item that does not come before another one does not come before what stands behind
that either. -/
theorem Precedence.not_before_trans (h : Precedence before) {a b c : α}
    (hab : before a b = false) (hbc : before b c = false) : before a c = false := by
  rw [Bool.eq_false_iff] at hab hbc ⊢
  intro hac
  exact (h.between a c b hac).elim hab hbc

/-- Nothing comes before what stands above it. -/
inductive Ordered (before : α → α → Bool) : Heap α → Prop
  /-- There is nothing to compare. -/
  | empty : Ordered before .empty
  /-- The top comes first, and both branches are ordered. -/
  | node {top : α} {left right : Heap α} (hleft : Ordered before left)
      (hright : Ordered before right)
      (hfirst : ∀ a ∈ left.items + right.items, before a top = false) :
      Ordered before (.node top left right)

theorem Ordered.meld (hbefore : Precedence before) {mergeRight : Heap α → Heap α} {top : α}
    {left right : Heap α} (htop : Ordered before (.node top left right))
    (hitems : ∀ h, (mergeRight h).items = right.items + h.items)
    (hright : ∀ h, Ordered before h → Ordered before (mergeRight h)) {h : Heap α}
    (h' : Ordered before h) : Ordered before (meld before top left right mergeRight h) := by
  obtain - | ⟨hl, hr, hfirst⟩ := htop
  have htop : Ordered before (.node top left right) := .node hl hr hfirst
  induction h' with
  | empty => exact htop
  | @node other left' right' hl' hr' hfirst' _ ih =>
    rw [Heap.meld]
    split
    · rename_i hother
      refine .node ih hl' fun a ha => ?_
      rw [items_meld top left right hitems, items_node] at ha
      have hside : a = top ∨ a ∈ left.items + right.items ∨ a ∈ left'.items + right'.items := by
        simp only [Multiset.mem_add, Multiset.mem_singleton] at ha ⊢
        tauto
      -- What the top of this heap does not let pass, the other top does not either.
      have htop_other := hbefore.asymm _ _ hother
      rcases hside with rfl | ha | ha
      · exact htop_other
      · exact hbefore.not_before_trans (hfirst a ha) htop_other
      · exact hfirst' a ha
    · rename_i hother
      rw [Bool.not_eq_true] at hother
      refine .node (hright _ (.node hl' hr' hfirst')) hl fun a ha => ?_
      rw [hitems, items_node] at ha
      have hside : a = other ∨ a ∈ left.items + right.items ∨ a ∈ left'.items + right'.items := by
        simp only [Multiset.mem_add, Multiset.mem_singleton] at ha ⊢
        tauto
      rcases hside with rfl | ha | ha
      · exact hother
      · exact hfirst a ha
      · exact hbefore.not_before_trans (hfirst' a ha) hother

/-- Merging keeps the order. -/
theorem Ordered.merge (hbefore : Precedence before) {h h' : Heap α} (hh : Ordered before h)
    (hh' : Ordered before h') : Ordered before (merge before h h') := by
  induction hh generalizing h' with
  | empty => exact hh'
  | node hl hr hfirst _ ih =>
    exact Ordered.meld hbefore (.node hl hr hfirst) (items_merge _) (fun _ h => ih h) hh'

theorem Ordered.push (hbefore : Precedence before) {h : Heap α} (hh : Ordered before h) (a : α) :
    Ordered before (h.push before a) :=
  Ordered.merge hbefore (.node .empty .empty fun _ ha => absurd ha (Multiset.notMem_zero _)) hh

theorem ordered_ofList (hbefore : Precedence before) (items : List α) :
    Ordered before (ofList before items) := by
  have hfold : ∀ h : Heap α, Ordered before h →
      Ordered before (items.foldl (Heap.push before) h) := by
    induction items with
    | nil => exact fun h hh => hh
    | cons a items ih => exact fun h hh => ih _ (hh.push hbefore a)
  exact hfold _ .empty

/-- What comes off a heap is an item that none of the others comes before, and the others are
a heap again. -/
theorem Ordered.pop?_first (hbefore : Precedence before) {h rest : Heap α} {a : α}
    (hh : Ordered before h) (hpop : h.pop? before = some (a, rest)) :
    Ordered before rest ∧ ∀ b ∈ rest.items, before b a = false := by
  cases hh with
  | empty => cases hpop
  | node hl hr hfirst =>
    cases hpop
    refine ⟨hl.merge hbefore hr, fun b hb => hfirst b ?_⟩
    rwa [items_merge] at hb

end Recourse.Heap
