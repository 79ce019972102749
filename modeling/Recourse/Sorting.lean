/-
  Sorting.lean --- sorting by insertion.

  Entries that the order does not tell apart stay as they were.
-/

set_option autoImplicit false

namespace Recourse

namespace Sorting

variable {α : Type} (atMost : α → α → Bool)

/-- Put an entry in front of the first that it does not exceed. -/
def place (a : α) : List α → List α
  | [] => [a]
  | b :: rest => if atMost a b then a :: b :: rest else b :: place a rest

/-- The entries in order. -/
def sorted : List α → List α
  | [] => []
  | a :: rest => place atMost a (sorted rest)

theorem place_perm (a : α) (xs : List α) : (place atMost a xs).Perm (a :: xs) := by
  induction xs with
  | nil => exact .refl _
  | cons b rest ih =>
    unfold place
    split
    · exact .refl _
    · exact (ih.cons b).trans (.swap a b rest)

/-- Sorting changes nothing but the order. -/
theorem sorted_perm (xs : List α) : (sorted atMost xs).Perm xs := by
  induction xs with
  | nil => exact .refl _
  | cons a rest ih => exact (place_perm atMost a _).trans (ih.cons a)

/-- Entries that are in order stay where they are. -/
theorem sorted_of_pairwise {xs : List α} (h : xs.Pairwise fun a b => atMost a b = true) :
    sorted atMost xs = xs := by
  induction h with
  | nil => rfl
  | @cons a rest ha _ ih =>
    rw [sorted, ih]
    cases rest with
    | nil => rfl
    | cons b rest => exact if_pos (ha b List.mem_cons_self)

end Sorting

end Recourse
