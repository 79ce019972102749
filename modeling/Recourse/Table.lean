/-
  Table.lean --- finite maps that remember the order of insertion.

  A table is a list of entries, each key at most once.  Writing to a key that is
  there keeps its place; a new key goes to the end.
-/

set_option autoImplicit false

namespace Recourse

/-- A map with its keys in the order of their first insertion. -/
abbrev Table (κ α : Type) := List (κ × α)

namespace Table

variable {κ α : Type} [BEq κ]

/-- The value at a key, if there is one. -/
def find? (t : Table κ α) (key : κ) : Option α :=
  match t with
  | [] => none
  | (k, v) :: rest => if key == k then some v else find? rest key

/-- Replace the value at a key by a function of the one before, which is `none`
where the key is new. -/
def alter (t : Table κ α) (key : κ) (f : Option α → α) : Table κ α :=
  match t with
  | [] => [(key, f none)]
  | (k, v) :: rest => if key == k then (k, f (some v)) :: rest else (k, v) :: alter rest key f

/-- Write a value at a key. -/
def put (t : Table κ α) (key : κ) (value : α) : Table κ α := t.alter key (fun _ => value)

/-- Write every entry of the second table into the first. -/
def merge (t other : Table κ α) : Table κ α := other.foldl (fun t e => t.put e.1 e.2) t

/-- The keys in order. -/
def keys (t : Table κ α) : List κ := t.map Prod.fst

theorem find?_alter_self [LawfulBEq κ] (t : Table κ α) (key : κ) (f : Option α → α) :
    (t.alter key f).find? key = some (f (t.find? key)) := by
  induction t with
  | nil => simp [alter, find?]
  | cons e rest ih =>
    obtain ⟨k, v⟩ := e
    by_cases h : key == k
    · simp [alter, find?, h]
    · simp [alter, find?, h, ih]

theorem find?_alter_of_ne [LawfulBEq κ] (t : Table κ α) {key other : κ} (f : Option α → α)
    (hne : other ≠ key) : (t.alter key f).find? other = t.find? other := by
  induction t with
  | nil => simp [alter, find?, hne]
  | cons e rest ih =>
    obtain ⟨k, v⟩ := e
    by_cases h : key == k
    · have hk : key = k := eq_of_beq h
      subst hk
      simp [alter, find?, hne]
    · simp [alter, find?, h, ih]

end Table

end Recourse
