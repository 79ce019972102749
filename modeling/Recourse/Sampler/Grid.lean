/-
  Sampler/Grid.lean --- parameters of any shape.

  A grid is a block of numbers with a shape.  Two grids are combined entry by
  entry after the shorter shape was filled up with ones in front and every
  extent of one was stretched to that of the other.
-/
import Recourse.Act

set_option autoImplicit false

namespace Recourse

/-- A block of numbers, the last index running fastest. -/
structure Grid (K : Type) where
  /-- The extent of each index. -/
  shape : List Nat
  /-- The entries. -/
  entries : List K
  deriving Inhabited

namespace Grid

variable {K : Type}

/-- A single number. -/
def scalar (x : K) : Grid K := ⟨[], [x]⟩

/-- A list of numbers. -/
def vector (xs : List K) : Grid K := ⟨[xs.length], xs⟩

/-- Whether a grid has no index. -/
def isScalar (g : Grid K) : Bool := g.shape.isEmpty

/-- Ones in front of a shape. -/
def padded (rank : Nat) (shape : List Nat) : List Nat :=
  List.replicate (rank - shape.length) 1 ++ shape

/-- The common extents of two shapes of one rank. -/
def joinExtents : List Nat → List Nat → Option (List Nat)
  | [], [] => some []
  | a :: as, b :: bs =>
      (joinExtents as bs).bind fun rest =>
        if a = b then some (a :: rest)
        else if a = 1 then some (b :: rest)
        else if b = 1 then some (a :: rest)
        else none
  | _, _ => none

/-- The common shape of two shapes. -/
def joinShapes (a b : List Nat) : Option (List Nat) :=
  let rank := max a.length b.length
  joinExtents (padded rank a) (padded rank b)

/-- The entries of a block stretched to a shape of the same rank. -/
def stretch : List Nat → List Nat → List K → List K
  | n :: target, m :: own, xs =>
      let size := own.foldl (· * ·) 1
      let part := fun k => stretch target own ((xs.drop (k * size)).take size)
      (List.range n).flatMap fun k => part (if m = 1 then 0 else k)
  | _, _, xs => xs

/-- Combine two grids entry by entry. -/
def combine {α : Type} (f : K → K → α) (a b : Grid K) : Except (Fault K) (Grid α) :=
  match joinShapes a.shape b.shape with
  | none => .error (.misuse .value)
  | some shape =>
      let spread := fun (g : Grid K) => stretch shape (padded shape.length g.shape) g.entries
      .ok ⟨shape, List.zipWith f (spread a) (spread b)⟩

end Grid

end Recourse
