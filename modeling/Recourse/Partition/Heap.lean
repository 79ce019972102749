/-
  Partition/Heap.lean --- heaps: what comes first is on top.

  A heap is a binary tree in which nothing comes before what stands above it.  Two
  heaps are merged along their right branches, and the branches change sides on the
  way, so that no branch stays the long one.
-/

set_option autoImplicit false

namespace Recourse

/-- A binary tree of items. -/
inductive Heap (α : Type) where
  /-- No items. -/
  | empty
  /-- An item above two branches. -/
  | node (top : α) (left right : Heap α)
  deriving Repr, Inhabited

namespace Heap

variable {α : Type}

/-- The items, from the top. -/
def toList : Heap α → List α
  | .empty => []
  | .node top left right => top :: (left.toList ++ right.toList)

/-- A heap that is not empty, merged with another one, given how its right branch is. -/
def meld (before : α → α → Bool) (top : α) (left right : Heap α) (mergeRight : Heap α → Heap α) :
    Heap α → Heap α
  | .empty => .node top left right
  | .node other left' right' =>
      if before other top then
        .node other (meld before top left right mergeRight right') left'
      else .node top (mergeRight (.node other left' right')) left

/-- One heap with the items of two. -/
def merge (before : α → α → Bool) : Heap α → Heap α → Heap α
  | .empty, h => h
  | .node top left right, h => meld before top left right (merge before right) h

/-- A heap with one more item. -/
def push (before : α → α → Bool) (h : Heap α) (a : α) : Heap α :=
  merge before (.node a .empty .empty) h

/-- The heap of a list of items. -/
def ofList (before : α → α → Bool) (items : List α) : Heap α :=
  items.foldl (push before) .empty

/-- The item on top, and the heap of the others. -/
def pop? (before : α → α → Bool) : Heap α → Option (α × Heap α)
  | .empty => none
  | .node top left right => some (top, merge before left right)

end Heap

end Recourse
