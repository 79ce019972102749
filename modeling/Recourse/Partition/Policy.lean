/-
  Partition/Policy.lean --- how scenarios are spread over partitions.
-/
import Recourse.Act
import Recourse.Partition.Heap

set_option autoImplicit false

namespace Recourse.Policy

/-- The position of the smallest number, the first of equal ones. -/
def smallest : List Int → Option Nat
  | [] => none
  | x :: xs =>
      match smallest xs with
      | none => some 0
      | some i => if xs.getD i x < x then some (i + 1) else some 0

variable {K : Type}

/-- The partition with the fewest scenarios, the first of several. -/
def leastLoaded (sizes : List Int) : Except (Fault K) Nat :=
  match smallest sizes with
  | some i => .ok i
  | none => .error (.invalid .noPartitions)

/-- One more at a position. -/
def increment (xs : List Int) (i : Nat) : List Int := xs.modify i (· + 1)

/-- A load of a partition comes before another one if it is smaller, or as large and
of an earlier partition. -/
def before (a b : Int × Nat) : Bool := decide (a.1 < b.1) || (a.1 == b.1 && decide (a.2 < b.2))

/-- How many of `n` new scenarios each partition gets.  The loads are kept in a heap; each
scenario goes to the partition on top, which comes back with one more. -/
def fillCounts (sizes : List Int) (n : Nat) : Except (Fault K) (List Int) :=
  go n (Heap.ofList before sizes.zipIdx) (sizes.map fun _ => 0)
where
  /-- Hand out the rest, given the loads and the counts so far. -/
  go : Nat → Heap (Int × Nat) → List Int → Except (Fault K) (List Int)
    | 0, _, counts => .ok counts
    | n + 1, loads, counts =>
        match loads.pop? before with
        | some ((load, k), others) => go n (others.push before (load + 1, k)) (increment counts k)
        | none => .error (.misuse .position)

/-- The sizes of `parts` chunks of `total` scenarios, the larger ones first. -/
def evenSplit (total parts : Int) : Except (Fault K) (List Int) :=
  if parts < 1 then .error (.invalid (.notPositive "partition count" (.ofInt parts)))
  else
    let base := total.fdiv parts
    let extra := total.fmod parts
    .ok ((List.range parts.toNat).map fun (k : Nat) => if k < extra then base + 1 else base)

end Recourse.Policy
