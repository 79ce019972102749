/-
  Payload/Expectation.lean --- weighted sums of payloads.

  Numbers and arrays are summed with their weights; sequences, mappings and
  records are summed member by member and keep their structure.  A payload that
  brings its own expectation decides for itself.
-/
import Recourse.Payload.Value

set_option autoImplicit false

namespace Recourse.Value

variable {K : Type} [Scalar K]

/-! ## Arrays -/

mutual
/-- The shape of a payload as an array, and its entries.  Sequences are arrays
where their members have one shape. -/
def cells : Value K → Except (Fault K) (List Nat × List (Value K))
  | .array shape xs => .ok (shape, xs.map .real)
  | .wholeArray shape ns => .ok (shape, ns.map .whole)
  | .textArray ss => .ok ([ss.length], ss.map .text)
  | .list items | .tuple items => cellsOfItems items
  | .named _ fields => cellsOfFields fields
  | v => .ok ([], [v])

/-- The members of a sequence as one array. -/
def cellsOfItems : List (Value K) → Except (Fault K) (List Nat × List (Value K))
  | [] => .ok ([0], [])
  | v :: rest => do
      let (shape, entries) ← cells v
      let (outer, others) ← cellsOfItems rest
      match outer with
      | [0] => return (1 :: shape, entries)
      | n :: inner =>
          if inner = shape then return ((n + 1) :: shape, entries ++ others)
          else throw (.misuse .value)
      | [] => throw (.misuse .value)

/-- The entries of a tuple with names as one array. -/
def cellsOfFields : List (String × Value K) → Except (Fault K) (List Nat × List (Value K))
  | [] => .ok ([0], [])
  | (_, v) :: rest => do
      let (shape, entries) ← cells v
      let (outer, others) ← cellsOfFields rest
      match outer with
      | [0] => return (1 :: shape, entries)
      | n :: inner =>
          if inner = shape then return ((n + 1) :: shape, entries ++ others)
          else throw (.misuse .value)
      | [] => throw (.misuse .value)
end

/-- The number in a cell of an array; an empty cell is undefined. -/
def cellNumber : Value K → Except (Fault K) K
  | .null => .ok Scalar.undefined
  | .flag b => .ok (if b then 1 else 0)
  | .whole n => .ok (Scalar.ofInt n)
  | .real x => .ok x
  | .text s => readNumber s
  | _ => .error (.misuse .kind)

/-- Add weighted arrays of one shape entry by entry. -/
def weightedArrays (size : Nat) (arrays : List (List K)) (weights : List K) : List K :=
  (arrays.zip weights).foldl
    (fun acc p => List.zipWith (fun a x => a + p.2 * x) acc p.1) (Scalar.zeros size)

/-- The weighted sum of arrays.  Without a summand it is the integer zero, and a
sum of arrays without an index is a number. -/
def expectArrays (shape : List Nat) (isNumeric : Bool) (payloads : List (Value K))
    (weights : List K) (typeName : String) : Except (Fault K) (Value K) := do
  let arrays ← payloads.mapM cells
  if arrays.any (·.1 ≠ shape) || !isNumeric then throw (.notExpectable typeName)
  let summands := (arrays.map (·.2)).take weights.length
  if summands.isEmpty then return .whole 0
  let numbers ← summands.mapM (·.mapM cellNumber)
  let sums := weightedArrays (shape.foldl (· * ·) 1) numbers weights
  match shape, sums with
  | [], [x] => return .real x
  | _, _ => return .array shape sums

/-! ## Payloads that decide for themselves -/

/-- The rain of a payload. -/
def rain (v : Value K) : Except (Fault K) (Value K) :=
  match Table.find? v.visibleFields "rain" with
  | some r => .ok r
  | none => .error (.misuse .attribute)

/-- Whether the first of two payloads is the larger one. -/
def exceeds (a b : Value K) : Except (Fault K) Bool :=
  match a, b with
  | .text s, .text t => .ok (decide (t < s))
  | a, b =>
      let number := fun
        | .flag f => some (if f then 1 else 0)
        | v => real? v
      match number a, number b with
      | some x, some y => .ok (Scalar.less y x)
      | _, _ => .error (.misuse .kind)

/-- The largest of the rains, the first of equal ones. -/
def largestRain (best : Value K) : List (Value K) → Except (Fault K) (Value K)
  | [] => .ok best
  | v :: rest => do
      let r ← rain v
      largestRain (if ← exceeds r best then r else best) rest

/-! ## Expectation -/

/-- The members of the other payloads at a key. -/
def column (others : List (List (String × Value K))) (key : String) : List (Value K) :=
  others.filterMap (Table.find? · key)

/-- The items of a sequence. -/
def items : Value K → List (Value K)
  | .list xs | .tuple xs => xs
  | _ => []

/-- The entries of a mapping or a record. -/
def entries : Value K → List (String × Value K)
  | .mapping xs | .named _ xs | .record _ xs | .totalled _ xs => xs
  | _ => []

/-- Whether two mappings have the same keys. -/
def sameKeys (a b : List (String × Value K)) : Bool :=
  let (ka, kb) := (a.map (·.1), b.map (·.1))
  ka.all kb.contains && kb.all ka.contains

mutual
/-- The weighted sum of payloads, of which the first decides how to sum. -/
def expect (weights : List K) (first : Value K) (others : List (Value K)) :
    Except (Fault K) (Value K) :=
  let refused : Except (Fault K) (Value K) := .error (.notExpectable first.typeName)
  let sameKind := others.all fun p => p.kind == first.kind
  match first with
  | .weather rain => do return .weather (← largestRain rain others)
  | .whole _ | .real _ =>
      match (first :: others).mapM real? with
      | some xs => .ok (.real (Scalar.dot weights xs))
      | none => refused
  | .array shape _ => expectArrays shape true (first :: others) weights first.typeName
  | .wholeArray shape _ => expectArrays shape true (first :: others) weights first.typeName
  | .textArray ss => expectArrays [ss.length] false (first :: others) weights first.typeName
  | .list xs =>
      if sameKind && others.all (·.items.length == xs.length) then do
        return .list (← expectItems weights xs (others.map items))
      else refused
  | .tuple xs =>
      if sameKind && others.all (·.items.length == xs.length) then do
        return .tuple (← expectItems weights xs (others.map items))
      else refused
  | .mapping fields =>
      if sameKind && others.all (sameKeys fields ·.entries) then do
        return .mapping (← expectFields weights fields (others.map entries))
      else refused
  | .named t fields =>
      if sameKind then do return .named t (← expectFields weights fields (others.map entries))
      else refused
  | .record t fields =>
      if sameKind then do return .record t (← expectFields weights fields (others.map entries))
      else refused
  | .totalled t fields =>
      if sameKind then do
        let fields ← expectFields weights fields (others.map entries)
        let _ ← total fields
        return .totalled t fields
      else refused
  | .null | .flag _ | .text _ | .sealed _ => refused

/-- The weighted sums of the members of sequences of one length. -/
def expectItems (weights : List K) (first : List (Value K)) (others : List (List (Value K))) :
    Except (Fault K) (List (Value K)) :=
  match first with
  | [] => .ok []
  | v :: rest => do
      let e ← expect weights v (others.filterMap List.head?)
      return e :: (← expectItems weights rest (others.map List.tail))

/-- The weighted sums of the members with one key each. -/
def expectFields (weights : List K) (first : List (String × Value K))
    (others : List (List (String × Value K))) : Except (Fault K) (List (String × Value K)) :=
  match first with
  | [] => .ok []
  | (key, v) :: rest => do
      let e ← expect weights v (column others key)
      return (key, e) :: (← expectFields weights rest others)
end

/-- The weighted sum of payloads. -/
def expectation (payloads : List (Value K)) (weights : List K) : Except (Fault K) (Value K) :=
  match payloads with
  | [] => .error (.probability .emptyExpectation)
  | first :: others => expect weights first others

end Recourse.Value
