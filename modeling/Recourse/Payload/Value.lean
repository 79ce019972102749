/-
  Payload/Value.lean --- what scenarios and stages carry.

  A payload is a number, a text, an array, a sequence, a mapping or a record,
  nested to any depth.  The type of a record is its name together with the names
  of its fields.
-/
import Recourse.Act
import Recourse.Table

set_option autoImplicit false

namespace Recourse

/-- A payload. -/
inductive Value (K : Type) where
  /-- Nothing. -/
  | null
  /-- A truth value. -/
  | flag (b : Bool)
  /-- A text. -/
  | text (s : String)
  /-- An integer. -/
  | whole (n : Int)
  /-- A real number. -/
  | real (x : K)
  /-- An array of real numbers, the last index running fastest. -/
  | array (shape : List Nat) (entries : List K)
  /-- An array of integers. -/
  | wholeArray (shape : List Nat) (entries : List Int)
  /-- A flat array of texts. -/
  | textArray (entries : List String)
  /-- A list. -/
  | list (items : List (Value K))
  /-- A tuple. -/
  | tuple (items : List (Value K))
  /-- A mapping, its keys in order. -/
  | mapping (entries : List (String × Value K))
  /-- A tuple with named entries. -/
  | named (typeName : String) (fields : List (String × Value K))
  /-- A record. -/
  | record (typeName : String) (fields : List (String × Value K))
  /-- A record with one more field `total`, the sum of the others. -/
  | totalled (typeName : String) (fields : List (String × Value K))
  /-- A value that says itself what its expectation is: the largest rain. -/
  | weather (rain : Value K)
  /-- A value of a type without any structure. -/
  | sealed (typeName : String)
  deriving Inhabited

/-- The type of a payload. -/
inductive Kind where
  /-- Nothing. -/
  | null
  /-- Truth values. -/
  | flag
  /-- Texts. -/
  | text
  /-- Integers. -/
  | whole
  /-- Real numbers. -/
  | real
  /-- Arrays of any entries and any shape. -/
  | array
  /-- Lists. -/
  | list
  /-- Tuples. -/
  | tuple
  /-- Mappings. -/
  | mapping
  /-- A type of tuples with named entries. -/
  | named (typeName : String) (fields : List String)
  /-- A type of records. -/
  | record (typeName : String) (fields : List String)
  /-- A type of records with a total. -/
  | totalled (typeName : String) (fields : List String)
  /-- Weather. -/
  | weather
  /-- A type without structure. -/
  | sealed (typeName : String)
  deriving DecidableEq, Repr, Inhabited

/-- The name of a type. -/
def Kind.name : Kind → String
  | .null => "NoneType"
  | .flag => "bool"
  | .text => "str"
  | .whole => "int"
  | .real => "float"
  | .array => "ndarray"
  | .list => "list"
  | .tuple => "tuple"
  | .mapping => "dict"
  | .named t _ | .record t _ | .totalled t _ | .sealed t => t
  | .weather => "Weather"

namespace Value

variable {K : Type}

/-- The type of a payload. -/
def kind : Value K → Kind
  | .null => .null
  | .flag _ => .flag
  | .text _ => .text
  | .whole _ => .whole
  | .real _ => .real
  | .array _ _ | .wholeArray _ _ | .textArray _ => .array
  | .list _ => .list
  | .tuple _ => .tuple
  | .mapping _ => .mapping
  | .named t fields => .named t (fields.map (·.1))
  | .record t fields => .record t (fields.map (·.1))
  | .totalled t fields => .totalled t (fields.map (·.1))
  | .weather _ => .weather
  | .sealed t => .sealed t

/-- The name of the type of a payload. -/
def typeName (v : Value K) : String := v.kind.name

/-! ## Conversion to numbers -/

variable [Scalar K]

/-- The number of a text. -/
def readNumber (s : String) : Except (Fault K) K :=
  match Reading.read? s with
  | some r => .ok r.value
  | none => .error (.misuse .value)

/-- The number a payload stands for where a single number is needed.  Texts are
read, and an array with a single entry stands for that entry. -/
def toNumber : Value K → Except (Fault K) K
  | .flag b => .ok (if b then 1 else 0)
  | .whole n => .ok (Scalar.ofInt n)
  | .real x => .ok x
  | .text s => readNumber s
  | .array _ [x] => .ok x
  | .wholeArray _ [n] => .ok (Scalar.ofInt n)
  | .textArray [s] => readNumber s
  | _ => .error (.misuse .kind)

/-- The numbers that count as real ones: not the truth values. -/
def real? : Value K → Option K
  | .whole n => some (Scalar.ofInt n)
  | .real x => some x
  | _ => none

/-- Whether a payload counts as true: neither nothing, nor zero, nor empty. -/
def holds : Value K → Except (Fault K) Bool
  | .null => .ok false
  | .flag b => .ok b
  | .text s => .ok (!s.isEmpty)
  | .whole n => .ok (n != 0)
  | .real x => .ok (!Scalar.isZero x)
  | .list items | .tuple items => .ok (!items.isEmpty)
  | .mapping entries | .named _ entries => .ok (!entries.isEmpty)
  | .array _ [x] => .ok (!Scalar.isZero x)
  | .wholeArray _ [n] => .ok (n != 0)
  | .textArray [s] => .ok (!s.isEmpty)
  | .array _ [] | .wholeArray _ [] | .textArray [] => .ok false
  | .array _ _ | .wholeArray _ _ | .textArray _ => .error (.misuse .value)
  | _ => .ok true

/-! ## Totals -/

/-- A payload as a numeric array: its shape, its entries, and whether they are
all integers. -/
def numeric? : Value K → Option (List Nat × List (Numeral K))
  | .flag b => some ([], [.whole (if b then 1 else 0)])
  | .whole n => some ([], [.whole n])
  | .real x => some ([], [.real x])
  | .array shape xs => some (shape, xs.map .real)
  | .wholeArray shape ns => some (shape, ns.map .whole)
  | _ => none

/-- The sum of two numerals, an integer where both are. -/
def addNumerals : Numeral K → Numeral K → Numeral K
  | .whole a, .whole b => .whole (a + b)
  | a, b => .real (a.value + b.value)

/-- The payload of a shape and its entries. -/
def ofNumerals (shape : List Nat) (xs : List (Numeral K)) : Value K :=
  let wholes := xs.filterMap fun
    | .whole n => some n
    | .real _ => none
  match shape, xs with
  | [], [.whole n] => .whole n
  | [], [.real x] => .real x
  | _, _ =>
      if wholes.length = xs.length ∧ xs ≠ [] then .wholeArray shape wholes
      else .array shape (xs.map (·.value))

/-- The sum of two payloads: numbers and arrays, a number added to every entry. -/
def add (a b : Value K) : Except (Fault K) (Value K) :=
  match a.numeric?, b.numeric? with
  | some (sa, xs), some (sb, ys) =>
      if sa = sb then .ok (ofNumerals sa (List.zipWith addNumerals xs ys))
      else match sa, sb, xs, ys with
        | [], _, [x], _ => .ok (ofNumerals sb (ys.map (addNumerals x)))
        | _, [], _, [y] => .ok (ofNumerals sa (xs.map (addNumerals · y)))
        | _, _, _, _ => .error (.misuse .value)
  | _, _ => .error (.misuse .kind)

/-- The sum of the fields of a record, from zero on. -/
def total (fields : List (String × Value K)) : Except (Fault K) (Value K) :=
  fields.foldlM (fun acc f => add acc f.2) (.whole 0)

/-- The fields of a record as its readers see them, a total included. -/
def visibleFields : Value K → List (String × Value K)
  | .named _ fields | .record _ fields => fields
  | .totalled _ fields =>
      match total fields with
      | .ok v => fields ++ [("total", v)]
      | .error _ => fields
  | .weather rain => [("rain", rain)]
  | _ => []

/-! ## Paths -/

/-- One step into a payload. -/
inductive PathStep where
  /-- A key of a mapping or a field of a record. -/
  | name (s : String)
  /-- A position in a sequence or an array; negative ones count from the end. -/
  | position (i : Int)
  deriving DecidableEq, Repr, Inhabited

/-- A position counted from the start, if it lies within the length. -/
def offset? (length : Nat) (i : Int) : Option Nat :=
  let k := if i < 0 then i + length else i
  if 0 ≤ k ∧ k < length then some k.toNat else none

/-- The part of a list that belongs to one value of the first index. -/
def slice {α : Type} (inner : List Nat) (entries : List α) (k : Nat) : List α :=
  let size := inner.foldl (· * ·) 1
  (entries.drop (k * size)).take size

/-- The payload one step further. -/
def child? (v : Value K) (s : PathStep) : Option (Value K) :=
  match s, v with
  | .name key, .mapping entries => Table.find? entries key
  | .name key, v => Table.find? v.visibleFields key
  | .position i, .list items | .position i, .tuple items =>
      (offset? items.length i).bind (items[·]?)
  | .position i, .named _ fields => ((offset? fields.length i).bind (fields[·]?)).map (·.2)
  | .position i, .textArray entries => ((offset? entries.length i).bind (entries[·]?)).map .text
  | .position i, .text t =>
      ((offset? t.length i).bind (t.toList[·]?)).map fun c => .text (String.ofList [c])
  | .position i, .array (n :: inner) xs => (offset? n i).map fun k =>
      match inner, slice inner xs k with
      | [], [x] => .real x
      | _, part => .array inner part
  | .position i, .wholeArray (n :: inner) xs => (offset? n i).map fun k =>
      match inner, slice inner xs k with
      | [], [x] => .real (Scalar.ofInt x)
      | _, part => .wholeArray inner part
  | _, _ => none

/-- The payload at the end of a path. -/
def follow (v : Value K) (path : List PathStep) : Except (Fault K) (Value K) :=
  match path with
  | [] => .ok v
  | s :: rest =>
      match v.child? s with
      | some c => c.follow rest
      | none => .error (.misuse .lookup)

end Value

end Recourse
