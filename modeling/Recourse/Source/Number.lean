/-
  Source/Number.lean --- numbers, blocks of numbers and settings from plain data.

  A number is written as such, as a text such as `inf`, or under a tag where its
  type matters.  Settings keep the type they were written with.
-/
import Recourse.Datum
import Recourse.Fault.Cause
import Recourse.Sampler.Grid

set_option autoImplicit false

namespace Recourse.Source

variable {K : Type} [Scalar K]

/-- Something of the wrong form. -/
def malformed {α : Type} : Except (Fault K) α := .error (.misuse .key)

/-! ## Numbers -/

/-- The number of a text; none where it is no number. -/
def textNumber (s : String) : Except (Fault K) K :=
  match Reading.read? s with
  | some r => .ok r.value
  | none => .error (.misuse .value)

/-- The real number that the text of a number stands for. -/
def writtenNumber (t : String) : K :=
  if Datum.isReal t then ((Reading.read? t).map Reading.value).getD 0
  else Scalar.ofInt ((Reading.readInt? t).getD 0)

/-- A number with its type: tagged integers are integers, all others real. -/
def numeral : Datum → Except (Fault K) (Numeral K)
  | .number t => .ok (.real (writtenNumber t))
  | .text s => (textNumber s).map .real
  | .flag b => .ok (.whole (if b then 1 else 0))
  | d => match d.find? "int", d.find? "f" with
      | some n, _ => .ok (.whole n.toInt)
      | none, some (.text s) => (textNumber s).map .real
      | none, _ => .error (.misuse .kind)

/-- A real number. -/
def number (d : Datum) : Except (Fault K) K := (numeral d).map (·.value)

/-- A real number, or another one where nothing is written. -/
def numberOr (d : Datum) (key : String) (other : K) : Except (Fault K) K :=
  match d.given? key with
  | some x => number x
  | none => .ok other

/-! ## Blocks of numbers -/

mutual
/-- The numbers in nested lists, in order. -/
def numbers : Datum → Except (Fault K) (List K)
  | .list xs => numbersOfItems xs
  | d => do return [← number d]

/-- The numbers in the items of a list, in order. -/
def numbersOfItems : List Datum → Except (Fault K) (List K)
  | [] => .ok []
  | d :: rest => do
      let xs ← numbers d
      return xs ++ (← numbersOfItems rest)
end

/-- The numbers under a key, if there are any. -/
def numbers? (d : Datum) (key : String) : Except (Fault K) (Option (List K)) :=
  match d.given? key with
  | some x => some <$> numbers x
  | none => .ok none

/-- The numbers in a list, none where there is no list. -/
def numberList (d : Datum) : Except (Fault K) (List K) := numbersOfItems d.items

mutual
/-- The integers in nested lists, in order. -/
def integers : Datum → List Int
  | .list xs => integersOfItems xs
  | d => [d.toInt]

/-- The integers in the items of a list, in order. -/
def integersOfItems : List Datum → List Int
  | [] => []
  | d :: rest => integers d ++ integersOfItems rest
end

/-- The shape of nested lists, by their first items. -/
def shape : Datum → List Nat
  | .list [] => [0]
  | .list (x :: xs) => (xs.length + 1) :: shape x
  | _ => []

/-- A block of numbers with its shape. -/
def grid (d : Datum) : Except (Fault K) (Grid K) := do
  return ⟨shape d, ← numbers d⟩

/-- The block of numbers under a key, if there is one. -/
def grid? (d : Datum) (key : String) : Except (Fault K) (Option (Grid K)) :=
  match d.given? key with
  | some x => some <$> grid x
  | none => .ok none

/-! ## Settings -/

mutual
/-- A setting. -/
def setting : Datum → Setting K
  | .null => .null
  | .flag b => .flag b
  | .number t =>
      if Datum.isReal t then .number (.real (writtenNumber t))
      else .number (.whole ((Reading.readInt? t).getD 0))
  | .text s => .text s
  | .list xs => .items (settingsOfItems xs)
  | .entries fields => .record (settingsOfFields fields)

/-- The items of a list as settings. -/
def settingsOfItems : List Datum → List (Setting K)
  | [] => []
  | d :: rest => setting d :: settingsOfItems rest

/-- Named entries as settings. -/
def settingsOfFields : List (String × Datum) → List (String × Setting K)
  | [] => []
  | (key, d) :: rest => (key, setting d) :: settingsOfFields rest
end

/-- Named settings, none where there are no entries. -/
def settings : Datum → List (String × Setting K)
  | .entries fields => settingsOfFields fields
  | _ => []

/-- The setting under a key, or another one where there is none. -/
def settingOr (d : Datum) (key : String) (other : Setting K) : Setting K :=
  (d.find? key).elim other setting

/-- The setting under a key, if it says anything. -/
def setting? (d : Datum) (key : String) : Option (Setting K) := (d.given? key).map setting

/-- The text under a key, or another one where there is none. -/
def textOr (d : Datum) (key other : String) : String := ((d.field key).text?).getD other

/-- The name of something, if it has one. -/
def name? (d : Datum) : Option String := (d.field "name").text?

end Recourse.Source
