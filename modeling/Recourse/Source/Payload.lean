/-
  Source/Payload.lean --- payloads and scenarios from plain data.

  Nothing, truth values, texts and real numbers stand for themselves; everything
  else is written under a tag.
-/
import Recourse.Scenario
import Recourse.Source.Number

set_option autoImplicit false

namespace Recourse.Source

variable {K : Type} [Scalar K]

/-- A record with a total, refused where its fields have none. -/
def totalled (typeName : String) (fields : List (String × Value K)) :
    Except (Fault K) (Value K) := do
  let _ ← Value.total fields
  return .totalled typeName fields

mutual
/-- A payload. -/
def payload : Datum → Except (Fault K) (Value K)
  | .null => .ok .null
  | .flag b => .ok (.flag b)
  | .text s => .ok (.text s)
  | .number t => .ok (.real (writtenNumber t))
  | .list xs => do return .list (← payloads xs)
  | .entries [(tag, d)] => tagged tag d
  | .entries _ => .error (.misuse .kind)

/-- A payload under a tag. -/
def tagged (tag : String) : Datum → Except (Fault K) (Value K)
  | .list xs =>
      match tag with
      | "list" => do return .list (← payloads xs)
      | "tuple" => do return .tuple (← payloads xs)
      | "map" => do return .mapping (← fields xs)
      | "nt" => do
          let (t, fs) ← typed xs
          return .named t fs
      | "dc" => do
          let (t, fs) ← typed xs
          return .record t fs
      | "dct" => do
          let (t, fs) ← typed xs
          totalled t fs
      | "hook" => do return .weather (.list (← payloads xs))
      | "arr" => do return .array (shape (.list xs)) (← numbersOfItems xs)
      | "iarr" => .ok (.wholeArray (shape (.list xs)) (integersOfItems xs))
      | "sarr" => .ok (.textArray (xs.map Datum.toText))
      | _ => .error (.misuse .kind)
  | d =>
      match tag with
      | "int" => .ok (.whole d.toInt)
      | "f" => (textNumber d.toText).map .real
      | "hook" => do return .weather (← payload d)
      | "opaque" => .ok (.sealed d.toText)
      | "arr" => do return .array [] (← numbers d)
      | "iarr" => .ok (.wholeArray [] (integers d))
      | _ => .error (.misuse .kind)

/-- The items of a list as payloads. -/
def payloads : List Datum → Except (Fault K) (List (Value K))
  | [] => .ok []
  | d :: rest => do
      let v ← payload d
      return v :: (← payloads rest)

/-- Pairs of a key and a payload. -/
def fields : List Datum → Except (Fault K) (List (String × Value K))
  | [] => .ok []
  | .list [key, d] :: rest => do
      let v ← payload d
      return (key.toText, v) :: (← fields rest)
  | _ :: _ => malformed

/-- The name of a type, and fields. -/
def typed : List Datum → Except (Fault K) (String × List (String × Value K))
  | [t, .list fs] => do return (t.toText, ← fields fs)
  | _ => malformed
end

/-- A scenario. -/
def scenario (d : Datum) : Except (Fault K) (Scenario K) := do
  Scenario.make (← numeral (d.field "p")) (← payload (d.field "data")) (name? d)

/-- The scenarios in a list. -/
def scenarios (d : Datum) : Except (Fault K) (List (Scenario K)) := d.items.mapM scenario

end Recourse.Source
