/-
  Report/Basic.lean --- numbers and payloads as plain data.

  A report writes a real number as a text with seven significant digits, and
  what is closer to zero than `1e-9` as zero.  Integers stay numbers.
-/
import Recourse.Datum
import Recourse.Scenario

set_option autoImplicit false

namespace Recourse.Report

/-! ## Numbers -/

/-- Numbers closer to zero than this are reported as zero. -/
def smallest : Float := 1e-9

/-- A real number. -/
def number (x : Float) : Datum :=
  .text (if Float.abs x < smallest then "0" else Decimal.scientific 6 x)

/-- Real numbers. -/
def numbers (xs : List Float) : Datum := .list (xs.map number)

/-- Entries that are always there, followed by those of the others that are
asked for. -/
def asked (wanted : List String) (always others : List (String × Datum)) : Datum :=
  .entries (always ++ others.filter fun e => wanted.contains e.1)

/-! ## Payloads -/

mutual
/-- Entries nested by a shape, the last index running fastest. -/
def nested : List Nat → List Datum → Datum
  | [], xs => xs.headD .null
  | n :: inner, xs => .list (nestedParts inner n xs)

/-- The parts of a block that belong to the values of its first index. -/
def nestedParts (inner : List Nat) : Nat → List Datum → List Datum
  | 0, _ => []
  | n + 1, xs =>
      let size := inner.foldl (· * ·) 1
      nested inner (xs.take size) :: nestedParts inner n (xs.drop size)
end

/-- Something under a tag. -/
def tagged (tag : String) (d : Datum) : Datum := .entries [(tag, d)]

/-- A number or an array of numbers. -/
def numeric : Value Float → Datum
  | .whole n => tagged "int" (.ofInt n)
  | .real x => number x
  | .array shape xs => tagged "arr" (nested shape (xs.map number))
  | .wholeArray shape ns => tagged "iarr" (nested shape (ns.map Datum.ofInt))
  | _ => .null

/-- The total of some fields as one more field, if they have one. -/
def totalField (fs : List (String × Value Float)) : List Datum :=
  match Value.total fs with
  | .ok v => [.list [.text "total", numeric v]]
  | .error _ => []

mutual
/-- A payload. -/
def payload : Value Float → Datum
  | .null => .null
  | .flag b => .flag b
  | .text s => tagged "str" (.text s)
  | .whole n => numeric (.whole n)
  | .real x => numeric (.real x)
  | .array shape xs => numeric (.array shape xs)
  | .wholeArray shape ns => numeric (.wholeArray shape ns)
  | .textArray ss => tagged "sarr" (.ofTexts ss)
  | .list xs => tagged "list" (.list (payloads xs))
  | .tuple xs => tagged "tuple" (.list (payloads xs))
  | .mapping fs => tagged "map" (.list (fields fs))
  | .named t fs => tagged "nt" (.list [.text t, .list (fields fs)])
  | .record t fs => tagged "dc" (.list [.text t, .list (fields fs)])
  | .totalled t fs => tagged "dc" (.list [.text t, .list (fields fs ++ totalField fs)])
  | .weather rain => tagged "hook" (payload rain)
  | .sealed t => tagged "opaque" (.text t)

/-- Payloads in order. -/
def payloads : List (Value Float) → List Datum
  | [] => []
  | v :: rest => payload v :: payloads rest

/-- Named payloads, each a pair. -/
def fields : List (String × Value Float) → List Datum
  | [] => []
  | (key, v) :: rest => .list [.text key, payload v] :: fields rest
end

/-- A scenario. -/
def scenario (s : Scenario Float) : Datum :=
  .entries [("p", number s.probability), ("data", payload s.data),
    ("name", .ofOption .text s.name), ("repr", .text s.shown)]

/-- Scenarios. -/
def scenarios (ss : List (Scenario Float)) : Datum := .ofList scenario ss

/-- A plain setting; real numbers are written as such. -/
def setting : Setting Float → Datum
  | .null => .null
  | .flag b => .flag b
  | .number (.whole n) => .ofInt n
  | .number (.real x) => number x
  | .text s => .text s
  | .items xs => .list (settings xs)
  | .record fs => .entries (settingFields fs)
where
  /-- Settings in order. -/
  settings : List (Setting Float) → List Datum
    | [] => []
    | s :: rest => setting s :: settings rest
  /-- Named settings. -/
  settingFields : List (String × Setting Float) → List (String × Datum)
    | [] => []
    | (key, s) :: rest => (key, setting s) :: settingFields rest

end Recourse.Report
