/-
  Setting.lean --- plain values that configure a run.

  Options, counts and indices arrive untyped.  A setting keeps what was written,
  so that messages can show it, and offers the conversions that the places of
  use ask for.
-/
import Recourse.Number.Numeral
import Recourse.Text.Quoted

set_option autoImplicit false

namespace Recourse

/-- A plain value of an option. -/
inductive Setting (K : Type) where
  /-- Nothing. -/
  | null
  /-- A truth value. -/
  | flag (b : Bool)
  /-- A number. -/
  | number (n : Numeral K)
  /-- A text. -/
  | text (s : String)
  /-- A list. -/
  | items (xs : List (Setting K))
  /-- Named entries, in the order given. -/
  | record (fields : List (String × Setting K))
  deriving Inhabited

namespace Setting

/-- Why a setting cannot be converted. -/
inductive Unfit where
  /-- The kind of value has no such conversion. -/
  | kind
  /-- The kind has one, but not for this value. -/
  | value
  deriving DecidableEq, Repr, Inhabited

variable {K : Type} [Scalar K]

/-- Truth values count as zero and one wherever a number is compared. -/
def number? : Setting K → Option K
  | .flag b => some (if b then 1 else 0)
  | .number n => some n.value
  | _ => none

/-- The integer a setting stands for where an integer is needed as it is. -/
def integer? : Setting K → Option Int
  | .flag b => some (if b then 1 else 0)
  | .number (.whole n) => some n
  | _ => none

/-- Conversion to an integer: fractions are cut off and texts are read. -/
def toInteger : Setting K → Except Unfit Int
  | .flag b => .ok (if b then 1 else 0)
  | .number (.whole n) => .ok n
  | .number (.real x) => match Scalar.truncate x with
      | some n => .ok n
      | none => .error .value
  | .text s => match Reading.readInt? s with
      | some n => .ok n
      | none => .error .value
  | _ => .error .kind

/-- Conversion to a number: texts are read. -/
def toNumber : Setting K → Except Unfit K
  | .text s => match Reading.read? s with
      | some r => .ok r.value
      | none => .error .value
  | s => match s.number? with
      | some x => .ok x
      | none => .error .kind

/-- Whether a setting counts as true: neither nothing, nor zero, nor empty. -/
def holds : Setting K → Bool
  | .null => false
  | .flag b => b
  | .number n => !Scalar.isZero n.value
  | .text s => !s.isEmpty
  | .items xs => !xs.isEmpty
  | .record fields => !fields.isEmpty

/-- The value of a named entry. -/
def entry? : Setting K → String → Option (Setting K)
  | .record fields, key => fields.lookup key
  | _, _ => none

/-- The name of the type of a setting. -/
def typeName {K : Type} : Setting K → String
  | .null => "NoneType"
  | .flag _ => "bool"
  | .number (.whole _) => "int"
  | .number (.real _) => "float"
  | .text _ => "str"
  | .items _ => "list"
  | .record _ => "dict"

mutual
/-- A setting written out, texts quoted. -/
def shown : Setting Float → String
  | .null => "None"
  | .flag b => if b then "True" else "False"
  | .number n => n.text
  | .text s => Text.quoted s
  | .items xs => Text.bracketed (shownItems xs)
  | .record fields => Text.braced (shownFields fields)

/-- The entries of a list written out. -/
def shownItems : List (Setting Float) → List String
  | [] => []
  | x :: xs => shown x :: shownItems xs

/-- Named entries written out. -/
def shownFields : List (String × Setting Float) → List String
  | [] => []
  | (key, x) :: xs => (Text.quoted key ++ ": " ++ shown x) :: shownFields xs
end

/-- A setting inside a message: a text stands there unquoted. -/
def plain : Setting Float → String
  | .text s => s
  | s => s.shown

/-- A whole number as a setting. -/
def ofInt (n : Int) : Setting K := .number (.whole n)

end Setting

end Recourse
