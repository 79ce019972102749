/-
  Datum.lean --- plain data, as it is sent along and written down.

  A datum is nothing, a truth value, a number, a text, a list, or a list of
  named entries.  Numbers keep the text they were written with, so that a whole
  number stays apart from a real one, and entries keep their order.
-/
import Recourse.Setting

set_option autoImplicit false

namespace Recourse

/-- Plain data. -/
inductive Datum where
  /-- Nothing. -/
  | null
  /-- A truth value. -/
  | flag (b : Bool)
  /-- A number, as it was written. -/
  | number (text : String)
  /-- A text. -/
  | text (s : String)
  /-- A list. -/
  | list (items : List Datum)
  /-- Named entries, in the order given. -/
  | entries (fields : List (String × Datum))
  deriving Inhabited

namespace Datum

/-! ## Looking inside -/

/-- The entry with a name. -/
def find? (d : Datum) (key : String) : Option Datum :=
  match d with
  | .entries fields => fields.lookup key
  | _ => none

/-- The entry with a name, if it says anything. -/
def given? (d : Datum) (key : String) : Option Datum :=
  match d.find? key with
  | some .null => none
  | found => found

/-- The entry with a name, nothing where there is none. -/
def field (d : Datum) (key : String) : Datum := (d.find? key).getD .null

/-- The items of a list. -/
def items : Datum → List Datum
  | .list xs => xs
  | _ => []

/-- The text of a text. -/
def text? : Datum → Option String
  | .text s => some s
  | _ => none

/-- The text of a text, empty for anything else. -/
def toText (d : Datum) : String := d.text?.getD ""

/-- The texts in a list. -/
def texts (d : Datum) : List String := d.items.map toText

/-- Whether a datum is the truth value true. -/
def isTrue : Datum → Bool
  | .flag b => b
  | _ => false

/-- Whether the text of a number has a point or an exponent. -/
def isReal (t : String) : Bool := t.toList.any fun c => c == '.' || c == 'e' || c == 'E'

/-- The integer of a number without point and exponent. -/
def int? : Datum → Option Int
  | .number t => if isReal t then none else Reading.readInt? t
  | _ => none

/-- The integer of a number, zero for anything else. -/
def toInt (d : Datum) : Int := d.int?.getD 0

/-- The integers in a list. -/
def ints (d : Datum) : List Int := d.items.map toInt

/-! ## Making -/

/-- An integer. -/
def ofInt (n : Int) : Datum := .number (toString n)

/-- A natural number. -/
def ofNat (n : Nat) : Datum := ofInt n

/-- Integers. -/
def ofInts (ns : List Int) : Datum := .list (ns.map ofInt)

/-- Natural numbers. -/
def ofNats (ns : List Nat) : Datum := .list (ns.map ofNat)

/-- Texts. -/
def ofTexts (ss : List String) : Datum := .list (ss.map text)

/-- Something that may be missing. -/
def ofOption {α : Type} (f : α → Datum) : Option α → Datum
  | some x => f x
  | none => .null

/-- The entries of a list, each made a datum. -/
def ofList {α : Type} (f : α → Datum) (xs : List α) : Datum := .list (xs.map f)

/-! ## Writing -/

/-- A character inside quotes. -/
def escaped (c : Char) : String :=
  if c == '"' then "\\\""
  else if c == '\\' then "\\\\"
  else if c.toNat < 32 then
    let hex := Nat.toDigits 16 c.toNat
    "\\u" ++ String.ofList (List.replicate (4 - hex.length) '0' ++ hex)
  else String.singleton c

/-- A text in quotes. -/
def quoted (s : String) : String := "\"" ++ String.join (s.toList.map escaped) ++ "\""

mutual
/-- A datum as one line of text. -/
def write : Datum → String
  | .null => "null"
  | .flag b => if b then "true" else "false"
  | .number t => t
  | .text s => quoted s
  | .list xs => "[" ++ ",".intercalate (writeItems xs) ++ "]"
  | .entries fields => "\x7b" ++ ",".intercalate (writeFields fields) ++ "\x7d"

/-- The items of a list, each as text. -/
def writeItems : List Datum → List String
  | [] => []
  | x :: xs => write x :: writeItems xs

/-- Named entries, each as text. -/
def writeFields : List (String × Datum) → List String
  | [] => []
  | (key, x) :: xs => (quoted key ++ ":" ++ write x) :: writeFields xs
end

end Datum

end Recourse
