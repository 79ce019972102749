/-
  Datum/Reader.lean --- reading plain data from text.

  Each reader returns what it read and the rest of the text.  Values, the items
  of lists and named entries are read by mutual recursion over a depth that the
  length of the text bounds.  Text that is not well formed gives some datum.
-/
import Recourse.Datum

set_option autoImplicit false

namespace Recourse.Datum

/-! ## Texts -/

/-- The value of a hexadecimal digit. -/
def hexValue (c : Char) : Nat :=
  if '0' ≤ c ∧ c ≤ '9' then c.toNat - 48
  else if 'a' ≤ c ∧ c ≤ 'f' then c.toNat - 87
  else if 'A' ≤ c ∧ c ≤ 'F' then c.toNat - 55
  else 0

/-- The unit that a letter behind a backslash stands for. -/
def escapeUnit (c : Char) : Nat :=
  match c with
  | 'n' => 10
  | 't' => 9
  | 'r' => 13
  | 'b' => 8
  | 'f' => 12
  | c => c.toNat

/-- The units of a text up to its closing quote, and what follows it. -/
def readUnits : List Char → List Nat × List Char
  | [] => ([], [])
  | '"' :: rest => ([], rest)
  | '\\' :: 'u' :: a :: b :: c :: d :: rest =>
      let (units, rest) := readUnits rest
      ((((hexValue a * 16 + hexValue b) * 16 + hexValue c) * 16 + hexValue d) :: units, rest)
  | '\\' :: c :: rest =>
      let (units, rest) := readUnits rest
      (escapeUnit c :: units, rest)
  | c :: rest =>
      let (units, rest) := readUnits rest
      (c.toNat :: units, rest)

/-- The characters of units; two halves of a pair make one character. -/
def joinUnits : List Nat → List Char
  | [] => []
  | [n] => [Char.ofNat n]
  | n :: m :: rest =>
      if 0xd800 ≤ n ∧ n < 0xdc00 ∧ 0xdc00 ≤ m ∧ m < 0xe000 then
        Char.ofNat (0x10000 + (n - 0xd800) * 1024 + (m - 0xdc00)) :: joinUnits rest
      else Char.ofNat n :: joinUnits (m :: rest)

/-- The text up to its closing quote, and what follows it. -/
def readText (cs : List Char) : String × List Char :=
  let (units, rest) := readUnits cs
  (String.ofList (joinUnits units), rest)

/-! ## Values -/

/-- The text behind blanks. -/
def skipBlanks (cs : List Char) : List Char := cs.dropWhile (·.isWhitespace)

/-- Whether a character can be part of a number. -/
def isNumberPart (c : Char) : Bool := c.isDigit || "+-.eE".toList.contains c

mutual
/-- A value and what follows it. -/
def readValue : Nat → List Char → Datum × List Char
  | 0, cs => (.null, cs)
  | depth + 1, cs =>
      match skipBlanks cs with
      | '\x7b' :: rest =>
          match skipBlanks rest with
          | '\x7d' :: rest => (.entries [], rest)
          | rest =>
              let (fields, rest) := readFields depth rest
              (.entries fields, rest)
      | '[' :: rest =>
          match skipBlanks rest with
          | ']' :: rest => (.list [], rest)
          | rest =>
              let (xs, rest) := readItems depth rest
              (.list xs, rest)
      | '"' :: rest =>
          let (s, rest) := readText rest
          (.text s, rest)
      | 't' :: 'r' :: 'u' :: 'e' :: rest => (.flag true, rest)
      | 'f' :: 'a' :: 'l' :: 's' :: 'e' :: rest => (.flag false, rest)
      | 'n' :: 'u' :: 'l' :: 'l' :: rest => (.null, rest)
      | rest => (.number (String.ofList (rest.takeWhile isNumberPart)), rest.dropWhile isNumberPart)

/-- The items of a list up to its end. -/
def readItems : Nat → List Char → List Datum × List Char
  | 0, cs => ([], cs)
  | depth + 1, cs =>
      let (x, rest) := readValue depth cs
      match skipBlanks rest with
      | ',' :: rest =>
          let (xs, rest) := readItems depth rest
          (x :: xs, rest)
      | rest => ([x], rest.drop 1)

/-- Named entries up to their end. -/
def readFields : Nat → List Char → List (String × Datum) × List Char
  | 0, cs => ([], cs)
  | depth + 1, cs =>
      let (key, rest) := readText ((skipBlanks cs).drop 1)
      let (x, rest) := readValue depth ((skipBlanks rest).drop 1)
      match skipBlanks rest with
      | ',' :: rest =>
          let (fields, rest) := readFields depth rest
          ((key, x) :: fields, rest)
      | rest => ([(key, x)], rest.drop 1)
end

/-- The datum in a text. -/
def read (s : String) : Datum := (readValue (s.length + 1) s.toList).1

end Recourse.Datum
