/-
  Number/Numeral.lean --- numbers as they were written, and numbers from text.

  A numeral remembers whether it was written as a whole number, because messages
  print it the way it was written.  A reading is what a text says about a
  number, before it is rounded to any arithmetic.
-/
import Recourse.Number.Scalar
import Recourse.Number.Layout

set_option autoImplicit false

namespace Recourse

/-! ## Numerals -/

/-- A number as it was given: a whole number or a real one. -/
inductive Numeral (K : Type) where
  /-- Written without a point and without an exponent. -/
  | whole (n : Int)
  /-- Any other number. -/
  | real (x : K)
  deriving Repr, Inhabited

namespace Numeral

/-- The number a numeral stands for. -/
def value {K : Type} [Scalar K] : Numeral K → K
  | .whole n => Scalar.ofInt n
  | .real x => x

/-- A numeral as messages print it. -/
def text : Numeral Float → String
  | .whole n => toString n
  | .real x => Decimal.shortText x

end Numeral

/-! ## Reading -/

/-- What a text says about a number. -/
inductive Reading where
  /-- The undefined value, by name. -/
  | undefined
  /-- An infinity, by name. -/
  | infinite (negative : Bool)
  /-- `± significand · 10 ^ exponent`. -/
  | finite (negative : Bool) (significand : Nat) (exponent : Int)
  deriving DecidableEq, Repr, Inhabited

namespace Reading

/-- The nearest number.  A power of ten far outside the range of every
arithmetic in use counts as infinite or as zero. -/
def value {K : Type} [Scalar K] : Reading → K
  | .undefined => Scalar.undefined
  | .infinite negative => if negative then Scalar.negInfinity else Scalar.infinity
  | .finite negative m e =>
      let size : K :=
        if m = 0 then 0
        else if 400 < e then Scalar.infinity
        else if e < -(400 + (m.log2 : Int)) then 0
        else if 0 ≤ e then Scalar.ofInt (m * Nat.pow 10 e.toNat : Nat)
        else Scalar.decimal m (-e).toNat
      if negative then -size else size

/-- White space as a reader of numbers skips it. -/
def isBlank (c : Char) : Bool :=
  c.isWhitespace || c.val == 0x0b || c.val == 0x0c || (0x1c ≤ c.val && c.val ≤ 0x1f) ||
    c.val == 0x85 || c.val == 0xa0 || c.val == 0x1680 || (0x2000 ≤ c.val && c.val ≤ 0x200a) ||
    c.val == 0x2028 || c.val == 0x2029 || c.val == 0x202f || c.val == 0x205f || c.val == 0x3000

/-- A text without the white space around it. -/
def trimmed (s : String) : List Char :=
  ((s.toList.dropWhile isBlank).reverse.dropWhile isBlank).reverse

/-- The sign in front of a text, and the rest of it. -/
def splitSign : List Char → Bool × List Char
  | '-' :: cs => (true, cs)
  | '+' :: cs => (false, cs)
  | cs => (false, cs)

/-- Digits in which single underscores may stand between two digits, without the
underscores. -/
def groupedDigits : List Char → Option (List Char)
  | [] => none
  | [c] => if c.isDigit then some [c] else none
  | c :: '_' :: rest => if c.isDigit then (groupedDigits rest).map (c :: ·) else none
  | c :: rest => if c.isDigit then (groupedDigits rest).map (c :: ·) else none

/-- The value of a list of digits. -/
def natValue (cs : List Char) : Nat := cs.foldl (fun n c => 10 * n + (c.toNat - '0'.toNat)) 0

/-- A natural number with a sign. -/
def signedValue (negative : Bool) (ds : List Char) : Int :=
  if negative then -(natValue ds : Int) else natValue ds

/-- A whole number with an optional sign and white space around it. -/
def readInt? (s : String) : Option Int :=
  let (negative, body) := splitSign (trimmed s)
  (groupedDigits body).map (signedValue negative)

/-- Digits that may be missing altogether. -/
def optionalDigits (cs : List Char) : Option (List Char) :=
  if cs.isEmpty then some [] else groupedDigits cs

/-- An exponent behind its mark; without a mark it is zero. -/
def readExponent? : List Char → Option Int
  | [] => some 0
  | _ :: cs =>
      let (negative, body) := splitSign cs
      (groupedDigits body).map (signedValue negative)

/-- Digits around a point, of which one side may be empty, with their places. -/
def readMantissa? (cs : List Char) : Option (Nat × Nat) := do
  let w ← optionalDigits (cs.takeWhile (· != '.'))
  let f ← optionalDigits ((cs.dropWhile (· != '.')).drop 1)
  if w.isEmpty && f.isEmpty then none else some (natValue (w ++ f), f.length)

/-- The mark in front of an exponent. -/
def isMark (c : Char) : Bool := c == 'e' || c == 'E'

/-- A number from text: an infinity or the undefined value by name in any case,
or digits with an optional point and exponent, white space around them. -/
def read? (s : String) : Option Reading :=
  let (negative, body) := splitSign (trimmed s)
  let name := String.ofList (body.map Char.toLower)
  if name == "inf" || name == "infinity" then some (.infinite negative)
  else if name == "nan" then some .undefined
  else do
    let (m, places) ← readMantissa? (body.takeWhile (!isMark ·))
    let e ← readExponent? (body.dropWhile (!isMark ·))
    return .finite negative m (e - places)

end Reading

end Recourse
