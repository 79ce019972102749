/-
  Number/Layout.lean --- the texts of floating-point numbers.

  Four layouts are in use: a fixed count of places, scientific notation with a
  fixed count of digits, the general layout that picks between the two by the
  size of the number, and the shortest text that reads back.  All of them round
  the exact binary value once, ties to even.
-/
import Recourse.Number.Shortest

set_option autoImplicit false

namespace Recourse.Decimal

/-- The texts of the numbers that have no digits. -/
def special? : Binary → Option String
  | .undefined => some "nan"
  | .infinite negative => some (if negative then "-inf" else "inf")
  | .finite _ _ _ => none

/-- A text with a minus sign in front of it where one is asked for. -/
def signed (negative : Bool) (cs : List Char) : String :=
  String.ofList (if negative then '-' :: cs else cs)

/-- Digits filled up with zeros on the left. -/
def padLeft (width : Nat) (cs : List Char) : List Char :=
  List.replicate (width - cs.length) '0' ++ cs

/-- A point in front of the last `places` of the digits. -/
def withPoint (places : Nat) (cs : List Char) : List Char :=
  let cs := padLeft (places + 1) cs
  let whole := cs.take (cs.length - places)
  if places = 0 then whole else whole ++ '.' :: cs.drop (cs.length - places)

/-- The exponent mark: `e`, a sign, and at least two digits. -/
def exponentMark (e : Int) : List Char :=
  'e' :: (if e < 0 then '-' else '+') :: padLeft 2 (digits e.natAbs)

/-- One digit, a point, and the rest of the digits. -/
def pointed (cs : List Char) : List Char :=
  match cs with
  | [] => []
  | [c] => [c]
  | c :: rest => c :: '.' :: rest

/-- A number to `places` places after the point. -/
def fixed (places : Nat) (x : Float) : String :=
  let b := Binary.ofFloat x
  match b with
  | .finite negative m q =>
      let (num, den) := Binary.quotient m q
      signed negative (withPoint places (digits (scaled num den (-(places : Int)))))
  | _ => (special? b).getD ""

/-- A number in scientific notation with `places` digits after the point. -/
def scientific (places : Nat) (x : Float) : String :=
  let b := Binary.ofFloat x
  match b with
  | .finite negative m q =>
      if m = 0 then signed negative (pointed (List.replicate (places + 1) '0') ++ exponentMark 0)
      else
        let (num, den) := Binary.quotient m q
        let (n, e) := digitsAt (places + 1) num den
        signed negative (pointed (digits n) ++ exponentMark e)
  | _ => (special? b).getD ""

/-- Trailing zeros dropped. -/
def stripZeros (cs : List Char) : List Char := (cs.reverse.dropWhile (· == '0')).reverse

/-- Digits with a leading power of ten `e`, written positionally. -/
def positional (cs : List Char) (e : Int) : List Char :=
  if e < 0 then '0' :: '.' :: (List.replicate (e.natAbs - 1) '0' ++ cs)
  else
    let split := e.toNat + 1
    if cs.length ≤ split then cs ++ List.replicate (split - cs.length) '0'
    else cs.take split ++ '.' :: cs.drop split

/-- The general layout with `count` significant digits: scientific where the
leading digit stands below `10 ^ -4` or at `10 ^ count` and above, positional
elsewhere, and no trailing zeros. -/
def general (count : Nat) (x : Float) : String :=
  let b := Binary.ofFloat x
  match b with
  | .finite negative m q =>
      if m = 0 then signed negative ['0']
      else
        let (num, den) := Binary.quotient m q
        let (n, e) := digitsAt count num den
        let cs := stripZeros (digits n)
        if e < -4 ∨ (count : Int) ≤ e then signed negative (pointed cs ++ exponentMark e)
        else signed negative (positional cs e)
  | _ => (special? b).getD ""

/-- A share as a whole percentage: the number is multiplied by a hundred first. -/
def percent (x : Float) : String := fixed 0 (x * 100.0) ++ "%"

/-- The shortest text that reads back, with a point in it or an exponent:
positional from `10 ^ -4` up to `10 ^ 16`. -/
def shortText (x : Float) : String :=
  let b := Binary.ofFloat x
  match b with
  | .finite negative m q =>
      if m = 0 then signed negative "0.0".toList
      else
        let (n, unit) := shortest m q
        let all := digits n
        let e := unit + (all.length : Int) - 1
        let cs := stripZeros all
        if e < -4 ∨ 16 ≤ e then signed negative (pointed cs ++ exponentMark e)
        else
          let body := positional cs e
          signed negative (if body.contains '.' then body else body ++ ['.', '0'])
  | _ => (special? b).getD ""

end Recourse.Decimal
