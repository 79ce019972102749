/-
  Number/Binary.lean --- a binary floating-point number taken apart.

  A finite number is `± significand · 2 ^ exponent`, exactly.  The texts of
  numbers are computed from this form in natural-number arithmetic, so that no
  rounding happens before the one the text asks for.
-/

set_option autoImplicit false

namespace Recourse

/-- What a floating-point number stands for. -/
inductive Binary where
  /-- No number. -/
  | undefined
  /-- An infinity. -/
  | infinite (negative : Bool)
  /-- `± significand · 2 ^ exponent`. -/
  | finite (negative : Bool) (significand : Nat) (exponent : Int)
  deriving DecidableEq, Repr, Inhabited

namespace Binary

/-- The number in a 64-bit word: one sign bit, eleven exponent bits, fifty-two
fraction bits. -/
def ofWord (word : Nat) : Binary :=
  let negative := decide (Nat.pow 2 63 ≤ word)
  let field : Nat := word / Nat.pow 2 52 % Nat.pow 2 11
  let fraction : Nat := word % Nat.pow 2 52
  if field = 2047 then if fraction = 0 then .infinite negative else .undefined
  else if field = 0 then .finite negative fraction (-1074)
  else .finite negative (Nat.pow 2 52 + fraction) ((field : Int) - 1075)

/-- The number a `Float` holds. -/
def ofFloat (x : Float) : Binary := ofWord x.toBits.toNat

/-- The size of a finite number as a quotient of natural numbers. -/
def quotient (significand : Nat) (exponent : Int) : Nat × Nat :=
  if 0 ≤ exponent then (significand * Nat.pow 2 exponent.toNat, 1)
  else (significand, Nat.pow 2 (-exponent).toNat)

theorem quotient_den_pos (m : Nat) (q : Int) : 0 < (quotient m q).2 := by
  unfold quotient
  split
  · exact Nat.one_pos
  · exact Nat.pow_pos (by decide)

end Binary

end Recourse
