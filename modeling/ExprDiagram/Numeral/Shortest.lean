/-
This file finds the shortest decimal that reads back as a given floating point number, and among
the shortest the one nearest to the number. A decimal reads back as the number if it lies between
the middles of the gaps to the number's neighbours; a middle itself belongs to the neighbour whose
significand is even. For each count of digits only two decimals need to be looked at, the ones next
to the number on either side. If both read back and are as near, a rule for ties decides.
-/

import ExprDiagram.Numeral.Binary

namespace ExprDiagram

/-- Which of two decimals is taken that are as near to a number. -/
inductive TieRule where
  /-- The one whose last digit is even. -/
  | toEven
  /-- The one farther from zero. -/
  | away
  deriving DecidableEq

/-- The decimal `digits * 10 ^ exponent`. -/
structure Decimal where
  digits : Nat
  exponent : Int
  deriving DecidableEq

namespace Decimal

/-- The number of decimal digits of a whole number. -/
def digitCount (number : Nat) : Nat := (Nat.toDigits 10 number).length

/-- The exponent of the power of ten at or below the fraction of two positive whole numbers. -/
def magnitude (numerator denominator : Nat) : Int :=
  let guess : Int := digitCount numerator - digitCount denominator
  if denominator * Nat.pow 10 guess.toNat ≤ numerator * Nat.pow 10 (-guess).toNat then guess
  else guess - 1

/-- Whether `digits * 10 ^ exponent`, times `denominator`, lies between two whole numbers. The ends
belong to the range if `closed` holds. -/
def liesBetween (low high denominator : Nat) (closed : Bool) (decimal : Decimal) : Bool :=
  let value := decimal.digits * Nat.pow 10 decimal.exponent.toNat * denominator
  let scale := Nat.pow 10 (-decimal.exponent).toNat
  if closed then low * scale ≤ value && value ≤ high * scale
  else low * scale < value && value < high * scale

/-- Whether the lower of two neighbouring decimals is taken, where the number lies between them by
the given part of a unit. -/
def takesLower (tie : TieRule) (lower part unit : Nat) : Bool :=
  if 2 * part = unit then
    match tie with
    | .toEven => lower % 2 == 0
    | .away => false
  else 2 * part < unit

/-- Of the two decimals of a given exponent next to a positive fraction, the one in a range around
the fraction; if both lie in the range, the nearer one. -/
def nextTo? (tie : TieRule) (numerator denominator low high : Nat) (closed : Bool)
    (exponent : Int) : Option Decimal :=
  let scaled := numerator * Nat.pow 10 (-exponent).toNat
  let unit := denominator * Nat.pow 10 exponent.toNat
  let lower : Decimal := ⟨scaled / unit, exponent⟩
  let upper : Decimal := ⟨scaled / unit + 1, exponent⟩
  let inRange := liesBetween low high denominator closed
  match inRange lower, inRange upper with
  | true, true => some (if takesLower tie lower.digits (scaled % unit) unit then lower else upper)
  | true, false => some lower
  | false, true => some upper
  | false, false => none

/-- The same decimal without zeros at the end of its digits. -/
def trimmed (decimal : Decimal) : Decimal :=
  if _whole : decimal.digits ≠ 0 ∧ decimal.digits % 10 = 0 then
    trimmed ⟨decimal.digits / 10, decimal.exponent + 1⟩
  else decimal
termination_by decimal.digits
decreasing_by exact Nat.div_lt_self (Nat.pos_of_ne_zero _whole.1) (by decide)

/-- The shortest decimal that reads back as `significand * 2 ^ exponent`, which is not zero. Below a
power of two the gap to the next smaller number is half as wide. All quantities are counted in
quarters of a unit of the significand. -/
def shortest (tie : TieRule) (significand : Nat) (exponent : Int) : Decimal :=
  let narrow := significand = Binary.leadingBit ∧ Binary.leastExponent < exponent
  let numerator := Binary.numerator (4 * significand) exponent
  let low := Binary.numerator (4 * significand - if narrow then 1 else 2) exponent
  let high := Binary.numerator (4 * significand + 2) exponent
  let denominator := 4 * Binary.denominator exponent
  let leading := magnitude numerator denominator
  let closed := significand % 2 == 0
  let found := (List.range 17).findSome? fun (further : Nat) =>
    nextTo? tie numerator denominator low high closed (leading - further)
  (found.getD ⟨0, 0⟩).trimmed

end Decimal

end ExprDiagram
