/-
This file writes floating point numbers with as few digits as tell them apart. The ways of writing
differ only in where the point may stand, in whether a whole number keeps its point, and in what is
taken when two texts are as good; they are given as formats, and one function writes them all.
-/

import ExprDiagram.Numeral.Shortest

namespace ExprDiagram

/-- A way of writing numbers. -/
structure NumeralFormat where
  /-- Whether a number whose first digit counts the given power of ten is written without an
  exponent. -/
  positional : Int → Bool
  /-- Whether a whole number without exponent has a point and a zero behind it. -/
  keepsPoint : Bool
  /-- Which of two shortest texts is taken that are as near to the number. -/
  tie : TieRule

/-- Numbers in records: from `0.00001` to below `10000000000000000.0` without an exponent, and whole
numbers with a point. -/
def recordFormat : NumeralFormat where
  positional power := -5 ≤ power && power < 16
  keepsPoint := true
  tie := .toEven

/-- Numbers in messages: never with an exponent, and whole numbers without a point. -/
def messageFormat : NumeralFormat where
  positional _ := true
  keepsPoint := false
  tie := .away

namespace NumeralFormat

/-- Digits with the point before the digit of the given place, where zeros fill up on either side;
`keepsPoint` says whether a whole number has a point. -/
def pointed (keepsPoint : Bool) (digits : List Char) (point : Int) : List Char :=
  if point ≤ 0 then ['0', '.'] ++ List.replicate (-point).toNat '0' ++ digits
  else if digits.length ≤ point.toNat then
    digits ++ List.replicate (point.toNat - digits.length) '0' ++
      if keepsPoint then ['.', '0'] else []
  else digits.take point.toNat ++ '.' :: digits.drop point.toNat

/-- The first digit, the point, the other digits, and the power of ten that the first digit counts,
always with a sign. -/
def withExponent (digits : List Char) (power : Int) : List Char :=
  let sign := if power < 0 then '-' else '+'
  digits.take 1 ++ (if digits.length ≤ 1 then [] else '.' :: digits.drop 1) ++
    'e' :: sign :: Nat.toDigits 10 power.natAbs

/-- The text of a decimal that is not negative. -/
def writeDecimal (format : NumeralFormat) (decimal : Decimal) : List Char :=
  let digits := Nat.toDigits 10 decimal.digits
  let power := decimal.exponent + digits.length - 1
  if format.positional power then pointed format.keepsPoint digits (power + 1)
  else withExponent digits power

/-- The text of a number by its parts. Zero keeps its sign. -/
def writeBinary (format : NumeralFormat) : Binary → String
  | .notANumber => "NaN"
  | .infinite negative => if negative then "-inf" else "inf"
  | .finite negative significand exponent =>
    let decimal :=
      if significand = 0 then ⟨0, 0⟩ else Decimal.shortest format.tie significand exponent
    let text := format.writeDecimal decimal
    String.ofList (if negative then '-' :: text else text)

/-- The text of a floating point number. -/
def write (format : NumeralFormat) (number : Float) : String :=
  format.writeBinary (Binary.ofFloat number)

end NumeralFormat

end ExprDiagram
