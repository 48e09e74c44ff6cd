/-
This file writes floating point numbers with two decimal places. The number is rounded once, from
its exact value, and a half goes to the even neighbour.
-/

import ExprDiagram.Numeral.Binary

namespace ExprDiagram

/-- The whole number nearest to a fraction; of two that are as near, the even one. -/
def nearestEven (numerator denominator : Nat) : Nat :=
  let quotient := numerator / denominator
  let twice := 2 * (numerator % denominator)
  if twice < denominator then quotient
  else if denominator < twice then quotient + 1
  else quotient + quotient % 2

/-- The number of hundredths nearest to `significand * 2 ^ exponent`. -/
def hundredths (significand : Nat) (exponent : Int) : Nat :=
  nearestEven (100 * Binary.numerator significand exponent) (Binary.denominator exponent)

/-- A number of hundredths as whole digits, a point and two digits. -/
def writeHundredths (count : Nat) : List Char :=
  Nat.toDigits 10 (count / 100) ++
    ['.', Nat.digitChar (count / 10 % 10), Nat.digitChar (count % 10)]

/-- The text of a number with two decimal places, by the number's parts. The sign stays when the
number is rounded to zero. -/
def Binary.writeFixed : Binary → List Char
  | notANumber => "NaN".toList
  | infinite negative => if negative then "-inf".toList else "inf".toList
  | finite negative significand exponent =>
    let text := writeHundredths (hundredths significand exponent)
    if negative then '-' :: text else text

/-- The text without a given character at its end, however often it stands there. -/
def trimEnd (character : Char) (text : List Char) : List Char :=
  (text.reverse.dropWhile (· == character)).reverse

/-- The text of a number with at most two decimal places: zeros at the end and then a point at the
end are left out, and zero has no sign. -/
def Binary.writeShort (number : Binary) : String :=
  let text := trimEnd '.' (trimEnd '0' number.writeFixed)
  String.ofList (if text = ['-', '0'] then ['0'] else text)

/-- The text of a floating point number with at most two decimal places. -/
def writeShort (number : Float) : String :=
  (Binary.ofFloat number).writeShort

end ExprDiagram
