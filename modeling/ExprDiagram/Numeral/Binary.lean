/-
This file takes a floating point number apart. A finite number is a whole number times a power of
two, up to its sign; the neighbours of the number then lie at known distances, which is all that is
needed to write the number in decimal digits without any further rounding.
-/

namespace ExprDiagram

/-- A floating point number by its parts. -/
inductive Binary where
  | notANumber
  | infinite (negative : Bool)
  /-- The number `significand * 2 ^ exponent`, or its negative. Zero has a sign too. -/
  | finite (negative : Bool) (significand : Nat) (exponent : Int)
  deriving DecidableEq

namespace Binary

/-- The bit before the fraction of a significand, which has fifty-two bits. -/
def leadingBit : Nat := Nat.pow 2 52

/-- The least exponent of a finite number. -/
def leastExponent : Int := -1074

/-- The parts of the number that is stored in the given bits. The bits are the sign, eleven bits of
exponent and the fraction; the significand has a further leading bit unless the exponent bits are
zero. -/
def ofBits (bits : Nat) : Binary :=
  let negative := bits / Nat.pow 2 63 % 2 == 1
  let exponent := bits / leadingBit % 2048
  let fraction := bits % leadingBit
  if exponent = 2047 then
    if fraction = 0 then infinite negative else notANumber
  else if exponent = 0 then finite negative fraction leastExponent
  else finite negative (leadingBit + fraction) (leastExponent + (exponent - 1))

/-- The parts of a floating point number. -/
def ofFloat (number : Float) : Binary := ofBits number.toBits.toNat

/-- The numerator of `significand * 2 ^ exponent` as a fraction of whole numbers. -/
def numerator (significand : Nat) (exponent : Int) : Nat := significand * Nat.pow 2 exponent.toNat

/-- The denominator of `significand * 2 ^ exponent` as a fraction of whole numbers. -/
def denominator (exponent : Int) : Nat := Nat.pow 2 (-exponent).toNat

end Binary

end ExprDiagram
