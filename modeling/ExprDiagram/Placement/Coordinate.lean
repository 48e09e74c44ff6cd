/-
This file says what numbers can serve as horizontal positions. A layout is computed with floating
point numbers, whose every rounding shows in what is printed; what the layout means is a matter of
exact numbers. So positions are computed over any type with the operations below, and the two types
are instances.
-/

namespace ExprDiagram

/-- Numbers that can serve as positions. The operations are used in one fixed order, since that of
floating point numbers matters. -/
class Coordinate (α : Type) extends Add α, Sub α, Mul α, Div α, Neg α, LT α where
  decideLT : DecidableLT α
  /-- A count as a number. -/
  ofNat : Nat → α
  /-- Whether a number can be compared with others. -/
  isOrdered : α → Bool
  /-- The least of no numbers. Only a type that has such a value needs it to be meaningful. -/
  top : α
  /-- The greatest of no numbers. Only a type that has such a value needs it to be meaningful. -/
  bottom : α
  /-- The nearest count, a half counting as one; a number below zero gives zero. -/
  nearest : α → Nat

instance Coordinate.decidableLT {α : Type} [Coordinate α] (first second : α) :
    Decidable (first < second) :=
  Coordinate.decideLT first second

/-- Floating point numbers. The number that is not a number cannot be compared, and rounding stops
at the largest word. -/
instance Coordinate.float : Coordinate Float where
  decideLT := inferInstance
  ofNat := Float.ofNat
  isOrdered number := number == number
  top := 1.0 / 0.0
  bottom := -(1.0 / 0.0)
  nearest number := number.round.toUInt64.toNat

/-- Exact numbers. Each of them can be compared, and none of them exceeds all others. -/
instance Coordinate.exact : Coordinate Rat where
  decideLT := inferInstance
  ofNat count := count
  isOrdered _ := true
  top := 0
  bottom := 0
  nearest number := (number + 1 / 2).floor.toNat

namespace Coordinate

variable {α : Type} [Coordinate α]

/-- The number zero. -/
def zero : α := ofNat 0

/-- The number one. -/
def one : α := ofNat 1

/-- The number two. -/
def two : α := ofNat 2

/-- The second number if it exceeds the first, and else the first. -/
def larger (first second : α) : α := if first < second then second else first

/-- The second number if the first exceeds it, and else the first. -/
def smaller (first second : α) : α := if second < first then second else first

/-- The least of the numbers that can be compared. -/
def least (numbers : List α) : α :=
  match numbers.filter isOrdered with
  | [] => top
  | first :: rest => rest.foldl smaller first

/-- The greatest of the numbers that can be compared. -/
def greatest (numbers : List α) : α :=
  match numbers.filter isOrdered with
  | [] => bottom
  | first :: rest => rest.foldl larger first

/-- The arithmetic mean, and zero if there are no numbers. -/
def mean (numbers : List α) : α :=
  if numbers.isEmpty then zero
  else numbers.foldl (· + ·) zero / ofNat numbers.length

end Coordinate

end ExprDiagram
