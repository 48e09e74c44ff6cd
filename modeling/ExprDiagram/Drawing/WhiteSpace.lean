/-
This file holds the white space characters of Unicode. They are removed from the ends of lines.
-/

namespace ExprDiagram

/-- The code points with the Unicode property White_Space, as ranges with both ends. -/
def whiteSpaceRanges : List (Nat × Nat) := [
  (0x0009, 0x000d), (0x0020, 0x0020), (0x0085, 0x0085), (0x00a0, 0x00a0), (0x1680, 0x1680),
  (0x2000, 0x200a), (0x2028, 0x2029), (0x202f, 0x202f), (0x205f, 0x205f), (0x3000, 0x3000)]

/-- Whether a character is white space in Unicode. -/
def isWhiteSpace (character : Char) : Bool :=
  whiteSpaceRanges.any fun (first, last) =>
    first ≤ character.toNat && character.toNat ≤ last

/-- There are twenty-five such characters. -/
example :
    whiteSpaceRanges.foldl (fun count (first, last) => count + (last + 1 - first)) 0 = 25 := rfl

/-- A line without the white space at its end. -/
def trimLine (line : List Char) : List Char :=
  (line.reverse.dropWhile isWhiteSpace).reverse

end ExprDiagram
