/-
This file holds the characters that lines are drawn with. A cell of the drawing through which lines
run is a junction: it has an arm toward each side on which a line goes on. Lines that meet in a cell
merge their arms, and the character of the cell shows the merged junction. There are two sets of
characters. The box set has one for each way in which two or more arms can meet; the plain set shows
straight lines and draws everything else as a plus sign.
-/

namespace ExprDiagram

/-! ### Sets of characters -/

/-- A set of characters to draw with. -/
inductive CharSet where
  | box
  | plain
  deriving DecidableEq

/-- The box set if Unicode may be used, and else the plain one. -/
def CharSet.ofUnicode (unicode : Bool) : CharSet := if unicode then box else plain

/-- The characters of a set. -/
structure LineChars where
  horizontal : Char
  vertical : Char
  downRight : Char
  downLeft : Char
  upRight : Char
  upLeft : Char
  teeRight : Char
  teeLeft : Char
  teeDown : Char
  teeUp : Char
  cross : Char
  arrowDown : Char
  /-- What stands before the label of a defined name. -/
  nameOpen : Char
  /-- What stands after the label of a defined name. -/
  nameClose : Char
  deriving DecidableEq

namespace LineChars

/-- The box set. -/
def box : LineChars where
  horizontal := '─'
  vertical := '│'
  downRight := '┌'
  downLeft := '┐'
  upRight := '└'
  upLeft := '┘'
  teeRight := '├'
  teeLeft := '┤'
  teeDown := '┬'
  teeUp := '┴'
  cross := '┼'
  arrowDown := '▼'
  nameOpen := '⟨'
  nameClose := '⟩'

/-- The plain set. -/
def plain : LineChars where
  horizontal := '-'
  vertical := '|'
  downRight := '+'
  downLeft := '+'
  upRight := '+'
  upLeft := '+'
  teeRight := '+'
  teeLeft := '+'
  teeDown := '+'
  teeUp := '+'
  cross := '+'
  arrowDown := 'v'
  nameOpen := '['
  nameClose := ']'

/-- All characters of a set, in the order of their names above. -/
def toList (chars : LineChars) : List Char :=
  [chars.horizontal, chars.vertical, chars.downRight, chars.downLeft, chars.upRight, chars.upLeft,
    chars.teeRight, chars.teeLeft, chars.teeDown, chars.teeUp, chars.cross, chars.arrowDown,
    chars.nameOpen, chars.nameClose]

end LineChars

/-- The characters that a set stands for. -/
def CharSet.chars : CharSet → LineChars
  | box => .box
  | plain => .plain

/-! ### Junctions -/

/-- The sides on which lines leave a cell. -/
structure Junction where
  up : Bool
  down : Bool
  left : Bool
  right : Bool
  deriving DecidableEq

namespace Junction

/-- No line at all. -/
def empty : Junction := ⟨false, false, false, false⟩

/-- A vertical line. -/
def vertical : Junction := ⟨true, true, false, false⟩

/-- A horizontal line. -/
def horizontal : Junction := ⟨false, false, true, true⟩

/-- A horizontal arm toward something at the given distance, counted to the right; no arm if the
distance is zero. -/
def toward (distance : Int) : Junction := ⟨false, false, distance < 0, 0 < distance⟩

/-- The arms of two junctions. -/
def merge (first second : Junction) : Junction :=
  ⟨first.up || second.up, first.down || second.down, first.left || second.left,
    first.right || second.right⟩

/-- The junction that a character shows, if it shows one. A plus sign shows all arms: in the plain
set it can only be merged into a plus sign. -/
def ofChar? (character : Char) : Option Junction :=
  match character with
  | '─' | '-' => some horizontal
  | '│' | '|' => some vertical
  | '┌' => some ⟨false, true, false, true⟩
  | '┐' => some ⟨false, true, true, false⟩
  | '└' => some ⟨true, false, false, true⟩
  | '┘' => some ⟨true, false, true, false⟩
  | '├' => some ⟨true, true, false, true⟩
  | '┤' => some ⟨true, true, true, false⟩
  | '┬' => some ⟨false, true, true, true⟩
  | '┴' => some ⟨true, false, true, true⟩
  | '┼' | '+' => some ⟨true, true, true, true⟩
  | _ => none

/-- The character that shows a junction. A single arm is shown as a whole line. -/
def toChar (set : CharSet) : Junction → Char
  | ⟨false, false, false, false⟩ => ' '
  | ⟨false, false, true, true⟩ => set.chars.horizontal
  | ⟨true, true, false, false⟩ => set.chars.vertical
  | ⟨false, true, false, true⟩ => set.chars.downRight
  | ⟨false, true, true, false⟩ => set.chars.downLeft
  | ⟨true, false, false, true⟩ => set.chars.upRight
  | ⟨true, false, true, false⟩ => set.chars.upLeft
  | ⟨true, true, false, true⟩ => set.chars.teeRight
  | ⟨true, true, true, false⟩ => set.chars.teeLeft
  | ⟨false, true, true, true⟩ => set.chars.teeDown
  | ⟨true, false, true, true⟩ => set.chars.teeUp
  | ⟨true, true, true, true⟩ => set.chars.cross
  | ⟨true, false, false, false⟩ => set.chars.vertical
  | ⟨false, true, false, false⟩ => set.chars.vertical
  | ⟨false, false, true, false⟩ => set.chars.horizontal
  | ⟨false, false, false, true⟩ => set.chars.horizontal

end Junction

end ExprDiagram
