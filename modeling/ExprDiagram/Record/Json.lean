/-
This file holds JSON values and writes them. A number is held as its literal, since what a number
means and how many digits it gets is up to whoever makes the value. There are two ways of spacing
the same text: on one line without blanks, and with every entry on a line of its own.
-/

namespace ExprDiagram

/-- A JSON value. -/
inductive Json where
  | null
  | number (literal : String)
  | string (text : String)
  | array (items : List Json)
  | object (fields : List (String × Json))

namespace Json

/-- A count as a number. -/
def ofNat (count : Nat) : Json := number count.repr

/-! ### Strings -/

/-- The escape of a character in a string. Quotes, backslashes and control characters are escaped,
with one letter where there is one, and all other characters stand for themselves. -/
def escape (character : Char) : List Char :=
  if character = '"' then ['\\', '"']
  else if character = '\\' then ['\\', '\\']
  else if character = '\x08' then ['\\', 'b']
  else if character = '\x0c' then ['\\', 'f']
  else if character = '\n' then ['\\', 'n']
  else if character = '\r' then ['\\', 'r']
  else if character = '\t' then ['\\', 't']
  else if character.toNat < 32 then
    let code := character.toNat
    ['\\', 'u', '0', '0', Nat.digitChar (code / 16), Nat.digitChar (code % 16)]
  else [character]

/-- A string in quotes. -/
def quote (text : String) : List Char :=
  '"' :: text.toList.flatMap escape ++ ['"']

/-! ### Values -/

/-- What stands between the parts of a text. -/
structure Spacing where
  /-- What stands before an entry, or a closing bracket, at a level of nesting. -/
  line : Nat → List Char
  /-- What stands between a key and its value. -/
  colon : List Char

/-- No blanks anywhere. -/
def compact : Spacing where
  line _ := []
  colon := [':']

/-- A line for each entry, indented by two blanks for each level. -/
def indented : Spacing where
  line level := '\n' :: List.replicate (2 * level) ' '
  colon := [':', ' ']

mutual
/-- The text of a value at a level of nesting. Empty lists have no line of their own inside. -/
def write (spacing : Spacing) (level : Nat) : Json → List Char
  | null => ['n', 'u', 'l', 'l']
  | number literal => literal.toList
  | string text => quote text
  | array [] => ['[', ']']
  | array (item :: rest) =>
    '[' :: writeItems spacing (level + 1) (item :: rest) ++ spacing.line level ++ [']']
  | object [] => ['\x7b', '\x7d']
  | object (field :: rest) =>
    '\x7b' :: writeFields spacing (level + 1) (field :: rest) ++ spacing.line level ++ ['\x7d']

/-- The items of an array, with commas between them. -/
def writeItems (spacing : Spacing) (level : Nat) : List Json → List Char
  | [] => []
  | [item] => spacing.line level ++ item.write spacing level
  | item :: next :: rest =>
    spacing.line level ++ item.write spacing level ++
      ',' :: writeItems spacing level (next :: rest)

/-- The fields of an object, with commas between them. -/
def writeFields (spacing : Spacing) (level : Nat) : List (String × Json) → List Char
  | [] => []
  | [(key, value)] =>
    spacing.line level ++ quote key ++ spacing.colon ++ value.write spacing level
  | (key, value) :: next :: rest =>
    spacing.line level ++ quote key ++ spacing.colon ++ value.write spacing level ++
      ',' :: writeFields spacing level (next :: rest)
end

/-- The whole text of a value. -/
def text (spacing : Spacing) (value : Json) : String :=
  String.ofList (value.write spacing 0)

end Json

end ExprDiagram
