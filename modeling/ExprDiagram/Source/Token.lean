/-
This file holds the tokens of the expression notation and the way a text is cut into them. A text
consists of parentheses, words and blanks; a word is as long as it can be, so two words always have
a blank or a parenthesis between them. Cutting never fails: a character that is neither a blank nor
a parenthesis belongs to the word around it.
-/

namespace ExprDiagram

/-! ### Tokens -/

/-- A parenthesis or a word. A word that consists of decimal digits alone is a number, every other
word is an identifier; tokens that are written by hand may break this rule. -/
inductive Token where
  | openParen
  | closeParen
  | identifier (text : String)
  | number (text : String)
  deriving DecidableEq

namespace Token

/-- The text of a word. A number may stand wherever an identifier may, so readers ask for a word
rather than for an identifier. -/
def word? : Token → Option String
  | identifier text => some text
  | number text => some text
  | openParen => none
  | closeParen => none

/-- Whether the token is a number. -/
def isNumber : Token → Bool
  | number _ => true
  | _ => false

/-- The token as it stands in a text. -/
def text : Token → String
  | openParen => "("
  | closeParen => ")"
  | identifier text => text
  | number text => text

/-- The token of a word. -/
def ofWord (word : List Char) : Token :=
  if word.all Char.isDigit then number (String.ofList word) else identifier (String.ofList word)

end Token

/-! ### Cutting a text -/

/-- The six characters that separate words: space, tab, line feed, carriage return, vertical tab
and form feed. No other character does, whatever its class in Unicode. -/
def isBlank (character : Char) : Bool :=
  character = ' ' || character = '\t' || character = '\n' || character = '\r' ||
    character = '\x0b' || character = '\x0c'

/-- Whether a character can stand in a word. -/
def isWordCharacter (character : Char) : Bool :=
  !(isBlank character || character = '(' || character = ')')

/-- Cuts a text into its tokens, from left to right. -/
def cut : List Char → List Token
  | [] => []
  | first :: rest =>
    if isBlank first then cut rest
    else if first = '(' then .openParen :: cut rest
    else if first = ')' then .closeParen :: cut rest
    else
      Token.ofWord (first :: rest.takeWhile isWordCharacter) :: cut (rest.dropWhile isWordCharacter)
termination_by text => text.length
decreasing_by
  · exact Nat.lt_succ_self _
  · exact Nat.lt_succ_self _
  · exact Nat.lt_succ_self _
  · exact Nat.lt_succ_of_le (List.dropWhile_sublist _).length_le

/-- The tokens of a text. -/
def tokenize (source : String) : List Token :=
  cut source.toList

end ExprDiagram
