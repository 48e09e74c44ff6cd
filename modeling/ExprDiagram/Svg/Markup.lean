/-
This file holds the markup that a vector drawing is written in. A drawing is a list of pieces, one
or two tags each; the characters that begin and end tags are escaped wherever text of the outside
stands between tags, so that such text can never be taken for a tag.
-/

namespace ExprDiagram

/-- A name with a value, in a tag. -/
abbrev Attribute := String × String

/-- A piece of markup. -/
inductive Markup where
  /-- The tag that opens an element which is closed by a later piece. -/
  | opening (name : String) (attributes : List Attribute)
  /-- An element without content, in a single tag. -/
  | empty (name : String) (attributes : List Attribute)
  /-- An element with text for content. -/
  | text (name : String) (attributes : List Attribute) (content : String)
  /-- The tag that closes an element. -/
  | closing (name : String)
  deriving DecidableEq

namespace Markup

/-- The escape of a character of a text. -/
def escape (character : Char) : List Char :=
  if character = '&' then ['&', 'a', 'm', 'p', ';']
  else if character = '<' then ['&', 'l', 't', ';']
  else if character = '>' then ['&', 'g', 't', ';']
  else [character]

/-- The attributes of a tag, each after a blank. -/
def writeAttributes (attributes : List Attribute) : List Char :=
  attributes.flatMap fun (name, value) => ' ' :: name.toList ++ '=' :: '"' :: value.toList ++ ['"']

/-- The text of a piece. -/
def write : Markup → List Char
  | opening name attributes => '<' :: name.toList ++ writeAttributes attributes ++ ['>']
  | empty name attributes => '<' :: name.toList ++ writeAttributes attributes ++ ['/', '>']
  | text name attributes content =>
    '<' :: name.toList ++ writeAttributes attributes ++ '>' :: content.toList.flatMap escape ++
      '<' :: '/' :: name.toList ++ ['>']
  | closing name => '<' :: '/' :: name.toList ++ ['>']

/-- The text of a list of pieces, each on a line of its own. -/
def document (pieces : List Markup) : String :=
  String.ofList (pieces.flatMap fun piece => piece.write ++ ['\n'])

end Markup

end ExprDiagram
