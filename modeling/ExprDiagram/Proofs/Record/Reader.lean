/-
This file holds a reader for JSON texts of any origin, as the standard for them has it. The characters
are gathered to tokens first: marks, texts in quotes, and bare words and numbers, with blanks between
them. The tokens are then put together to a value, with a stack of the arrays and objects that have
begun and not ended. A number is kept as its literal, so that nothing depends on how it is rounded.
-/

import ExprDiagram.Record.Layout

namespace ExprDiagram

/-- A value that a JSON text stands for. The fields of an object keep their order. -/
inductive JsonValue where
  | null
  | boolean (value : Bool)
  | number (literal : String)
  | string (text : String)
  | array (items : List JsonValue)
  | object (fields : List (String × JsonValue))

/-- A token of a JSON text. -/
inductive JsonToken where
  | openArray
  | closeArray
  | openObject
  | closeObject
  | colon
  | comma
  | string (text : String)
  /-- What is written without quotes and marks: a number or one of the three words. -/
  | bare (value : JsonValue)

namespace JsonToken

/-! ### Numbers -/

/-- Digits in front of a point. They begin with a zero only if that is all. -/
def isWhole : List Char → Bool
  | [] => false
  | '0' :: rest => rest.isEmpty
  | digits => digits.all Char.isDigit

/-- One digit or more. -/
def isDigits (digits : List Char) : Bool := !digits.isEmpty && digits.all Char.isDigit

/-- Nothing, or an exponent with or without a sign. -/
def isExponent : List Char → Bool
  | [] => true
  | letter :: '+' :: digits => (letter == 'e' || letter == 'E') && isDigits digits
  | letter :: '-' :: digits => (letter == 'e' || letter == 'E') && isDigits digits
  | letter :: digits => (letter == 'e' || letter == 'E') && isDigits digits

/-- What may follow the digits in front of a point. -/
def isFraction : List Char → Bool
  | '.' :: rest =>
    !(rest.takeWhile Char.isDigit).isEmpty && isExponent (rest.dropWhile Char.isDigit)
  | rest => isExponent rest

/-- What may follow the sign of a number. -/
def isUnsigned (text : List Char) : Bool :=
  isWhole (text.takeWhile Char.isDigit) && isFraction (text.dropWhile Char.isDigit)

/-- Whether a text is a number. -/
def isNumeral : List Char → Bool
  | '-' :: rest => isUnsigned rest
  | text => isUnsigned text

/-- What a text without quotes and marks stands for. -/
def bareValue? (text : List Char) : Option JsonValue :=
  if text = ['n', 'u', 'l', 'l'] then some .null
  else if text = ['t', 'r', 'u', 'e'] then some (.boolean true)
  else if text = ['f', 'a', 'l', 's', 'e'] then some (.boolean false)
  else if isNumeral text then some (.number (String.ofList text))
  else none

/-! ### Texts in quotes -/

/-- The value of a hexadecimal digit. -/
def hexDigit? (digit : Char) : Option Nat :=
  if digit.isDigit then some (digit.toNat - '0'.toNat)
  else if 'a' ≤ digit ∧ digit ≤ 'f' then some (digit.toNat - 'a'.toNat + 10)
  else if 'A' ≤ digit ∧ digit ≤ 'F' then some (digit.toNat - 'A'.toNat + 10)
  else none

/-- The number that four hexadecimal digits stand for. -/
def codeUnit? (first second third fourth : Char) : Option Nat := do
  return (((← hexDigit? first) * 16 + (← hexDigit? second)) * 16 + (← hexDigit? third)) * 16 +
    (← hexDigit? fourth)

/-- The character that is escaped with one letter or mark. -/
def letterEscape? : Char → Option Char
  | '"' => some '"'
  | '\\' => some '\\'
  | '/' => some '/'
  | 'b' => some '\x08'
  | 'f' => some '\x0c'
  | 'n' => some '\n'
  | 'r' => some '\r'
  | 't' => some '\t'
  | _ => none

/-- The text that stands between quotes. A character outside the range of four hexadecimal digits is
escaped by two numbers, one from each of two ranges that are kept for this. Control characters may not
stand for themselves. -/
def unescape : List Char → Option (List Char)
  | [] => some []
  | '\\' :: 'u' :: first :: second :: third :: fourth :: rest => do
    let unit ← codeUnit? first second third fourth
    if 0xdc00 ≤ unit ∧ unit < 0xe000 then none
    else if 0xd800 ≤ unit ∧ unit < 0xdc00 then
      match rest with
      | '\\' :: 'u' :: first :: second :: third :: fourth :: rest => do
        let low ← codeUnit? first second third fourth
        if 0xdc00 ≤ low ∧ low < 0xe000 then
          return .ofNat (0x10000 + (unit - 0xd800) * 0x400 + (low - 0xdc00)) :: (← unescape rest)
        else none
      | _ => none
    else return .ofNat unit :: (← unescape rest)
  | '\\' :: letter :: rest => do return (← letterEscape? letter) :: (← unescape rest)
  | character :: rest =>
    if character = '\\' ∨ character = '"' ∨ character.toNat < 32 then none
    else do return character :: (← unescape rest)

end JsonToken

/-! ### Tokens -/

/-- What a reader of characters is in the middle of. -/
inductive JsonMode where
  /-- A word or a number, or nothing when there are no characters yet. -/
  | bare (text : List Char)
  /-- A text in quotes. -/
  | quoted (text : List Char)
  /-- A text in quotes, right behind a backslash. -/
  | escaped (text : List Char)

/-- A reader of characters: the tokens it has found, and what it is in the middle of. -/
structure JsonScanner where
  tokens : List JsonToken
  mode : JsonMode

namespace JsonScanner

open JsonToken

/-- White space between tokens. -/
def isBlank (character : Char) : Bool :=
  character == ' ' || character == '\t' || character == '\n' || character == '\r'

/-- The token that is a mark. -/
def mark? : Char → Option JsonToken
  | '[' => some .openArray
  | ']' => some .closeArray
  | '\x7b' => some .openObject
  | '\x7d' => some .closeObject
  | ':' => some .colon
  | ',' => some .comma
  | _ => none

/-- Ends a word or a number. -/
def finish (tokens : List JsonToken) (text : List Char) : Option (List JsonToken) :=
  if text.isEmpty then some tokens
  else do return tokens ++ [.bare (← bareValue? text)]

/-- Takes a character. -/
def take (scanner : JsonScanner) (character : Char) : Option JsonScanner :=
  match scanner.mode with
  | .bare text =>
    if isBlank character then do return ⟨← finish scanner.tokens text, .bare []⟩
    else if character = '"' then do return ⟨← finish scanner.tokens text, .quoted []⟩
    else match mark? character with
      | some token => do return ⟨(← finish scanner.tokens text) ++ [token], .bare []⟩
      | none => some { scanner with mode := .bare (text ++ [character]) }
  | .quoted text =>
    if character = '"' then do
      return ⟨scanner.tokens ++ [.string (String.ofList (← unescape text))], .bare []⟩
    else if character = '\\' then some { scanner with mode := .escaped (text ++ [character]) }
    else some { scanner with mode := .quoted (text ++ [character]) }
  | .escaped text => some { scanner with mode := .quoted (text ++ [character]) }

/-- The tokens of a text. -/
def tokens? (text : List Char) : Option (List JsonToken) := do
  let last ← text.foldlM take ⟨[], .bare []⟩
  match last.mode with
  | .bare text => finish last.tokens text
  | _ => none

end JsonScanner

/-! ### Values -/

/-- An array or an object that has begun, with what has been read of it. A value is to come next. -/
inductive JsonFrame where
  | items (before : List JsonValue)
  | fields (before : List (String × JsonValue)) (key : String)

/-- What may come next. -/
inductive JsonStage where
  | value
  /-- The first item of an array, or its end. -/
  | firstItem
  /-- A comma or the end of an array. -/
  | afterItem (items : List JsonValue)
  /-- The first key of an object, or its end. -/
  | firstField
  | key (before : List (String × JsonValue))
  | colon (before : List (String × JsonValue)) (key : String)
  /-- A comma or the end of an object. -/
  | afterField (fields : List (String × JsonValue))
  /-- Nothing, as the value is complete. -/
  | done (value : JsonValue)

/-- A reader of tokens, inside the arrays and objects of a stack. -/
structure JsonParser where
  around : List JsonFrame
  stage : JsonStage

namespace JsonParser

/-- Hands over a complete value. -/
def deliver (value : JsonValue) : List JsonFrame → JsonParser
  | [] => ⟨[], .done value⟩
  | .items before :: around => ⟨around, .afterItem (before ++ [value])⟩
  | .fields before key :: around => ⟨around, .afterField (before ++ [(key, value)])⟩

/-- Takes the first token of a value. -/
def begin? (around : List JsonFrame) : JsonToken → Option JsonParser
  | .bare value => some (deliver value around)
  | .string text => some (deliver (.string text) around)
  | .openArray => some ⟨around, .firstItem⟩
  | .openObject => some ⟨around, .firstField⟩
  | _ => none

/-- Takes a token. -/
def take (parser : JsonParser) (token : JsonToken) : Option JsonParser :=
  match parser.stage, token with
  | .value, token => begin? parser.around token
  | .firstItem, .closeArray => some (deliver (.array []) parser.around)
  | .firstItem, token => begin? (.items [] :: parser.around) token
  | .afterItem items, .comma => some ⟨.items items :: parser.around, .value⟩
  | .afterItem items, .closeArray => some (deliver (.array items) parser.around)
  | .firstField, .closeObject => some (deliver (.object []) parser.around)
  | .firstField, .string key => some ⟨parser.around, .colon [] key⟩
  | .key before, .string key => some ⟨parser.around, .colon before key⟩
  | .colon before key, .colon => some ⟨.fields before key :: parser.around, .value⟩
  | .afterField fields, .comma => some ⟨parser.around, .key fields⟩
  | .afterField fields, .closeObject => some (deliver (.object fields) parser.around)
  | _, _ => none

end JsonParser

/-- The value that a JSON text stands for. -/
def JsonValue.read? (text : String) : Option JsonValue := do
  let tokens ← JsonScanner.tokens? text.toList
  let last ← tokens.foldlM JsonParser.take ⟨[], .value⟩
  match last.stage with
  | .done value => some value
  | _ => none

/-- Blanks, words, numbers and escapes, one of them for a character in two parts. -/
example : JsonValue.read? " \x7b\"a\\u0041\": [true , -1.50e+3, \"\\ud83d\\ude00\\/\"]\x7d\n" =
    some (.object [("aA", .array [.boolean true, .number "-1.50e+3", .string "😀/"])]) := by
  cbv

/-- What the standard refuses. -/
example : ["01", "1.", "[1,]", "[1 2]", "\"\\ud83d\"", "\"\n\"", "\x7b\"a\":1,\x7d", "nul", "1 2"].all
    (fun text => (JsonValue.read? text).isNone) := by
  decide +kernel

end ExprDiagram
