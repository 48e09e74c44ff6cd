/-
This file reads the arguments of the command line. Arguments are taken one at a time. Options have a
short and a long name; short options may be written in one argument, and the value of an option may
be attached to it or follow it. Each option may be given once. The text to draw may be named by one
argument that is no option; after two hyphens no argument is an option.
-/

import ExprDiagram.Render.Config

namespace ExprDiagram

/-- What the command line asks for, where nothing is entered for what was not given. -/
structure Options where
  /-- The file to read; the standard input if there is none. -/
  input : Option String := none
  format : Option OutputFormat := none
  /-- Whether drawings with characters use the plain set. -/
  ascii : Bool := false
  /-- The file to write; the standard output if there is none. -/
  output : Option String := none
  verbose : Bool := false

/-- The settings for output that the options stand for. -/
def Options.config (options : Options) : RenderConfig :=
  { RenderConfig.default with
    format := options.format.getD .json
    unicode := !options.ascii }

/-- Why arguments are not accepted. -/
inductive Rejection where
  | unknownOption (argument : String)
  | missingValue (option : String)
  | unwantedValue (option : String)
  | repeatedOption (option : String)
  | extraArgument (argument : String)
  | invalidValue (cause : String)
  deriving DecidableEq

/-- The wording of each rejection. -/
def Rejection.message : Rejection → String
  | unknownOption argument => s!"unexpected argument '{argument}' found"
  | missingValue option => s!"a value is required for '{option}' but none was supplied"
  | unwantedValue option => s!"the option '{option}' takes no value"
  | repeatedOption option => s!"the option '{option}' cannot be used multiple times"
  | extraArgument argument => s!"unexpected argument '{argument}' found"
  | invalidValue cause => cause

/-- Why the reading of arguments ends before the last of them. -/
inductive Stop where
  | help
  | version
  | rejected (cause : Rejection)
  deriving DecidableEq

/-- An option with a value. -/
inductive ValueOption where
  | format
  | output
  deriving DecidableEq

/-- The long name of an option with a value. -/
def ValueOption.name : ValueOption → String
  | format => "--format"
  | output => "--output"

/-- How far the arguments have been read. -/
structure ArgumentReader where
  options : Options := {}
  /-- The option whose value has to follow. -/
  pending : Option ValueOption := none
  /-- Whether the two hyphens have been met. -/
  onlyNames : Bool := false

namespace ArgumentReader

/-- Enters the value of an option. -/
def give (reader : ArgumentReader) (option : ValueOption) (value : String) :
    Except Stop ArgumentReader :=
  match option with
  | .format =>
    match OutputFormat.parse value with
    | .error cause => .error (.rejected (.invalidValue cause))
    | .ok format =>
      if reader.options.format.isSome then .error (.rejected (.repeatedOption option.name))
      else .ok { reader with options.format := some format, pending := none }
  | .output =>
    if reader.options.output.isSome then .error (.rejected (.repeatedOption option.name))
    else .ok { reader with options.output := some value, pending := none }

/-- Turns the plain set on. -/
def giveAscii (reader : ArgumentReader) : Except Stop ArgumentReader :=
  if reader.options.ascii then .error (.rejected (.repeatedOption "--ascii"))
  else .ok { reader with options.ascii := true }

/-- Turns messages about the process on. -/
def giveVerbose (reader : ArgumentReader) : Except Stop ArgumentReader :=
  if reader.options.verbose then .error (.rejected (.repeatedOption "--verbose"))
  else .ok { reader with options.verbose := true }

/-- Enters the name of the file to read. -/
def giveInput (reader : ArgumentReader) (name : String) : Except Stop ArgumentReader :=
  if reader.options.input.isSome then .error (.rejected (.extraArgument name))
  else .ok { reader with options.input := some name }

/-- Takes an option with the value that is attached to it, if there is one. -/
def takeValued (reader : ArgumentReader) (option : ValueOption) (attached : Option String) :
    Except Stop ArgumentReader :=
  match attached with
  | some value => reader.give option value
  | none => .ok { reader with pending := some option }

/-- The value in what follows a short option in its argument. An equals sign before it is no part of
the value. -/
def attachedValue : List Char → Option String
  | [] => none
  | '=' :: value => some (String.ofList value)
  | value => some (String.ofList value)

/-- Takes the short options of one argument. -/
def takeShort (reader : ArgumentReader) : List Char → Except Stop ArgumentReader
  | [] => .ok reader
  | letter :: rest =>
    match letter with
    | 'a' => do (← reader.giveAscii).takeShort rest
    | 'v' => do (← reader.giveVerbose).takeShort rest
    | 'f' => reader.takeValued .format (attachedValue rest)
    | 'o' => reader.takeValued .output (attachedValue rest)
    | 'h' => .error .help
    | 'V' => .error .version
    | _ => .error (.rejected (.unknownOption (String.ofList ['-', letter])))

/-- Takes a flag, to which no value may be attached. -/
def takeFlag (name : String) (attached : Option String) (flag : Except Stop ArgumentReader) :
    Except Stop ArgumentReader :=
  if attached.isSome then .error (.rejected (.unwantedValue ("--" ++ name))) else flag

/-- Takes a long option with the value that is attached to it, if there is one. -/
def takeLong (reader : ArgumentReader) (name : String) (attached : Option String) :
    Except Stop ArgumentReader :=
  match name with
  | "format" => reader.takeValued .format attached
  | "output" => reader.takeValued .output attached
  | "ascii" => takeFlag name attached reader.giveAscii
  | "verbose" => takeFlag name attached reader.giveVerbose
  | "help" => takeFlag name attached (.error .help)
  | "version" => takeFlag name attached (.error .version)
  | _ => .error (.rejected (.unknownOption ("--" ++ name)))

/-- The name of a long option and the value behind its first equals sign. -/
def splitLong (body : List Char) : String × Option String :=
  let isName := fun (character : Char) => character != '='
  match body.dropWhile isName with
  | [] => (String.ofList body, none)
  | _ :: value => (String.ofList (body.takeWhile isName), some (String.ofList value))

/-- The ways in which an argument can be written. -/
inductive Spelling where
  /-- Two hyphens alone. -/
  | separator
  /-- A long option without its hyphens. -/
  | long (body : List Char)
  /-- Short options without their hyphen. -/
  | short (letters : List Char)
  /-- Anything else, a hyphen alone among it. -/
  | plain

/-- The way in which an argument is written. -/
def spelling (argument : String) : Spelling :=
  match argument.toList with
  | ['-', '-'] => .separator
  | '-' :: '-' :: body => .long body
  | ['-'] => .plain
  | '-' :: letters => .short letters
  | _ => .plain

/-- Takes one argument. Where a value has to follow, nothing that is written as an option can be
it. -/
def take (reader : ArgumentReader) (argument : String) : Except Stop ArgumentReader :=
  if reader.onlyNames then reader.giveInput argument
  else
    match reader.pending, spelling argument with
    | some option, .plain => reader.give option argument
    | some option, _ => .error (.rejected (.missingValue option.name))
    | none, .plain => reader.giveInput argument
    | none, .separator => .ok { reader with onlyNames := true }
    | none, .short letters => reader.takeShort letters
    | none, .long body =>
      let (name, attached) := splitLong body
      reader.takeLong name attached

/-- The options, if no value is missing at the end. -/
def finish (reader : ArgumentReader) : Except Stop Options :=
  match reader.pending with
  | none => .ok reader.options
  | some option => .error (.rejected (.missingValue option.name))

end ArgumentReader

/-- The options that the arguments stand for. -/
def Options.parse (arguments : List String) : Except Stop Options := do
  (← arguments.foldlM ArgumentReader.take {}).finish

end ExprDiagram
