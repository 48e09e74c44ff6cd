/-
This file says what the program does with its arguments, its standard input and its files. The text
is read as a whole, drawn as a whole and written as a whole, in this order, and the first step that
fails ends the run; so nothing is written unless everything before has succeeded.
-/

import ExprDiagram.CommandLine.Files
import ExprDiagram.CommandLine.Options
import ExprDiagram.Journal
import ExprDiagram.Render.Output

namespace ExprDiagram

/-- What a run leaves behind, apart from files. -/
structure Outcome where
  code : Nat
  stdout : String
  /-- The lines of the standard error. -/
  stderr : List String
  deriving DecidableEq

namespace Outcome

/-- A run that ends well. -/
def success (stdout : String) (stderr : List String) : Outcome := ⟨0, stdout, stderr⟩

/-- A run that fails, where notes may have been taken before. -/
def failure (notes : List String) (complaint : String) : Outcome :=
  ⟨1, "", notes ++ ("error: " ++ complaint).splitOn "\n"⟩

/-- A run whose arguments are not accepted. -/
def rejection (cause : Rejection) : Outcome := ⟨2, "", ["error: " ++ cause.message]⟩

end Outcome

/-- A line about something that happened. -/
def note (severity text : String) : String := s!"[{severity}] {text}"

/-- The lines about the events of drawing a text. Warnings are always given, and movements never. -/
def notes (verbose : Bool) (source : String) : List String :=
  let events : List (Event Float) := journal source
  let shown := events.filter fun event =>
    event.severity = .warning ∨ (verbose ∧ event.severity = .detail)
  shown.map fun event => note event.severity.text event.message

/-- The usage of the program. -/
def usage : String :=
  "Draws an expression program as a tidy tree, as JSON records, SVG or text.\n\n" ++
    "Usage: [OPTIONS] [INPUT]\n\n" ++
    "  -f, --format <FORMAT>  json, svg or ascii\n" ++
    "  -a, --ascii            plain characters in text output\n" ++
    "  -o, --output <FILE>    write to a file\n" ++
    "  -v, --verbose          tell what happens\n" ++
    "  -h, --help             this text\n" ++
    "  -V, --version          the version\n"

/-- The version of the program. -/
def version : String := "0.1.0\n"

variable {m : Type → Type} [Monad m]

/-- The text of a byte sequence, or the complaint that there is none. -/
def decodeText (bytes : ByteArray) : Except String String :=
  match String.fromUTF8? bytes with
  | some text => .ok text
  | none => .error "stream did not contain valid UTF-8"

/-- The text to draw, or the complaint that it cannot be read. -/
def readSource (files : FileAccess m) (stdin : m ByteArray) (input : Option String) :
    m (Except String String) := do
  match input with
  | some path =>
    let contents := (← files.read path).mapError FileError.message
    return (contents.bind decodeText).mapError fun cause => s!"cannot read '{path}': {cause}"
  | none =>
    return (decodeText (← stdin)).mapError fun cause => s!"cannot read stdin: {cause}"

/-- Writes a drawing to where it belongs. -/
def deliver (files : FileAccess m) (output : Option String) (verbose : Bool)
    (format : OutputFormat) (drawing : String) (notes : List String) : m Outcome := do
  match output with
  | none => return .success drawing notes
  | some path =>
    match ← files.write path drawing.toUTF8 with
    | .error error => return .failure notes s!"cannot write '{path}': {error.message}"
    | .ok () =>
      let last := if verbose then [note "INFO" s!"wrote {format.name} output to '{path}'"] else []
      return .success "" (notes ++ last)

/-- Does what the options ask for. -/
def Options.run (files : FileAccess m) (stdin : m ByteArray) (options : Options) : m Outcome := do
  match ← readSource files stdin options.input with
  | .error complaint => return .failure [] complaint
  | .ok source =>
    let size := source.utf8ByteSize
    let first := if options.verbose then [note "DEBUG" s!"read {size} bytes of input"] else []
    let notes := first ++ notes options.verbose source
    match renderSource options.config source with
    | .error error => return .failure notes error.message
    | .ok drawing =>
      deliver files options.output options.verbose options.config.format drawing notes

/-- Does what the arguments ask for. -/
def run (files : FileAccess m) (stdin : m ByteArray) (arguments : List String) : m Outcome :=
  match Options.parse arguments with
  | .error .help => return .success usage []
  | .error .version => return .success version []
  | .error (.rejected cause) => return .rejection cause
  | .ok options => options.run files stdin

/-- Does what the arguments ask for in a directory, and gives the directory afterwards. -/
def runIn (directory : Directory) (stdin : ByteArray) (arguments : List String) :
    Outcome × Directory :=
  (run Directory.access (pure stdin) arguments).run directory

end ExprDiagram
