/-
This file runs the program on the files, the standard input and the standard output of the system.
-/

import ExprDiagram.CommandLine.Run

namespace ExprDiagram

/-- The number of an error of the system. Some of its calls give the number negated. -/
def systemErrorNumber (code : UInt32) : Nat :=
  if code < 0x80000000 then code.toNat else (0 - code).toNat

/-- The reason for which the system refuses a file. -/
def FileError.ofSystem (error : IO.Error) : FileError :=
  match error with
  | .noFileOrDirectory .. => .notFound
  | .permissionDenied _ code _ | .inappropriateType _ code _ | .invalidArgument _ code _ =>
    match systemErrorNumber code with
    | 13 => .other "Permission denied (os error 13)"
    | 20 => .notDirectory
    | 21 => .isDirectory
    | 36 => .nameTooLong
    | _ => .other error.toString
  | _ => .other error.toString

/-- Access to the files of the system. -/
def systemFiles : FileAccess IO where
  read path := do
    match ← (IO.FS.readBinFile path).toBaseIO with
    | .ok contents => return .ok contents
    | .error error => return .error (.ofSystem error)
  write path contents := do
    match ← (IO.FS.writeBinFile path contents).toBaseIO with
    | .ok () => return .ok ()
    | .error error => return .error (.ofSystem error)

/-- Everything that is left to read from a stream, after the given bytes. -/
partial def readAll (stream : IO.FS.Stream) (bytes : ByteArray) : IO ByteArray := do
  let more ← stream.read 65536
  if more.isEmpty then return bytes else readAll stream (bytes ++ more)

end ExprDiagram

open ExprDiagram in
/-- Runs the program. -/
def main (arguments : List String) : IO UInt32 := do
  let stdin := do readAll (← IO.getStdin) .empty
  let outcome ← run systemFiles stdin arguments
  for line in outcome.stderr do
    (← IO.getStderr).putStrLn line
  let stdout ← IO.getStdout
  stdout.putStr outcome.stdout
  stdout.flush
  return outcome.code.toUInt32
