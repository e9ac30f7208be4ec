import TinyTcl.CommandLine.Respond

/-! The program: it reads what the command line asks for, and prints the answer. -/
open TinyTcl

namespace TinyTcl.Main

/-- All that is left on a stream. -/
partial def readAll (stream : IO.FS.Stream) (soFar : String) : IO String := do
  let line ← stream.getLine
  if line.isEmpty then return soFar else readAll stream (soFar ++ line)

/-- Reads a file. -/
def readFile (path : Text) : IO (Except FileFault Text) := do
  try
    return .ok (← IO.FS.readFile (String.ofList path)).toList
  catch
    | .noFileOrDirectory .. => return .error .missing
    | .inappropriateType .. => return .error .directory
    | fault => throw fault

end TinyTcl.Main

/-- Answers the command line. -/
def main (arguments : List String) : IO UInt32 := do
  let arguments := arguments.map String.toList
  let mut content : Except FileFault Text := .error .missing
  let mut input := []
  match Options.ofTexts arguments with
  | .ok (.run o) =>
    match o.source with
    | .input => input := (← Main.readAll (← IO.getStdin) "").toList
    | .file path => content ← Main.readFile path
    | .argument _ => pure ()
  | _ => pure ()
  match respond arguments (fun _ => content) input with
  | .ok outcome =>
    IO.print outcome.output
    IO.eprint outcome.messages
    return UInt32.ofNat outcome.code
  | .error failure =>
    IO.eprintln failure.message
    return 1
