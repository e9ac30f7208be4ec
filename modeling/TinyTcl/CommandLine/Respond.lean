import TinyTcl.CommandLine.Folder
import TinyTcl.CommandLine.Options
import TinyTcl.Program.Outline

/-! What the program answers to a command line. It runs the script that it is given, or shows its
outline; whether the script is an argument, comes from the input or from a file makes a difference
only to the name it goes by. -/
namespace TinyTcl

/-- What the program leaves: its exit code, its output and its messages. -/
structure Outcome where
  code : Nat
  output : String
  messages : String
deriving DecidableEq, Repr

/-- Where a script comes from. -/
inductive Source where
  | argument (script : Text)
  | input
  | file (path : Text)
deriving DecidableEq, Repr

/-- The name of a script from a source. -/
def Source.name : Source → Text
  | argument _ => "<string>".toList
  | input => "<stdin>".toList
  | file path => path

/-- The source that options ask for. A script in the arguments comes first; a single dash in place
of a file is the input. -/
def Options.source (o : Options) : Source :=
  match o.script, o.program with
  | some script, _ => .argument script
  | none, none | none, some ['-'] => .input
  | none, some path => .file path

namespace Outcome

/-- The outcome of a command line that is refused. -/
def ofUsageFault (fault : UsageFault) : Outcome :=
  ⟨2, "", usage ++ "tclscript: error: " ++ String.ofList fault.message ++ "\n"⟩

/-- The outcome for a file that cannot be read. -/
def ofFileFault (path : Text) (fault : FileFault) : Outcome :=
  ⟨1, "", "Failed to read " ++ String.ofList path ++ ": " ++ String.ofList (fault.message path) ++
    "\n"⟩

/-- A fault of the script as a message. -/
def faultLine (d : Diagnostic) : String := d.cause.kind ++ ": " ++ d.message ++ "\n"

end Outcome

/-- Shows the outline of a script. -/
def Options.outline (o : Options) (reader : Reader) : Outcome :=
  let log := Event.lines o.detail reader.program.notes
  match reader.commands with
  | .ok commands => ⟨0, String.ofList (TinyTcl.outline commands) ++ "\n", log⟩
  | .error d => ⟨1, "", log ++ Outcome.faultLine d⟩

/-- Runs a script in a scope of its own. Its output is shown also if it fails; the value of its last
command follows if it has a text. -/
def Options.run (o : Options) (reader : Reader) : Except Failure Outcome :=
  let turn := reader.runScript o.trace
  let output := String.ofList turn.interpreter.output
  let log := Event.lines o.detail turn.log
  match turn.outcome with
  | .ok value =>
    let result := if value.text.isEmpty then "" else String.ofList value.text ++ "\n"
    .ok ⟨0, output ++ result, log⟩
  | .error (.diagnostic d) => .ok ⟨1, output, log ++ Outcome.faultLine d⟩
  | .error failure => .error failure

/-- Does with a script what options ask for. -/
def Options.apply (o : Options) (script : Text) : Except Failure Outcome :=
  let reader := Reader.ofText script (some o.source.name) .start
  if o.ast then .ok (o.outline reader) else o.run reader

/-- Answers a command line, given the input and a way to read files (`main`). -/
def respond (arguments : List Text) (file : Text → Except FileFault Text) (input : Text) :
    Except Failure Outcome :=
  match Options.ofTexts arguments with
  | .error fault => .ok (.ofUsageFault fault)
  | .ok .help => .ok ⟨0, help, ""⟩
  | .ok (.run o) =>
    match o.source with
    | .argument script => o.apply script
    | .input => o.apply input.unifyLineEnds
    | .file path =>
      match file path with
      | .ok content => o.apply content.unifyLineEnds
      | .error .nullCharacter => .error (.unreadable path .nullCharacter)
      | .error fault => .ok (.ofFileFault path fault)

end TinyTcl
