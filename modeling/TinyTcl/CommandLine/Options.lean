import TinyTcl.CommandLine.Argument
import TinyTcl.Log

/-! What a command line asks for. Switches count in any order; of scripts given as text the last one
counts. The first operand is the program; what is left over is refused once everything else has been
read. A request for help is met as soon as it is read. -/
namespace TinyTcl

/-- What is asked for. -/
structure Options where
  /-- The name of the file that holds the script. -/
  program : Option Text := none
  /-- The script itself. -/
  script : Option Text := none
  trace : Bool := false
  ast : Bool := false
  verbosity : Nat := 0
deriving DecidableEq, Repr

/-- What the program is to do. -/
inductive Invocation where
  | help
  | run (o : Options)
deriving DecidableEq, Repr

/-- How the switches of one argument end. -/
inductive RowEnd where
  | nothing
  /-- The script is the rest of the argument. -/
  | script (t : Text)
  /-- The script is the next argument. -/
  | scriptAwaited

/-- The switches that one argument holds, without the one for the script. -/
structure Row where
  switches : List Switch
  ending : RowEnd

namespace Row

/-- The row that ends with a script in the same argument. Two dashes stand for no text. -/
def withScript (t : Text) : Row := ⟨[], .script (if t = "--".toList then [] else t)⟩

/-- A switch in its long spelling with a value behind an equals sign. -/
def assigned (s : Switch) (value : Text) : Except UsageFault Row :=
  if s = .command then .ok (withScript value) else .error (.uselessValue s value)

/-- A switch at the end of its argument. -/
def last (s : Switch) : Row := if s = .command then ⟨[], .scriptAwaited⟩ else ⟨[s], .nothing⟩

/-- The row with one more switch in front. -/
def push (s : Switch) (r : Row) : Row := { r with switches := s :: r.switches }

/-- The letter of a switch with what follows it. Where that is not a script, it starts with the
letter of another switch. -/
def joined (s : Switch) : Text → Except UsageFault Row
  | [] => if s = .command then .ok (withScript []) else .error (.uselessValue s [])
  | c :: rest =>
    if s = .command then .ok (withScript (c :: rest))
    else
      match Switch.ofLetter? c with
      | none => .error (.uselessValue s (c :: rest))
      | some next => (if rest.isEmpty then .ok (last next) else joined next rest).map (push s)

/-- The switches of an argument. -/
def ofSwitch (s : Switch) : Attached → Except UsageFault Row
  | .nothing => .ok (last s)
  | .assigned value => assigned s value
  | .joined rest => joined s rest

end Row

namespace Options

/-- The options with one more switch. -/
def set (o : Options) : Switch → Options
  | .trace => { o with trace := true }
  | .ast => { o with ast := true }
  | .verbose => { o with verbosity := o.verbosity + 1 }
  | .help | .command => o

/-- The options with the switches of a row and the script that goes with it. -/
def setRow (o : Options) (r : Row) (script : Option Text) : Options :=
  { r.switches.foldl set o with script := script <|> o.script }

/-- Reads arguments; `left` are those before them that are left over. -/
def read (o : Options) (left : List Text) : List Argument → Except UsageFault Invocation
  | [] => if left.isEmpty then .ok (.run o) else .error (.unrecognized left)
  | .operand t :: .mark :: rest =>
    if o.program.isNone then read { o with program := some t } left rest
    else read o (left ++ [t, "--".toList]) rest
  | .operand t :: rest =>
    if o.program.isNone then read { o with program := some t } left rest
    else read o (left ++ [t]) rest
  | .mark :: rest =>
    if o.program.isNone then read o left rest else read o (left ++ ["--".toList]) rest
  | .unknown t :: rest => read o (left ++ [t]) rest
  | .switch s attached :: rest =>
    match Row.ofSwitch s attached with
    | .error fault => .error fault
    | .ok row =>
      match row.ending, rest with
      | .scriptAwaited, .operand t :: rest =>
        if row.switches.contains .help then .ok .help else read (o.setRow row (some t)) left rest
      | .scriptAwaited, _ => .error (.noValue .command)
      | ending, rest =>
        if row.switches.contains .help then .ok .help
        else
          match ending with
          | .script t => read (o.setRow row (some t)) left rest
          | _ => read (o.setRow row none) left rest

/-- What a command line asks for. -/
def ofTexts (arguments : List Text) : Except UsageFault Invocation := do
  read {} [] (← Argument.ofTexts arguments)

/-- The detail of the log (`_log_level`). -/
def detail (o : Options) : Detail :=
  if o.verbosity ≥ 2 then .everything
  else if o.verbosity = 1 || o.trace then .progress
  else .none

end Options
end TinyTcl
