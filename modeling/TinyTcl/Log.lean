import TinyTcl.Text.Basic

/-! The log: notes on what happens while a script is read and run. Nothing in a script depends on
them; they are shown when more is asked for than the output. -/
namespace TinyTcl

/-- Something worth a note. -/
inductive Event where
  /-- The end of a text was reached: its number of tokens, and its last line. -/
  | lexed (tokens : Nat) (line : Int)
  | parsed (command : Text) (line : Int)
  | removed (name : Text) (depth : Nat)
  | started (script : Text)
  | stopped (script : Text) (message : String)
  | finished (script : Text)
  /-- A command is about to be carried out under tracing. -/
  | traced (script : Text) (line : Int) (command : Text)
deriving DecidableEq, Repr

/-- How much detail a log shows. -/
inductive Detail where
  | none | progress | everything
deriving DecidableEq, Repr

namespace Event

/-- The part of the program that takes the note. -/
def source : Event → String
  | lexed _ _ => "tclscript.lexer"
  | parsed _ _ => "tclscript.parser"
  | removed _ _ => "tclscript.context"
  | started _ | stopped _ _ | finished _ => "tclscript.interpreter"
  | traced _ _ _ => "tclscript.trace"

/-- The least detail at which a note is shown. -/
def shownFrom : Event → Detail
  | lexed _ _ | parsed _ _ | removed _ _ => .everything
  | started _ | stopped _ _ | finished _ | traced _ _ _ => .progress

def message : Event → String
  | lexed tokens line =>
    "lexed " ++ String.ofList (Text.ofNat tokens) ++ " tokens over " ++
      String.ofList (Text.ofInt line) ++ " lines"
  | parsed command line =>
    "parsed " ++ String.ofList command.quoted ++ " command at line " ++
      String.ofList (Text.ofInt line)
  | removed name depth =>
    "removed " ++ String.ofList name.quoted ++ " at depth " ++ String.ofList (Text.ofNat depth)
  | started script => "running " ++ String.ofList script
  | stopped script message => String.ofList script ++ " failed: " ++ message
  | finished script => "finished " ++ String.ofList script
  | traced script line command =>
    String.ofList script ++ ":" ++ String.ofList (Text.ofInt line) ++ ": " ++
      String.ofList command

/-- Whether a log of this detail shows the note. -/
def isShown (detail : Detail) (e : Event) : Bool :=
  match detail, e.shownFrom with
  | .everything, _ | .progress, .progress => true
  | _, _ => false

/-- The lines that a log of this detail shows. -/
def lines (detail : Detail) (events : List Event) : String :=
  String.join ((events.filter (isShown detail)).map fun e => e.source ++ ": " ++ e.message ++ "\n")

end Event
end TinyTcl
