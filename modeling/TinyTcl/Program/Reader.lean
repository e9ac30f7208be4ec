import TinyTcl.Program.Grammar

/-! Readers of scripts. A reader delivers the commands of a script one at a time, and can be asked
again after a fault: it goes on where it stopped. -/
namespace TinyTcl

/-- What is left of a script, and the name it goes by (`Parser`). -/
structure Reader where
  cursor : Cursor
  filename : Option Text

namespace Reader

/-- A reader of a text that starts at a place (`Parser.from_source`). -/
def ofText (t : Text) (filename : Option Text) (start : Position) : Reader :=
  ⟨.ofText t start, filename⟩

/-- A reader of tokens that are there already. -/
def ofTokens (tokens : List Token) (filename : Option Text) : Reader :=
  ⟨.ofTokens tokens, filename⟩

/-- The fault as a fault of the script that is read. A grammar fault names the script even if the
name is empty. -/
def inScript (filename : Option Text) (d : Diagnostic) : Diagnostic :=
  match d.cause.family with
  | .grammar => { d with filename }
  | _ => d.inFile filename

/-- The next command, or none at the end, and the reader behind it (`Parser.next_command`). -/
def next (r : Reader) : Except Diagnostic (Option Command) × Reader :=
  let start := r.cursor.skipSeparators
  match start.view with
  | .finish _ here _ => (.ok none, { r with cursor := here })
  | .broken d here => (.error (inScript r.filename d), { r with cursor := here })
  | .token _ _ _ _ =>
    match Grammar.statement start with
    | .ok command rest _ => (.ok (some command), { r with cursor := rest })
    | .fail d here => (.error (inScript r.filename d), { r with cursor := here })

/-- The outcomes of asking `count` times. -/
def nexts : (count : Nat) → Reader → List (Except Diagnostic (Option Command))
  | 0, _ => []
  | count + 1, r => r.next.1 :: nexts count r.next.2

/-- All that is left of the script. -/
def program (r : Reader) : Program := Grammar.program r.cursor

/-- All commands that are left, or the first fault (`Parser.parse`). -/
def commands (r : Reader) : Except Diagnostic (List Command) :=
  r.program.commands.mapError (inScript r.filename)

end Reader
end TinyTcl
