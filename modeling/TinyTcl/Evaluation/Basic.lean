import TinyTcl.Log
import TinyTcl.Program.Reader
import TinyTcl.Scope.Chain

/-! The machine that carries commands out. A command sees the scopes around its own but changes
only the bindings of its own scope, so the machine holds just these; the others are part of the
surroundings. Output, trace and log only grow. A failure keeps all that was done before it. -/
namespace TinyTcl

/-- A command that was carried out under tracing (`TraceEntry`). -/
structure TraceEntry where
  line : Int
  command : Text
  /-- The text of the value it gave. -/
  value : Text
  /-- The number of scopes around the one it was carried out in. -/
  depth : Nat
deriving DecidableEq, Repr

/-- What the commands of a scope find. -/
structure Surroundings where
  tracing : Bool
  /-- The name of the script. -/
  filename : Option Text
  /-- The scopes around the one in use. -/
  outer : Chain

/-- The name of the script in the log. -/
def scriptName (filename : Option Text) : Text :=
  match filename with
  | none | some [] => "<script>".toList
  | some name => name

/-- What commands change. -/
structure Machine where
  /-- The bindings of the scope in use. -/
  bindings : Bindings
  output : Text
  trace : List TraceEntry
  log : List Event

/-- Something that the machine does: it gives a result or fails. -/
abbrev Eval (α : Type) := EStateM Failure Machine α

/-- The machine with more notes in its log. -/
def Machine.note (m : Machine) (events : List Event) : Machine := { m with log := m.log ++ events }

namespace Eval

/-- A result that does not depend on the machine. -/
def ofExcept {α : Type} : Except Failure α → Eval α
  | .ok value => pure value
  | .error failure => throw failure

/-- Adds a note to the log. -/
def note (e : Event) : Eval Unit := modify fun m => m.note [e]

/-- Changes the diagnostic with which something fails. -/
def mapDiagnostic {α : Type} (f : Diagnostic → Diagnostic) (act : Eval α) : Eval α := fun m =>
  match act m with
  | .ok value m => .ok value m
  | .error failure m => .error (failure.mapDiagnostic f) m

/-- The value of a variable, as it is seen from the scope in use. -/
def lookup (around : Surroundings) (name : Text) : Eval Value := do
  ofExcept ((Chain.link (← get).bindings around.outer).lookup name)

/-- Binds a name in the scope in use. -/
def define (name : Text) (value : Value) : Eval Value := do
  modify fun m => { m with bindings := m.bindings.insert name value }
  return value

/-- Removes a name from the scope in use. Of a name that was bound, the log tells the depth. -/
def remove (around : Surroundings) (name : Text) : Eval Unit := do
  if (← get).bindings.contains name then
    modify fun m => { m with bindings := m.bindings.erase name }
    note (.removed name (← ofExcept around.outer.depth))

/-- Writes a text to the output. -/
def write (t : Text) : Eval Unit := modify fun m => { m with output := m.output ++ t }

/-- Does something in a new scope inside the one in use. The new scope is gone afterwards. -/
def inChild {α : Type} (around : Surroundings) (act : Surroundings → Eval α) : Eval α := fun m =>
  let inside := { around with outer := .link m.bindings around.outer }
  match act inside { m with bindings := .empty } with
  | .ok value m' => .ok value { m' with bindings := m.bindings }
  | .error failure m' => .error failure { m' with bindings := m.bindings }

/-- Fills in the place of a command where a fault in carrying it out has none
(`TclInterpreter.execute`). -/
def locate (c : Command) (d : Diagnostic) : Diagnostic :=
  if d.isEvaluation then d.place (some c.position.line) (some c.position.column) else d

/-- Carries a command out by `act`, and traces it if that is asked for: the log names the command
before it starts, the trace has it once it has ended well (`TracingInterpreter.execute`). -/
def carryOut (around : Surroundings) (c : Command) (act : Eval Value) : Eval Value := do
  if around.tracing then
    let depth ← ofExcept around.outer.depth
    note (.traced (scriptName around.filename) c.position.line c.name)
    let value ← mapDiagnostic (locate c) act
    modify fun m =>
      { m with trace := m.trace ++ [⟨c.position.line, c.name, value.text, depth⟩] }
    return value
  else mapDiagnostic (locate c) act

end Eval

/-- How far a text was carried out. -/
structure Progress where
  /-- What stopped it before its end. -/
  failure : Option Failure
  /-- The value of the last command that ended well. -/
  value : Value
  machine : Machine

/-- The progress as an outcome: the last value, or the failure. -/
def Progress.result (p : Progress) : EStateM.Result Failure Machine Value :=
  match p.failure with
  | none => .ok p.value p.machine
  | some failure => .error failure p.machine

end TinyTcl
