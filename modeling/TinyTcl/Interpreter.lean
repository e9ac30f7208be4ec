import TinyTcl.Evaluation.Command
import TinyTcl.Scope.Store

/-! Interpreters. An interpreter runs its script once, in a scope of its own choice; it can also
carry out blocks and scripts that it is given, before and after that. Its output starts with a
banner and only grows. -/
namespace TinyTcl

/-- The banner that output starts with unless another is asked for (`BANNER`). -/
def defaultBanner : Text := "Tcl> ".toList

/-- An interpreter (`AbstractInterpreter`). -/
structure Interpreter where
  /-- The script to run. -/
  reader : Option Reader
  /-- The scope that it was given. -/
  given : ScopeId
  /-- The scope that it runs in: the one it was given, or a child of it. -/
  scope : ScopeId
  tracing : Bool
  stage : Stage
  /-- The value of the last command of the script that ended well. -/
  result : Value
  output : Text
  trace : List TraceEntry

/-- What an interpreter did: the outcome, what became of it and of the scopes, and its log. -/
structure Turn (α : Type) where
  outcome : Except Failure α
  interpreter : Interpreter
  store : Store
  log : List Event

namespace Interpreter

/-- A new interpreter that runs in the scope it is given. -/
def ofScope (reader : Option Reader) (scope : ScopeId) (tracing : Bool) (banner : Text) :
    Interpreter :=
  { reader, given := scope, scope, tracing, stage := .ready, result := .empty, output := banner,
    trace := [] }

/-- The interpreter in a new scope inside the one it was given (`new_context`). -/
def inChild (i : Interpreter) (s : Store) : Interpreter × Store :=
  let (scope, s) := s.add (some i.given)
  ({ i with scope }, s)

/-- The name of the script (`AbstractInterpreter.filename`). -/
def filename (i : Interpreter) : Option Text := i.reader.bind (·.filename)

/-- What commands find in a scope where the interpreter carries them out. -/
def surroundings (i : Interpreter) (s : Store) (scope : ScopeId) : Surroundings :=
  ⟨i.tracing, i.filename, s.around scope⟩

/-- The machine at the start of a turn in a scope. -/
def machine (i : Interpreter) (s : Store) (scope : ScopeId) : Machine :=
  ⟨s.bindings scope, i.output, i.trace, []⟩

/-- The end of a turn in a scope. -/
def turn {α : Type} (i : Interpreter) (s : Store) (scope : ScopeId) (outcome : Except Failure α)
    (m : Machine) : Turn α :=
  ⟨outcome, { i with output := m.output, trace := m.trace }, s.setBindings scope m.bindings, m.log⟩

/-- A turn in a scope. -/
def act {α : Type} (i : Interpreter) (s : Store) (scope : ScopeId)
    (body : Surroundings → Eval α) : Turn α :=
  match body (i.surroundings s scope) (i.machine s scope) with
  | .ok value m => i.turn s scope (.ok value) m
  | .error failure m => i.turn s scope (.error failure) m

/-- Runs the script (`TclInterpreter.run`). A script that has no name yet in a diagnostic of the run
gets it at the end. -/
def run (i : Interpreter) (s : Store) : Turn Value :=
  if i.stage ≠ .ready then ⟨.error (.diagnostic { cause := .alreadyRun i.stage }), i, s, []⟩
  else
    match i.reader with
    | none => ⟨.error (.diagnostic { cause := .noScript }), i, s, []⟩
    | some reader =>
      let name := scriptName i.filename
      let p := reader.program.run (i.surroundings s i.scope) i.result
        ((i.machine s i.scope).note [.started name])
      let i := { i with result := p.value }
      match p.failure with
      | none =>
        { i with stage := .done }.turn s i.scope (.ok p.value) (p.machine.note [.finished name])
      | some failure =>
        let notes := match failure with
          | .diagnostic d => [.stopped name d.message]
          | _ => []
        { i with stage := .failed }.turn s i.scope
          (.error (failure.mapDiagnostic (·.inFile i.filename))) (p.machine.note notes)

/-- Carries out a block in a scope; without one, in a new scope inside that of the interpreter,
which is gone afterwards (`TclInterpreter.run_block`). -/
def runBlock (i : Interpreter) (s : Store) (body : Block) (scope : Option ScopeId) : Turn Value :=
  let program := (Reader.ofText body.text i.filename body.position).program
  match scope with
  | some scope => i.act s scope fun around => program.eval around
  | none => i.act s i.scope fun around => Eval.inChild around fun inside => program.eval inside

/-- Carries out commands in the scope of the interpreter. -/
def execute (i : Interpreter) (s : Store) (commands : List Command) : Turn Value :=
  i.act s i.scope fun around => Command.sequence around .empty commands

/-- Reads a script to its end and carries it out. A fault in it leaves everything as it was. -/
def executeText (i : Interpreter) (s : Store) (t : Text) (filename : Option Text) : Turn Value :=
  let reader := Reader.ofText t filename .start
  match reader.commands with
  | .ok commands =>
    let turn := i.execute s commands
    { turn with log := reader.program.notes ++ turn.log }
  | .error d => ⟨.error (.diagnostic d), i, s, reader.program.notes⟩

/-- Writes a text to the output (`AbstractInterpreter.write`). -/
def write (i : Interpreter) (t : Text) : Interpreter := { i with output := i.output ++ t }

/-- Gives the interpreter another script. -/
def setReader (i : Interpreter) (reader : Reader) : Interpreter := { i with reader := some reader }

end Interpreter

/-- Runs a script in a root scope of its own (`run_script`). -/
def Reader.runScript (r : Reader) (tracing : Bool) : Turn Value :=
  let (scope, store) := Store.empty.add none
  (Interpreter.ofScope (some r) scope tracing defaultBanner).run store

end TinyTcl
