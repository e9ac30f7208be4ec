import TinyTcl.Interpreter
import TinyTcl.Proofs.Scope.Orderly

/-! Evaluation among all scopes. Here commands work on the store itself: one scope is active, blocks
open a scope in the store, make it the active one and leave it again, and every command that is
carried out is entered in a journal with the stores before and after it. Nothing keeps a command
from changing any scope it likes, so that it changes none but the active one is something to prove.
-/
namespace TinyTcl

/-- A command that was carried out: the scope that was active, and all scopes before and after. -/
structure JournalEntry where
  command : Command
  active : ScopeId
  before : Store
  after : Store

/-- What commands work on. -/
structure World where
  /-- The interpreter that carries the commands out. -/
  interpreter : Interpreter
  store : Store
  /-- The scope in use. -/
  active : ScopeId
  log : List Event
  journal : List JournalEntry

/-- Something that happens in a world: it gives a result or fails. -/
abbrev Live (α : Type) := EStateM Failure World α

/-- The store without a scope. -/
def Store.close (s : Store) (id : ScopeId) : Store :=
  { s with scopes := s.scopes.filter (·.id != id) }

/-- The world with more notes in its log. -/
def World.note (w : World) (events : List Event) : World := { w with log := w.log ++ events }

/-- The world with other bindings in the active scope. -/
def World.rebind (w : World) (change : Bindings → Bindings) : World :=
  { w with store := w.store.setBindings w.active (change (w.store.bindings w.active)) }

namespace Live

/-- A result that does not depend on the world. -/
def ofExcept {α : Type} : Except Failure α → Live α
  | .ok value => pure value
  | .error failure => throw failure

/-- Adds a note to the log. -/
def note (e : Event) : Live Unit := modify fun w => w.note [e]

/-- Changes the diagnostic with which something fails. -/
def mapDiagnostic {α : Type} (f : Diagnostic → Diagnostic) (act : Live α) : Live α := fun w =>
  match act w with
  | .ok value w => .ok value w
  | .error failure w => .error (failure.mapDiagnostic f) w

/-- The value of a variable, as it is seen from the active scope. -/
def lookup (name : Text) : Live Value := do
  let w ← get
  ofExcept ((w.store.chain w.active).lookup name)

/-- Binds a name in the active scope. -/
def define (name : Text) (value : Value) : Live Value := do
  modify fun w => w.rebind (·.insert name value)
  return value

/-- Removes a name from the active scope. Of a name that was bound, the log tells the depth. -/
def remove (name : Text) : Live Unit := do
  let w ← get
  if (w.store.bindings w.active).contains name then
    modify fun w => w.rebind (·.erase name)
    note (.removed name (← ofExcept (w.store.depth w.active)))

/-- Writes a text to the output. -/
def write (t : Text) : Live Unit := modify fun w => { w with interpreter := w.interpreter.write t }

/-- The world with a new scope inside the active one, which becomes the active one. -/
def enter (w : World) : World :=
  let (active, store) := w.store.add (some w.active)
  { w with store, active }

/-- The world after something was done in a new scope: that scope is closed, and the one that was
active before is active again. -/
def leave (w after : World) : World :=
  { after with store := after.store.close (enter w).active, active := w.active }

/-- Does something in a new scope inside the active one, which is active again afterwards. -/
def inChild {α : Type} (act : Live α) : Live α := fun w =>
  match act (enter w) with
  | .ok value after => .ok value (leave w after)
  | .error failure after => .error failure (leave w after)

/-- The world after a command, with the command in its journal. -/
def enterJournal (c : Command) (w after : World) : World :=
  { after with journal := after.journal ++ [⟨c, w.active, w.store, after.store⟩] }

/-- Does what a command does, and enters the command in the journal. -/
def record (c : Command) (act : Live Value) : Live Value := fun w =>
  match act w with
  | .ok value after => .ok value (enterJournal c w after)
  | .error failure after => .error failure (enterJournal c w after)

/-- Carries a command out by `act`, and traces it if that is asked for. -/
def carryOut (c : Command) (act : Live Value) : Live Value := do
  let w ← get
  if w.interpreter.tracing then
    let depth ← ofExcept (w.store.depth w.active)
    note (.traced (scriptName w.interpreter.filename) c.position.line c.name)
    let value ← mapDiagnostic (Eval.locate c) (record c act)
    modify fun w => { w with interpreter := { w.interpreter with
      trace := w.interpreter.trace ++ [⟨c.position.line, c.name, value.text, depth⟩] } }
    return value
  else mapDiagnostic (Eval.locate c) (record c act)

end Live

/-- How far a text was carried out in a world. -/
structure Passage where
  /-- What stopped it before its end. -/
  failure : Option Failure
  /-- The value of the last command that ended well. -/
  value : Value
  world : World

/-- The passage as an outcome: the last value, or the failure. -/
def Passage.result (p : Passage) : EStateM.Result Failure World Value :=
  match p.failure with
  | none => .ok p.value p.world
  | some failure => .error failure p.world

mutual

/-- The value of an operand. -/
def Expr.live : Expr → Live Value
  | .number text _ | .word text _ => return .string text
  | .reference name position =>
    Live.mapDiagnostic (·.place (some position.line) (some position.column)) (Live.lookup name)
  | .quoted parts _ => return .string (← Expr.liveJoin parts)
  | .substitution commands _ => Command.liveSequence .empty commands
  | .signed sign position operand => do
    let value ← operand.live
    Live.ofExcept (value.withSign sign (.ofPosition position))
  | .binary left operator position right => do
    let a ← left.live
    let b ← right.live
    Live.ofExcept (Value.apply operator a b (.ofPosition position))
  | .group inner => inner.live

/-- The joined texts of operands. -/
def Expr.liveJoin : List Expr → Live Text
  | [] => return []
  | first :: rest => do
    let value ← first.live
    return value.text ++ (← Expr.liveJoin rest)

/-- What a command does among all scopes, and its value. -/
def Command.live : Command → Live Value
  | .set _ target value => do Live.define target (← value.live)
  | .unset _ target => do
    Live.remove target
    return .empty
  | .puts _ value => do
    Live.write ((← value.live).text ++ ['\n'])
    return .empty
  | .expr position operand => do
    let value ← operand.live
    Live.ofExcept (value.toNumberValue (.ofPosition position))
  | .block _ _ program => Live.inChild fun w => (program.live .empty w).result
  | .invoke position name _ => throw (.diagnostic (.ofCause (.unknownCommand name) position))

/-- Carries commands out one after another. The value is that of the last one, or `last` if there
is none. -/
def Command.liveSequence (last : Value) : List Command → Live Value
  | [] => return last
  | first :: rest => do
    let value ← Live.carryOut first first.live
    Command.liveSequence value rest

/-- Carries out all that a text delivers. -/
def Program.live (last : Value) : Program → World → Passage
  | .finish notes, w => ⟨none, last, w.note notes⟩
  | .fault notes diagnostic, w =>
    ⟨some (.diagnostic (Reader.inScript w.interpreter.filename diagnostic)), last, w.note notes⟩
  | .step notes command rest, w =>
    match Live.carryOut command command.live (w.note notes) with
    | .ok value after => rest.live value after
    | .error failure after => ⟨some failure, last, after⟩

end

namespace Interpreter

/-- The turn that ends in a world. -/
def turnOf {α : Type} (outcome : Except Failure α) (w : World) : Turn α :=
  ⟨outcome, w.interpreter, w.store, w.log⟩

/-- A turn in a scope, among all scopes, with the journal of the turn. -/
def actLive (i : Interpreter) (s : Store) (scope : ScopeId) (body : Live Value) :
    Turn Value × List JournalEntry :=
  match body ⟨i, s, scope, [], []⟩ with
  | .ok value w => (turnOf (.ok value) w, w.journal)
  | .error failure w => (turnOf (.error failure) w, w.journal)

/-- Runs the script among all scopes. The journal of the run has every command that was carried
out, also in blocks, strings and substitutions. -/
def runLive (i : Interpreter) (s : Store) : Turn Value × List JournalEntry :=
  if i.stage ≠ .ready then (⟨.error (.diagnostic { cause := .alreadyRun i.stage }), i, s, []⟩, [])
  else
    match i.reader with
    | none => (⟨.error (.diagnostic { cause := .noScript }), i, s, []⟩, [])
    | some reader =>
      let name := scriptName i.filename
      let p := reader.program.live i.result ⟨i, s, i.scope, [.started name], []⟩
      let ended (stage : Stage) (notes : List Event) : World :=
        { p.world.note notes with
          interpreter := { p.world.interpreter with result := p.value, stage } }
      match p.failure with
      | none => (turnOf (.ok p.value) (ended .done [.finished name]), p.world.journal)
      | some failure =>
        let notes := match failure with
          | .diagnostic d => [.stopped name d.message]
          | _ => []
        (turnOf (.error (failure.mapDiagnostic (·.inFile i.filename))) (ended .failed notes),
          p.world.journal)

end Interpreter
end TinyTcl
