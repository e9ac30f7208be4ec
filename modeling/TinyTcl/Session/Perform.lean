import TinyTcl.Session.Basic

/-! How a session answers requests. A scope that loses its last holder is gone at once, also within
a request. A request on a handle that stands for nothing is answered with nothing. -/
namespace TinyTcl

/-- The outcome of a request, and the session after it. -/
abbrev Response := Except Failure Answer × Session

namespace Session

/-- Answers for the scope that a handle stands for. -/
def onScope (s : Session) (handle : Text) (f : ScopeId → Response) : Response :=
  match s.scopes.find? handle with
  | some id => f id
  | none => (.ok .nothing, s)

/-- Answers for the interpreter that a handle stands for. -/
def onInterpreter (s : Session) (handle : Text) (f : Interpreter → Response) : Response :=
  match s.interpreters.find? handle with
  | some i => f i
  | none => (.ok .nothing, s)

/-- The session after an interpreter's turn, with the outcome of the turn. -/
def afterTurn (s : Session) (handle : Text) (turn : Turn Value) : Response :=
  (turn.outcome.map .value,
    { s with store := turn.store }.keepInterpreter handle turn.interpreter)

/-- Lets a handle stand for a scope and reads its depth. -/
def adopt (s : Session) (handle : Text) (id : ScopeId) : Response :=
  let s := s.keepScope handle id
  ((s.store.depth id).map .depth, s)

/-- The state of an interpreter as an answer. -/
def stateOf (s : Session) (i : Interpreter) : Answer := .state i (s.store.bindings i.scope)

/-- A new interpreter, and the store with the scopes that were opened for it. -/
def build (s : Session) (setup : Setup) : Interpreter × Store :=
  let reader := setup.script.map fun script => Reader.ofText script setup.filename .start
  let (scope, store) := match setup.scope.bind s.scopes.find? with
    | some id => (id, s.store)
    | none => s.store.add none
  let i := Interpreter.ofScope reader scope setup.tracing setup.banner
  if setup.inChild then i.inChild store else (i, store)

/-- The handles of the scope around a scope; none if the scope is a root. -/
def parentOf (s : Session) (id : ScopeId) : Except Failure Answer :=
  match (s.store.find? id).bind (·.parent) with
  | none => .ok .nothing
  | some parent =>
    match s.store.find? parent with
    | some _ => .ok (.texts (s.handles parent))
    | none => .error .lostScope

/-- Answers a request. -/
def perform (s : Session) : Request → Response
  | .openRoot handle =>
    let (id, store) := s.store.add none
    { s with store }.adopt handle id
  | .openChild handle outer => s.onScope outer fun outer =>
    let (id, store) := s.store.add (some outer)
    { s with store }.adopt handle id
  | .dropScope handle => (.ok .nothing, s.dropScope handle)
  | .dropInterpreter handle => (.ok .nothing, s.dropInterpreter handle)
  | .define handle name value => s.onScope handle fun id =>
    let (outcome, store) := s.store.define id name value
    (outcome.map .value, { s with store })
  | .lookup handle name => s.onScope handle fun id =>
    (((s.store.chain id).lookup name).map .value, s)
  | .remove handle name => s.onScope handle fun id =>
    let (outcome, store) := s.store.remove id name
    (outcome.map fun _ => .nothing, { s with store })
  | .contains handle name => s.onScope handle fun id =>
    (((s.store.chain id).contains name).map .flag, s)
  | .isLocal handle name => s.onScope handle fun id =>
    (.ok (.flag ((s.store.bindings id).contains name)), s)
  | .depth handle => s.onScope handle fun id => ((s.store.depth id).map .depth, s)
  | .listing handle => s.onScope handle fun id => ((s.store.listing id).map .text, s)
  | .names handle => s.onScope handle fun id => (.ok (.texts (s.store.bindings id).names), s)
  | .parent handle => s.onScope handle fun id => (s.parentOf id, s)
  | .attach handle name content => s.onScope handle fun id =>
    let store := s.store.attach id name content
    (.ok (.attributes (store.attributes id).sorted), { s with store })
  | .attributes handle => s.onScope handle fun id =>
    (.ok (.attributes (s.store.attributes id).sorted), s)
  | .create handle setup =>
    let (i, store) := s.build setup
    let s := { s with store }.keepInterpreter handle i
    (.ok (s.stateOf i), s)
  | .setScript handle script filename => s.onInterpreter handle fun i =>
    let i := i.setReader (.ofText script filename .start)
    (.ok (i.filename.elim .nothing .text), s.keepInterpreter handle i)
  | .run handle => s.onInterpreter handle fun i => s.afterTurn handle (i.run s.store)
  | .runBlock handle body scope => s.onInterpreter handle fun i =>
    s.afterTurn handle (i.runBlock s.store body (scope.bind s.scopes.find?))
  | .execute handle script filename => s.onInterpreter handle fun i =>
    s.afterTurn handle (i.executeText s.store script filename)
  | .write handle text => s.onInterpreter handle fun i =>
    (.ok .nothing, s.keepInterpreter handle (i.write text))
  | .state handle => s.onInterpreter handle fun i => (.ok (s.stateOf i), s)
  | .takeScope handle other => s.onInterpreter handle fun i => s.adopt other i.scope

/-- The outcomes of several requests, and the session after them. -/
def performAll (s : Session) : List Request → List (Except Failure Answer) × Session
  | [] => ([], s)
  | first :: rest =>
    let (outcome, s) := s.perform first
    let (outcomes, s) := s.performAll rest
    (outcome :: outcomes, s)

end Session
end TinyTcl
