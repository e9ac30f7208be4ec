import TinyTcl.Interpreter

/-! Sessions. A host program keeps scopes and interpreters by handles, in a table each. A scope
exists as long as a handle or an interpreter holds it; an interpreter holds the scope it was given
and the one it runs in. A scope does not hold the one around it. What the host program asks of a
session is a request, and what it is told an answer. -/
namespace TinyTcl

/-- The scopes and interpreters of a host program. -/
structure Session where
  store : Store
  scopes : Table ScopeId
  interpreters : Table Interpreter

namespace Session

/-- The session without anything. -/
def empty : Session := ⟨.empty, .empty, .empty⟩

/-- The scopes that something holds. -/
def held (s : Session) : List ScopeId :=
  s.scopes.entries.map Prod.snd ++
    s.interpreters.entries.flatMap fun e => [e.2.given, e.2.scope]

/-- The session without the scopes that nothing holds. -/
def settle (s : Session) : Session := { s with store := s.store.retain s.held }

/-- Lets a handle stand for a scope, and no longer for another. -/
def keepScope (s : Session) (handle : Text) (id : ScopeId) : Session :=
  { s with scopes := s.scopes.insert handle id }.settle

/-- Lets a handle stand for an interpreter, and no longer for another. -/
def keepInterpreter (s : Session) (handle : Text) (i : Interpreter) : Session :=
  { s with interpreters := s.interpreters.insert handle i }.settle

/-- Gives up a handle of a scope. -/
def dropScope (s : Session) (handle : Text) : Session :=
  { s with scopes := s.scopes.erase handle }.settle

/-- Gives up an interpreter. -/
def dropInterpreter (s : Session) (handle : Text) : Session :=
  { s with interpreters := s.interpreters.erase handle }.settle

/-- The handles that stand for a scope, in their order as texts. -/
def handles (s : Session) (id : ScopeId) : List Text :=
  (s.scopes.sorted.filter fun e => e.2 == id).map Prod.fst

end Session

/-! ### Requests -/

/-- How an interpreter is to be made. -/
structure Setup where
  script : Option Text
  filename : Option Text
  /-- The handle of the scope it is given; without one it gets a new root scope. -/
  scope : Option Text
  /-- Whether it runs in a new scope inside the one it is given. -/
  inChild : Bool
  tracing : Bool
  banner : Text

/-- A request about the scope or interpreter that a handle stands for. -/
inductive Request where
  | openRoot (handle : Text)
  | openChild (handle outer : Text)
  | dropScope (handle : Text)
  | dropInterpreter (handle : Text)
  | define (handle name : Text) (value : HostValue)
  | lookup (handle name : Text)
  | remove (handle name : Text)
  | contains (handle name : Text)
  | isLocal (handle name : Text)
  | depth (handle : Text)
  | listing (handle : Text)
  | names (handle : Text)
  /-- Asks for the handles of the scope around a scope. -/
  | parent (handle : Text)
  | attach (handle name content : Text)
  | attributes (handle : Text)
  | create (handle : Text) (setup : Setup)
  | setScript (handle script : Text) (filename : Option Text)
  | run (handle : Text)
  | runBlock (handle : Text) (body : Block) (scope : Option Text)
  | execute (handle script : Text) (filename : Option Text)
  | write (handle text : Text)
  | state (handle : Text)
  /-- Lets a second handle stand for the scope that an interpreter runs in. -/
  | takeScope (handle other : Text)

/-- The answer to a request that did not fail. -/
inductive Answer where
  | nothing
  | depth (n : Nat)
  | flag (b : Bool)
  | value (v : Value)
  | text (t : Text)
  | texts (ts : List Text)
  | attributes (entries : List (Text × Text))
  /-- An interpreter and the bindings of the scope it runs in. -/
  | state (i : Interpreter) (bindings : Bindings)

end TinyTcl
