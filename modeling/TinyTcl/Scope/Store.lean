import TinyTcl.Log
import TinyTcl.Scope.Chain

/-! The store of all scopes that exist. Scopes are numbered as they are opened, and the newest
stands first; a scope is younger than the one around it, so the scopes around it are found behind
it. A number is never used again: a scope that was closed stays closed for those that were opened in
it. -/
namespace TinyTcl

/-- The number of a scope. -/
abbrev ScopeId := Nat

/-- A scope (`Context`). -/
structure Scope where
  id : ScopeId
  /-- The scope around it; a root has none. -/
  parent : Option ScopeId
  bindings : Bindings
  /-- Notes that a host program attaches to the scope. -/
  attributes : Table Text

/-- All scopes, newest first. -/
structure Store where
  next : ScopeId
  scopes : List Scope

namespace Store

/-- The store without scopes. -/
def empty : Store := ⟨0, []⟩

/-- The number of the scope that is opened next, and the store with that scope
(`Context.child_scope`). -/
def add (s : Store) (parent : Option ScopeId) : ScopeId × Store :=
  (s.next, ⟨s.next + 1, ⟨s.next, parent, .empty, .empty⟩ :: s.scopes⟩)

/-- The scope with a number. -/
def find? (s : Store) (id : ScopeId) : Option Scope := s.scopes.find? (·.id == id)

/-- Changes a scope. -/
def modify (s : Store) (id : ScopeId) (f : Scope → Scope) : Store :=
  { s with scopes := s.scopes.map fun scope => if scope.id = id then f scope else scope }

/-- Closes all scopes but those that are held. -/
def retain (s : Store) (held : List ScopeId) : Store :=
  { s with scopes := s.scopes.filter fun scope => held.contains scope.id }

/-- The chain from a scope outwards, among scopes of which the newest stand first. -/
def chainIn : List Scope → Option ScopeId → Chain
  | _, none => .root
  | [], some _ => .lost
  | scope :: older, some id =>
    if scope.id = id then .link scope.bindings (chainIn older scope.parent)
    else chainIn older (some id)

/-- What can be seen from a scope. -/
def chain (s : Store) (id : ScopeId) : Chain := chainIn s.scopes (some id)

/-- The bindings of a scope; a closed one has none. -/
def bindings (s : Store) (id : ScopeId) : Bindings := ((s.find? id).map (·.bindings)).getD .empty

/-- The chain around a scope. -/
def around (s : Store) (id : ScopeId) : Chain :=
  match s.find? id with
  | some scope => chainIn s.scopes scope.parent
  | none => .lost

/-- What is attached to a scope. -/
def attributes (s : Store) (id : ScopeId) : Table Text :=
  ((s.find? id).map (·.attributes)).getD .empty

/-- Attaches a note to a scope. -/
def attach (s : Store) (id : ScopeId) (name content : Text) : Store :=
  s.modify id fun scope => { scope with attributes := scope.attributes.insert name content }

/-- Replaces the bindings of a scope. -/
def setBindings (s : Store) (id : ScopeId) (bindings : Bindings) : Store :=
  s.modify id fun scope => { scope with bindings }

/-- The number of scopes around a scope. -/
def depth (s : Store) (id : ScopeId) : Except Failure Nat := (s.around id).depth

/-- Binds a name in a scope to a value of a host program (`Context.define`). -/
def define (s : Store) (id : ScopeId) (name : Text) (value : HostValue) :
    Except Failure Value × Store :=
  match Value.ofHost value with
  | .ok v => (.ok v, s.setBindings id ((s.bindings id).insert name v))
  | .error failure => (.error failure, s)

/-- Removes the binding of a name from a scope (`Context.remove`). The depth of the scope is read
for the log if there was one. -/
def remove (s : Store) (id : ScopeId) (name : Text) : Except Failure (List Event) × Store :=
  if (s.bindings id).contains name then
    ((s.depth id).map fun depth => [Event.removed name depth],
      s.setBindings id ((s.bindings id).erase name))
  else (.ok [], s)

/-- How listings show a scope (`Context.__repr__`). -/
def listing (s : Store) (id : ScopeId) : Except Failure Text := do
  let depth ← s.depth id
  let names := (s.bindings id).names.map Text.quoted
  return "Context(depth=".toList ++ Text.ofNat depth ++ ", variables=[".toList ++
    List.intercalate ", ".toList names ++ "])".toList

end Store
end TinyTcl
