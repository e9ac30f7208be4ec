import TinyTcl.Table
import TinyTcl.Value.Basic

/-! What can be seen from a scope: its own bindings, and those of the scopes around it from the
inside out. A scope does not keep the one around it; where that is gone, the chain is broken, and
whatever has to look further fails. -/
namespace TinyTcl

/-- The variables of one scope in the order of definition. -/
abbrev Bindings := Table Value

/-- Scopes from the inside out. -/
inductive Chain where
  /-- No scope is left: the one before is a root. -/
  | root
  /-- The scope that comes next is gone. -/
  | lost
  | link (bindings : Bindings) (outer : Chain)

namespace Chain

/-- The number of scopes in a chain (`Context.depth`). -/
def depth : Chain → Except Failure Nat
  | root => .ok 0
  | lost => .error .lostScope
  | link _ outer => return (← outer.depth) + 1

/-- The value that the nearest scope gives to a name (`Context.lookup`). -/
def lookup (name : Text) : Chain → Except Failure Value
  | root => .error (.diagnostic { cause := .unboundVariable name })
  | lost => .error .lostScope
  | link bindings outer =>
    match bindings.find? name with
    | some value => .ok value
    | none => outer.lookup name

/-- Whether some scope of a chain binds a name (`Context.__contains__`). -/
def contains (name : Text) : Chain → Except Failure Bool
  | root => .ok false
  | lost => .error .lostScope
  | link bindings outer => if bindings.contains name then .ok true else outer.contains name

/-- Whether a chain leads to a root. -/
def isWhole : Chain → Bool
  | root => true
  | lost => false
  | link _ outer => outer.isWhole

theorem lookup_link_of_find? {bindings : Bindings} {name : Text} {value : Value} {outer : Chain}
    (bound : bindings.find? name = some value) :
    (link bindings outer).lookup name = .ok value := by
  simp [lookup, bound]

theorem lookup_link_of_unbound {bindings : Bindings} {name : Text} {outer : Chain}
    (unbound : bindings.find? name = none) :
    (link bindings outer).lookup name = outer.lookup name := by
  simp [lookup, unbound]

theorem depth_isOk_iff (c : Chain) : (∃ n, c.depth = .ok n) ↔ c.isWhole = true := by
  induction c with
  | root => simp [depth, isWhole]
  | lost => simp [depth, isWhole]
  | link bindings outer ih =>
    rw [isWhole, ← ih]
    cases h : outer.depth <;> simp [depth, h, bind, Except.bind, pure, Except.pure]

end Chain
end TinyTcl
