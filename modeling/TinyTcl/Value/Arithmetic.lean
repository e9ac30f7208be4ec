import TinyTcl.Value.Basic

/-! Arithmetic. Two integers give an integer: the exact result, where division rounds downwards; a
result that does not fit is a fault. A real operand makes the result real. Both operands are read as
numbers first, and division by zero is a fault for integers and reals alike. -/
namespace TinyTcl

namespace Number

/-- Whether a number is zero, of either sign. -/
def isZero : Number → Bool
  | integer n => n.val == 0
  | real x => x == 0.0

/-- The exact result for integers. -/
def exact (operator : Operator) (a b : Int) : Int :=
  match operator with
  | .add => a + b
  | .subtract => a - b
  | .multiply => a * b
  | .divide => a.fdiv b

/-- The result for reals. -/
def approximate (operator : Operator) (x y : Float) : Float :=
  match operator with
  | .add => x + y
  | .subtract => x - y
  | .multiply => x * y
  | .divide => x / y

/-- The result of an operator at some place. -/
def apply (operator : Operator) (a b : Number) (place : Place) : Except Failure Number :=
  if operator = .divide ∧ b.isZero = true then .error (place.fail .divisionByZero)
  else
    match a, b with
    | integer m, integer n => ofInt (exact operator m.val n.val) place
    | a, b => .ok (.real (approximate operator a.toReal b.toReal))

/-- The number with the other sign. -/
def negate (n : Number) (place : Place) : Except Failure Number :=
  match n with
  | integer n => ofInt (-n.val) place
  | real x => .ok (.real (-x))

end Number

namespace Value

/-- The result of an operator for two values (`TclInterpreter.visit_binary`). -/
def apply (operator : Operator) (a b : Value) (place : Place) : Except Failure Value := do
  let m ← a.toNumber place
  let n ← b.toNumber place
  return .number (← m.apply operator n place)

/-- The result of an operator given by its spelling (`arithmetic`). -/
def applyNamed (operator : Text) (a b : Value) (place : Place) : Except Failure Value := do
  let m ← a.toNumber place
  let n ← b.toNumber place
  match Operator.ofText? operator with
  | some operator => return .number (← m.apply operator n place)
  | none => throw (.unknownOperator operator)

/-- The value with the other sign (`negate`). -/
def negate (v : Value) (place : Place) : Except Failure Value := do
  return .number (← (← v.toNumber place).negate place)

/-- The number that the value is used as, as a value. -/
def toNumberValue (v : Value) (place : Place) : Except Failure Value :=
  .number <$> v.toNumber place

/-- The value behind a sign (`TclInterpreter.visit_unary`). A positive sign makes a number of it and
changes nothing else. -/
def withSign (sign : Sign) (v : Value) (place : Place) : Except Failure Value :=
  match sign with
  | .positive => v.toNumberValue place
  | .negative => v.negate place

end Value
end TinyTcl
