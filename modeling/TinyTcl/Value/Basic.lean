import TinyTcl.Number.Numeral

/-! Values. Every value of a script has a text. A number is a value whose text is the number's; any
other value is text alone, and reads as a number only where a number is needed. -/
namespace TinyTcl

/-- A value of a script (`TclValue`). -/
inductive Value where
  | string (text : Text)
  | number (n : Number)
deriving Repr

/-- A value of a host program, offered to a script or taken from it. -/
inductive HostValue where
  | nothing
  | boolean (b : Bool)
  | integer (n : Int)
  | real (x : Float)
  | text (t : Text)
  | value (v : Value)
  /-- A value of a type that scripts do not have. -/
  | foreign (type : Text)

namespace Value

/-- The value without characters (`TclValue.empty`). -/
def empty : Value := string []

/-- The text of a value. -/
def text : Value → Text
  | string t => t
  | number n => n.text

/-- The number that a value holds without being read. -/
def held? : Value → Option Number
  | string _ => none
  | number n => some n

/-- Whether a value can be used in arithmetic (`TclValue.is_numeric`). -/
def isNumeric : Value → Bool
  | string t => (Numeral.ofText? t).isSome
  | number _ => true

/-- The number that a value is used as at some place (`TclValue.as_number`). -/
def toNumber (v : Value) (place : Place) : Except Failure Number :=
  match v with
  | number n => .ok n
  | string t =>
    match Number.ofText? t with
    | .ok (some n) => .ok n
    | .ok none => .error (place.fail (.notNumeric t))
    | .error failure =>
      .error (failure.mapDiagnostic fun d => d.place place.line place.column)

/-- How listings show a value (`TclValue.__repr__`). -/
def listing : Value → Text
  | number n => "TclValue(number, ".toList ++ n.text ++ [')']
  | string t => "TclValue(string, ".toList ++ t.quoted ++ [')']

/-- The value for a value of a host program (`TclValue.from_python`). -/
def ofHost : HostValue → Except Failure Value
  | .nothing => .ok empty
  | .boolean b => .number <$> Number.ofInt (if b then 1 else 0) .unknown
  | .integer n => .number <$> Number.ofInt n .unknown
  | .real x => .ok (number (.real x))
  | .text t => .ok (string t)
  | .value v => .ok v
  | .foreign type => .error (.foreignValue type)

/-- The value for a host program: a number wherever the text can be read as one
(`TclValue.to_python`). -/
def toHost (v : Value) : Except Failure HostValue :=
  if v.isNumeric then
    return match ← v.toNumber .unknown with
      | .integer n => .integer n.val
      | .real x => .real x
  else return .text v.text

end Value
end TinyTcl
