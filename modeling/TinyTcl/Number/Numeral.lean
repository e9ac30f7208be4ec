import TinyTcl.Number.Basic

/-! Numerals: texts that read as numbers. Blanks around a numeral do not count. It is an optional
sign and decimal digits of any script; a point, or an exponent, makes it a real one. A real numeral
needs one digit before or after the point. -/
namespace TinyTcl

/-- What a numeral says: digits are given by their values (`INTEGER_PATTERN` and `REAL_PATTERN`). -/
inductive Numeral where
  | integer (negative : Bool) (digits : List Nat)
  | real (negative : Bool) (whole fraction : List Nat) (exponent : Int)
deriving DecidableEq, Repr

namespace Numeral

/-- The number that decimal digits denote. -/
def valueOf (digits : List Nat) : Nat := digits.foldl (fun value digit => 10 * value + digit) 0

/-- A number with a sign. -/
def signed (negative : Bool) (n : Nat) : Int := if negative then -n else n

/-- Reads a sign, if there is one; the sign is whether it is a minus. -/
def splitSign : Text → Bool × Text
  | '-' :: rest => (true, rest)
  | '+' :: rest => (false, rest)
  | rest => (false, rest)

/-- Reads decimal digits, as far as they go. -/
def splitDigits : Text → List Nat × Text
  | [] => ([], [])
  | c :: rest =>
    match digitValue? c with
    | some digit => (digit :: (splitDigits rest).1, (splitDigits rest).2)
    | none => ([], c :: rest)

/-- The exponent that a text denotes; no text denotes zero. -/
def exponentOf? : Text → Option Int
  | [] => some 0
  | c :: rest =>
    if c == 'e' || c == 'E' then
      let (negative, rest) := splitSign rest
      match splitDigits rest with
      | (digit :: digits, []) => some (signed negative (valueOf (digit :: digits)))
      | _ => none
    else none

/-- The numeral that a text without blanks around it is. -/
def ofTrimmed? (t : Text) : Option Numeral :=
  let (negative, t) := splitSign t
  let (whole, t) := splitDigits t
  match t with
  | [] => if whole.isEmpty then none else some (.integer negative whole)
  | '.' :: rest =>
    let (fraction, rest) := splitDigits rest
    if whole.isEmpty && fraction.isEmpty then none
    else (exponentOf? rest).map (.real negative whole fraction)
  | rest => if whole.isEmpty then none else (exponentOf? rest).map (.real negative whole [])

/-- The numeral that a text is, if it is one. -/
def ofText? (t : Text) : Option Numeral := ofTrimmed? t.trim

/-- The double nearest to `digits * 10 ^ exponent`. Beyond four hundred places every number is
infinite or zero, whatever its digits. -/
def toReal (digits : List Nat) (exponent : Int) : Float :=
  let digits := digits.dropWhile (· == 0)
  let places := exponent + digits.length
  if digits.isEmpty || places < -400 then 0.0
  else if places > 400 then Float.ofBits 0x7FF0000000000000
  else Float.ofScientific (valueOf digits) (exponent < 0) exponent.natAbs

/-- The number that a numeral denotes as a real. -/
def toRealNumber : Numeral → Float
  | integer negative digits => withSign negative (toReal digits 0)
  | real negative whole fraction exponent =>
    withSign negative (toReal (whole ++ fraction) (exponent - fraction.length))
where
  withSign (negative : Bool) (x : Float) : Float := if negative then -x else x

/-- The number that a numeral denotes. An integer with too many digits is not read, and one that
does not fit is a fault. -/
def toNumber : Numeral → Except Failure Number
  | integer negative digits =>
    if digits.length > maxDigits then .error (.tooManyDigits digits.length)
    else Number.ofInt (signed negative (valueOf digits)) .unknown
  | real negative whole fraction exponent =>
    .ok (.real (toRealNumber (real negative whole fraction exponent)))

end Numeral

/-- The number that a text denotes, if it is a numeral (`parse_number`). -/
def Number.ofText? (t : Text) : Except Failure (Option Number) :=
  match Numeral.ofText? t with
  | none => .ok none
  | some numeral => numeral.toNumber.map some

end TinyTcl
