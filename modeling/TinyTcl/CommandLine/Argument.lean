import TinyTcl.CommandLine.Switch

/-! What single arguments are. An argument with a dash in front is a switch, spelled in full, by the
start of its long spelling, or by its letter, behind which more letters or a value may follow, with
or without an equals sign after the first letter. It is an operand after all if it is a negative
number, or if it holds a blank and no switch starts it. The argument of two dashes makes operands of
all that follow. -/
namespace TinyTcl

/-- What an argument carries behind the spelling of a switch. -/
inductive Attached where
  | nothing
  /-- A value behind an equals sign that follows a long spelling. -/
  | assigned (value : Text)
  /-- What follows a letter, without an equals sign in front: more letters, or a value. -/
  | joined (rest : Text)
deriving DecidableEq, Repr

/-- What an argument is. -/
inductive Argument where
  | operand (t : Text)
  /-- The end of the switches. -/
  | mark
  | switch (s : Switch) (attached : Attached)
  | unknown (t : Text)
deriving DecidableEq, Repr

namespace Argument

/-- The name in front of the first equals sign, and the value behind it. -/
def split (t : Text) : Text × Option Text :=
  match t.dropWhile (· != '=') with
  | [] => (t, none)
  | _ :: value => (t.takeWhile (· != '='), some value)

/-- Whether a text is a negative number; a line end may follow it. -/
def isNegativeNumber (t : Text) : Bool :=
  let digits := fun s : Text => !s.isEmpty && s.all fun c => (digitValue? c).isSome
  let number := fun s : Text =>
    match s.dropWhile (· != '.') with
    | [] => digits s
    | _ :: fraction =>
      (s.takeWhile (· != '.')).all (fun c => (digitValue? c).isSome) && digits fraction
  match t with
  | '-' :: s => number s || (s.getLast? == some '\n' && number s.dropLast)
  | _ => false

/-- What an argument with a dash in front is if no switch starts it. -/
def plain (t : Text) : Argument :=
  if isNegativeNumber t || t.contains ' ' then operand t else unknown t

/-- What a switch in its long spelling with an attached value is. -/
def withValue (s : Switch) : Option Text → Argument
  | none => switch s .nothing
  | some value => switch s (.assigned value)

/-- What an argument is, where switches are still looked for. -/
def ofText (t : Text) : Except UsageFault Argument :=
  match t, Switch.ofSpelling? t, Switch.ofSpelling? (split t).1 with
  | _, some s, _ => .ok (switch s .nothing)
  | ['-'], _, _ => .ok (operand t)
  | '-' :: '-' :: _, _, some s => .ok (withValue s (split t).2)
  | '-' :: _, _, some s => .ok (switch s (.joined ((split t).2.getD [])))
  | '-' :: '-' :: _, _, _ =>
    match Switch.abbreviated (split t).1 with
    | [] => .ok (plain t)
    | [s] => .ok (withValue s (split t).2)
    | candidates => .error (.ambiguous t candidates)
  | '-' :: c :: rest, _, _ =>
    match Switch.ofLetter? c with
    | some s => .ok (switch s (.joined rest))
    | none => .ok (plain t)
  | _, _, _ => .ok (operand t)

/-- What the arguments of a command line are. -/
def ofTexts : List Text → Except UsageFault (List Argument)
  | [] => .ok []
  | ['-', '-'] :: rest => .ok (mark :: rest.map operand)
  | t :: rest => do
    let first ← ofText t
    return first :: (← ofTexts rest)

end Argument
end TinyTcl
