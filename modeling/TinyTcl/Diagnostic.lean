import TinyTcl.Token.Basic

/-! Diagnostics: what is wrong with a script and where. A diagnostic is a cause and as much of its
place as is known; whoever knows more of the place adds it later. A line and a name that are known
are kept for good. A column goes with its line: where a line is filled in, it replaces a column that
was known without one. -/
namespace TinyTcl

/-- Where an interpreter is in its life: it is ready, runs once, and ends done or failed
(`InterpreterState`). -/
inductive Stage where
  | ready | running | done | failed
deriving DecidableEq, Repr

/-- The name of a stage in messages. -/
def Stage.name : Stage → String
  | ready => "READY"
  | running => "RUNNING"
  | done => "DONE"
  | failed => "FAILED"

/-- Why a text cannot be cut into tokens (`LexError`). -/
inductive LexicalFault where
  | unexpectedCharacter (c : Char)
  | unterminatedString
  | missingBracket
  | missingBrace
deriving DecidableEq, Repr

/-- The words of a command that must be there. -/
inductive Operand where
  /-- The value of an assignment. -/
  | assigned
  /-- The value that is printed. -/
  | printed
  /-- A further word of a command that is not built in. -/
  | argument
deriving DecidableEq, Repr

/-- Why tokens do not form a command (`ParseError`). -/
inductive GrammarFault where
  | noCommand (found : Lexeme)
  | afterCommand (found : Lexeme) (command : Text)
  | noTarget (command : Symbol)
  | noWord (operand : Operand) (found : Lexeme)
  | noVariable
  | openString
  | openSubstitution
  | noBody
  | openBlock
  | noOperand (found : Lexeme)
  | openGroup
  | afterExpression (found : Lexeme)
deriving DecidableEq, Repr

/-- The families that diagnostics fall into. -/
inductive Family where
  | general | lexical | grammar | evaluation | lifecycle
deriving DecidableEq, Repr

/-- What is wrong. -/
inductive Cause where
  | lexical (fault : LexicalFault)
  | grammar (fault : GrammarFault)
  | unboundVariable (name : Text)
  | divisionByZero
  | unknownCommand (name : Text)
  | notNumeric (text : Text)
  | overflow (digits : Text)
  | alreadyRun (stage : Stage)
  | noScript
  /-- A cause in the words of a host program; `expected` goes with the grammar family alone. -/
  | reported (family : Family) (message : Text) (expected : Option Text)
deriving DecidableEq, Repr

def LexicalFault.message : LexicalFault → String
  | unexpectedCharacter c => "Unexpected character: " ++ String.ofList (Text.quoted [c])
  | unterminatedString => "Unterminated string"
  | missingBracket => "Missing close-bracket"
  | missingBrace => "Missing close-brace"

def Operand.message : Operand → String
  | assigned => "Expected value after variable name in 'set'"
  | printed => "Expected value after 'puts'"
  | argument => "Expected argument"

def GrammarFault.message : GrammarFault → String
  | noCommand found => "Expected command, got " ++ found.description
  | afterCommand found command =>
    "Unexpected " ++ found.description ++ " after '" ++ String.ofList command ++ "' command"
  | noTarget command => "Expected variable name after '" ++ String.ofList command.text ++ "'"
  | noWord operand found => operand.message ++ ", got " ++ found.description
  | noVariable => "Expected variable name after '$'"
  | openString => "Unterminated string"
  | openSubstitution => "Missing close-bracket"
  | noBody => "Expected block body after '\x7b'"
  | openBlock => "Missing close-brace"
  | noOperand found => "Expected operand, got " ++ found.description
  | openGroup => "Expected ')' after expression"
  | afterExpression found => "Unexpected " ++ found.description ++ " in expression"

/-- What would have been right in place of the token that was found (`ParseError.expected`). -/
def GrammarFault.expected : GrammarFault → String
  | noCommand _ => "command"
  | afterCommand _ _ => "end of statement"
  | noTarget _ | noVariable | noBody => (Lexeme.name []).description
  | noWord _ _ => "value"
  | openString => Symbol.rightQuote.description
  | openSubstitution => Symbol.rightBracket.description
  | openBlock => Symbol.rightBrace.description
  | noOperand _ => "number, name, variable or '('"
  | openGroup => Symbol.rightParen.description
  | afterExpression _ => "operator"

namespace Cause

/-- The wording of a cause, without its place. -/
def message : Cause → String
  | lexical fault => fault.message
  | grammar fault => fault.message
  | unboundVariable name => "can't read \"" ++ String.ofList name ++ "\": no such variable"
  | divisionByZero => "divide by zero"
  | unknownCommand name => "invalid command name \"" ++ String.ofList name ++ "\""
  | notNumeric text => "expected number but got \"" ++ String.ofList text ++ "\""
  | overflow digits => "integer value too large to represent: " ++ String.ofList digits
  | alreadyRun stage => "interpreter is " ++ stage.name ++ "; create a new one to run again"
  | noScript => "no parser set"
  | reported _ message _ => String.ofList message

/-- The family of a cause. -/
def family : Cause → Family
  | lexical _ => .lexical
  | grammar _ => .grammar
  | unboundVariable _ | divisionByZero | unknownCommand _ | notNumeric _ | overflow _ =>
    .evaluation
  | alreadyRun _ | noScript => .lifecycle
  | reported family _ _ => family

/-- The name of the kind of error, as it is printed in front of messages. -/
def kind : Cause → String
  | unboundVariable _ => "UnresolvedVariableError"
  | divisionByZero => "DivisionByZeroError"
  | unknownCommand _ => "UnknownCommandError"
  | notNumeric _ => "ValueCoercionError"
  | overflow _ => "IntegerOverflowError"
  | cause =>
    match cause.family with
    | .general => "TclError"
    | .lexical => "LexError"
    | .grammar => "ParseError"
    | .evaluation => "EvaluationError"
    | .lifecycle => "InterpreterStateError"

/-- What would have been right, where the grammar says so. -/
def expected : Cause → Option Text
  | grammar fault => some fault.expected.toList
  | reported _ _ expected => expected
  | _ => none

end Cause

/-- A cause and what is known of its place (`TclError`). -/
structure Diagnostic where
  cause : Cause
  line : Option Int := none
  column : Option Int := none
  filename : Option Text := none
deriving DecidableEq, Repr

namespace Diagnostic

/-- A diagnostic at a place of a script. -/
def ofCause (cause : Cause) (position : Position) : Diagnostic :=
  { cause, line := some position.line, column := some position.column }

/-- Fills in the line where none is known. The column comes with it, in place of one that was known
before, and is unknown again if none comes. -/
def place (d : Diagnostic) (line column : Option Int) : Diagnostic :=
  match d.line, line with
  | none, some line => { d with line := some line, column }
  | _, _ => d

/-- Adds the name of the script where none is known; an empty name counts as none. -/
def inFile (d : Diagnostic) (filename : Option Text) : Diagnostic :=
  match d.filename, filename with
  | none, some (c :: rest) | some [], some (c :: rest) => { d with filename := some (c :: rest) }
  | _, _ => d

/-- Fills in the line with its column, and the name of the script, where they are not known yet
(`TclError.locate`). Of what is known, a column without a line alone is lost. -/
def locate (d : Diagnostic) (line column : Option Int) (filename : Option Text) : Diagnostic :=
  (d.place line column).inFile filename

/-- The place in front of a message: file, line and column, as far as they are known
(`TclError._format_message`). -/
def placeText (d : Diagnostic) : Text :=
  let file := (d.filename.getD [])
  let line := match d.line, d.column with
    | none, _ => []
    | some line, none => Text.ofInt line
    | some line, some column => Text.ofInt line ++ ':' :: Text.ofInt column
  match file, line with
  | [], [] => []
  | [], line => "line ".toList ++ line ++ ": ".toList
  | file, [] => file ++ ": ".toList
  | file, line => file ++ ':' :: line ++ ": ".toList

/-- The message with its place in front. -/
def message (d : Diagnostic) : String := String.ofList d.placeText ++ d.cause.message

/-- Whether the fault arose while a command was carried out. -/
def isEvaluation (d : Diagnostic) : Bool := d.cause.family == .evaluation

end Diagnostic
end TinyTcl
