import TinyTcl.Diagnostic
import TinyTcl.Log

/-! Commands and their operands. A text delivers its commands one after another, up to its end or to
the fault that stops the reader; a `Program` is all that a text delivers. The statement `{ ... }`
keeps its text and holds the program that the text delivers, so that a fault in it comes to light
only when the block is run. -/
namespace TinyTcl

/-- The text between two braces and the place of its first character (`Block`). -/
structure Block where
  text : Text
  position : Position
deriving DecidableEq, Repr

mutual

/-- An operand: a word of a command, or an arithmetic expression (`Expression`). -/
inductive Expr where
  /-- A number literal; its token is the sign, if it has one. -/
  | number (text : Text) (token : Token)
  /-- Text that stands for itself. -/
  | word (text : Text) (token : Token)
  /-- The value of a variable. -/
  | reference (name : Text) (position : Position)
  /-- A quoted string, whose parts are joined. -/
  | quoted (parts : List Expr) (position : Position)
  /-- The value of the last of some commands. -/
  | substitution (commands : List Command) (position : Position)
  | signed (sign : Sign) (position : Position) (operand : Expr)
  | binary (left : Expr) (operator : Operator) (position : Position) (right : Expr)
  | group (inner : Expr)

/-- A statement (`Command`). -/
inductive Command where
  | set (position : Position) (target : Text) (value : Expr)
  | unset (position : Position) (target : Text)
  | puts (position : Position) (value : Expr)
  | expr (position : Position) (operand : Expr)
  | block (position : Position) (body : Block) (program : Program)
  /-- A command that is not built in. -/
  | invoke (position : Position) (name : Text) (arguments : List Expr)

/-- What a text delivers: commands in order, then its end or a fault. Each item carries the notes
that reading it leaves in the log. -/
inductive Program where
  | finish (notes : List Event)
  | fault (notes : List Event) (diagnostic : Diagnostic)
  | step (notes : List Event) (command : Command) (rest : Program)

end

/-- The token that an operand is reported at; a group is reported at its content. -/
def Expr.token : Expr → Token
  | .number _ token | .word _ token => token
  | .reference _ position => .ofSymbol .dollar position
  | .quoted _ position => .ofSymbol .leftQuote position
  | .substitution _ position => .ofSymbol .leftBracket position
  | .signed sign position _ => .ofSymbol sign.symbol position
  | .binary _ operator position _ => .ofSymbol operator.symbol position
  | .group inner => inner.token

namespace Command

/-- The first token of a command. -/
def token : Command → Token
  | set position _ _ => .ofSymbol .set position
  | unset position _ => .ofSymbol .unset position
  | puts position _ => .ofSymbol .puts position
  | expr position _ => .ofSymbol .expr position
  | block position _ _ => .ofSymbol .leftBrace position
  | invoke position name _ => ⟨.name name, position⟩

/-- Where a command begins. -/
def position (c : Command) : Position := c.token.position

/-- The name of a command in traces and messages (`Command.name`). -/
def name : Command → Text
  | block _ _ _ => "block".toList
  | c => c.token.text

end Command

namespace Program

/-- The commands of a text that delivers no fault. -/
def commands : Program → Except Diagnostic (List Command)
  | finish _ => .ok []
  | fault _ diagnostic => .error diagnostic
  | step _ command rest => return command :: (← commands rest)

/-- The notes of reading the whole text, without those of blocks that were not run. -/
def notes : Program → List Event
  | finish notes | fault notes _ => notes
  | step notes _ rest => notes ++ rest.notes

end Program
end TinyTcl
