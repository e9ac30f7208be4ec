import TinyTcl.Program.Basic

/-! The variables that a script mentions: those that it reads, binds and removes, also in blocks and
substitutions. The words of a command that is not built in are not among them, as no such command
gets as far as its words. -/
namespace TinyTcl

mutual

/-- The variables that an operand mentions. -/
def Expr.mentions : Expr → List Text
  | .number _ _ | .word _ _ => []
  | .reference name _ => [name]
  | .quoted parts _ => Expr.joinMentions parts
  | .substitution commands _ => Command.sequenceMentions commands
  | .signed _ _ operand => operand.mentions
  | .binary left _ _ right => left.mentions ++ right.mentions
  | .group inner => inner.mentions

/-- The variables that operands mention. -/
def Expr.joinMentions : List Expr → List Text
  | [] => []
  | first :: rest => first.mentions ++ Expr.joinMentions rest

/-- The variables that a command mentions. -/
def Command.mentions : Command → List Text
  | .set _ target value => target :: value.mentions
  | .unset _ target => [target]
  | .puts _ value => value.mentions
  | .expr _ operand => operand.mentions
  | .block _ _ program => program.mentions
  | .invoke _ _ _ => []

/-- The variables that commands mention. -/
def Command.sequenceMentions : List Command → List Text
  | [] => []
  | first :: rest => first.mentions ++ Command.sequenceMentions rest

/-- The variables that a text mentions. -/
def Program.mentions : Program → List Text
  | .finish _ | .fault _ _ => []
  | .step _ command rest => command.mentions ++ rest.mentions

end

/-- The commands of a text without faults mention what the text mentions. -/
theorem Program.sequenceMentions_of_commands : (p : Program) → {commands : List Command} →
    p.commands = .ok commands → Command.sequenceMentions commands = p.mentions
  | .finish _, _, sound => by
    cases sound
    rw [Command.sequenceMentions, mentions]
  | .fault _ _, _, sound => by cases sound
  | .step _ command rest, _, sound => by
    cases later : rest.commands with
    | error d =>
      rw [commands, later] at sound
      cases sound
    | ok others =>
      rw [commands, later] at sound
      cases sound
      rw [Command.sequenceMentions, mentions, sequenceMentions_of_commands rest later]

end TinyTcl
