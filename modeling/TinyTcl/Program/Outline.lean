import TinyTcl.Program.Basic

/-! The outline of a script: one line for each node of its commands, indented by two blanks for each
level. A group shows as its content. Texts that may hold anything are quoted, so that no text reads
as a line of its own. -/
namespace TinyTcl

/-- A line of an outline (`ASTPrinter._indent`). -/
def outlineLine (level : Nat) (label : Text) : Text := List.replicate (2 * level) ' ' ++ label

mutual

/-- The lines of an operand (`ASTPrinter.visit_number` to `visit_group`). -/
def Expr.outline (level : Nat) : Expr → List Text
  | .number text _ => [outlineLine level ("Number(".toList ++ text ++ [')'])]
  | .word text _ => [outlineLine level ("Word(".toList ++ text.quoted ++ [')'])]
  | .reference name _ => [outlineLine level ("Variable($".toList ++ name ++ [')'])]
  | .quoted parts _ => outlineLine level "String".toList :: Expr.outlines (level + 1) parts
  | .substitution commands _ =>
    outlineLine level "Substitution".toList :: Command.outlines (level + 1) commands
  | .signed sign _ operand =>
    outlineLine level ("Unary(".toList ++ sign.symbol.text ++ [')']) ::
      operand.outline (level + 1)
  | .binary left operator _ right =>
    outlineLine level ("Binary(".toList ++ operator.symbol.text ++ [')']) ::
      (left.outline (level + 1) ++ right.outline (level + 1))
  | .group inner => inner.outline level

/-- The lines of several operands. -/
def Expr.outlines (level : Nat) : List Expr → List Text
  | [] => []
  | first :: rest => first.outline level ++ Expr.outlines level rest

/-- The lines of a command (`ASTPrinter.visit_set` to `visit_invoke`). -/
def Command.outline (level : Nat) : Command → List Text
  | .set _ target value =>
    outlineLine level ("Set(".toList ++ target ++ [')']) :: value.outline (level + 1)
  | .unset _ target => [outlineLine level ("Unset(".toList ++ target ++ [')'])]
  | .puts _ value => outlineLine level "Puts".toList :: value.outline (level + 1)
  | .expr _ operand => outlineLine level "Expr".toList :: operand.outline (level + 1)
  | .block _ body _ => [outlineLine level ("Block(".toList ++ body.text.quoted ++ [')'])]
  | .invoke _ name arguments =>
    outlineLine level ("Invoke(".toList ++ name ++ [')']) :: Expr.outlines (level + 1) arguments

/-- The lines of several commands. -/
def Command.outlines (level : Nat) : List Command → List Text
  | [] => []
  | first :: rest => first.outline level ++ Command.outlines level rest

end

/-- The outline of a script (`ASTPrinter.visit_script`). Its commands are not indented. -/
def outline (commands : List Command) : Text :=
  "Script\n".toList ++ List.intercalate ['\n'] (Command.outlines 0 commands)

end TinyTcl
