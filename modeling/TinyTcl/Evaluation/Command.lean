import TinyTcl.Evaluation.Basic
import TinyTcl.Value.Arithmetic

/-! The meaning of operands, commands and texts, by recursion on their structure. Operands are
evaluated from left to right, and the first failure ends everything. A text is carried out command
by command: what comes before a fault in it has its effect. -/
namespace TinyTcl

mutual

/-- The value of an operand (`TclInterpreter.visit_number` to `visit_group`). -/
def Expr.eval (around : Surroundings) : Expr → Eval Value
  | .number text _ | .word text _ => return .string text
  | .reference name position =>
    Eval.mapDiagnostic (·.place (some position.line) (some position.column))
      (Eval.lookup around name)
  | .quoted parts _ => return .string (← Expr.join around parts)
  | .substitution commands _ => Command.sequence around .empty commands
  | .signed sign position operand => do
    let value ← operand.eval around
    Eval.ofExcept (value.withSign sign (.ofPosition position))
  | .binary left operator position right => do
    let a ← left.eval around
    let b ← right.eval around
    Eval.ofExcept (Value.apply operator a b (.ofPosition position))
  | .group inner => inner.eval around

/-- The joined texts of operands (`TclInterpreter.visit_string`). -/
def Expr.join (around : Surroundings) : List Expr → Eval Text
  | [] => return []
  | first :: rest => do
    let value ← first.eval around
    return value.text ++ (← Expr.join around rest)

/-- What a command does, and its value (`TclInterpreter.visit_set` to `visit_invoke`). -/
def Command.perform (around : Surroundings) : Command → Eval Value
  | .set _ target value => do Eval.define target (← value.eval around)
  | .unset _ target => do
    Eval.remove around target
    return .empty
  | .puts _ value => do
    Eval.write ((← value.eval around).text ++ ['\n'])
    return .empty
  | .expr position operand => do
    let value ← operand.eval around
    Eval.ofExcept (value.toNumberValue (.ofPosition position))
  | .block _ _ program =>
    Eval.inChild around fun inside m => (program.run inside .empty m).result
  | .invoke position name _ => throw (.diagnostic (.ofCause (.unknownCommand name) position))

/-- Carries commands out one after another (`TclInterpreter.visit_script`). The value is that of the
last one, or `last` if there is none. -/
def Command.sequence (around : Surroundings) (last : Value) : List Command → Eval Value
  | [] => return last
  | first :: rest => do
    let value ← Eval.carryOut around first (first.perform around)
    Command.sequence around value rest

/-- Carries out all that a text delivers (the loops of `TclInterpreter.run` and `run_block`). -/
def Program.run (around : Surroundings) (last : Value) : Program → Machine → Progress
  | .finish notes, m => ⟨none, last, m.note notes⟩
  | .fault notes diagnostic, m =>
    ⟨some (.diagnostic (Reader.inScript around.filename diagnostic)), last, m.note notes⟩
  | .step notes command rest, m =>
    match Eval.carryOut around command (command.perform around) (m.note notes) with
    | .ok value m' => rest.run around value m'
    | .error failure m' => ⟨some failure, last, m'⟩

end

/-- Carries a command out (`TclInterpreter.execute`). -/
def Command.execute (around : Surroundings) (c : Command) : Eval Value :=
  Eval.carryOut around c (c.perform around)

/-- Carries out all that a text delivers, for the value of its last command. -/
def Program.eval (around : Surroundings) (p : Program) : Eval Value := fun m =>
  (p.run around .empty m).result

end TinyTcl
