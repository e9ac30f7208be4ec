import TinyTcl.Proofs.Evaluation.History

/-! What a script is called. The name of a script is told in diagnostics and in the log of a traced
run; no command can observe it. So without tracing a script does the same under any name, but for
the names in its diagnostics (`Program.unnamed_evalFrom`). -/
namespace TinyTcl

/-- The diagnostic without the name of the script. -/
def Diagnostic.unnamed (d : Diagnostic) : Diagnostic := { d with filename := none }

private theorem Diagnostic.unnamed_place (d : Diagnostic) (line column : Option Int) :
    (d.place line column).unnamed = d.unnamed.place line column := by
  obtain ⟨cause, here, _, _⟩ := d
  cases here <;> cases line <;> rfl

private theorem Reader.unnamed_inScript (filename : Option Text) (d : Diagnostic) :
    (inScript filename d).unnamed = d.unnamed := by
  obtain ⟨name, same⟩ := exists_inScript_eq filename d
  rw [same]
  rfl

/-- The same surroundings of a script that goes by another name. -/
def Surroundings.withName (around : Surroundings) (filename : Option Text) : Surroundings :=
  { around with filename }

namespace Eval

variable {α β : Type}

/-- Something, but for the names of scripts in its diagnostics. -/
def unnamed (x : Eval α) : Eval α := mapDiagnostic Diagnostic.unnamed x

private theorem unnamed_bind (x : Eval α) (f : α → Eval β) :
    unnamed (x >>= f) = unnamed x >>= fun a => unnamed (f a) := by
  funext m
  cases done : x m with
  | ok a m' =>
    have first : unnamed x m = .ok a m' := by rw [unnamed, mapDiagnostic, done]
    rw [bind_of_ok first, unnamed, mapDiagnostic, bind_of_ok done]
    rfl
  | error failure m' =>
    have first : unnamed x m = .error (failure.mapDiagnostic Diagnostic.unnamed) m' := by
      rw [unnamed, mapDiagnostic, done]
    rw [bind_of_error first, unnamed, mapDiagnostic, bind_of_error done]

private theorem unnamed_mapDiagnostic {change : Diagnostic → Diagnostic}
    (commutes : ∀ d, (change d).unnamed = change d.unnamed) (x : Eval α) :
    unnamed (mapDiagnostic change x) = mapDiagnostic change (unnamed x) := by
  funext m
  unfold unnamed mapDiagnostic
  cases x m with
  | ok a m' => rfl
  | error failure m' => cases failure <;> simp [Failure.mapDiagnostic, commutes]

private theorem unnamed_locate (c : Command) (d : Diagnostic) :
    (locate c d).unnamed = locate c d.unnamed := by
  unfold locate
  have same : d.unnamed.isEvaluation = d.isEvaluation := rfl
  rw [same]
  split
  · exact d.unnamed_place _ _
  · rfl

/-- Without tracing, carrying a command out depends on the name of the script as the command does. -/
theorem unnamed_carryOut {around around' : Surroundings} (plain : around.tracing = false)
    (plain' : around'.tracing = false) (c : Command) {act act' : Eval Value}
    (same : unnamed act' = unnamed act) :
    unnamed (carryOut around' c act') = unnamed (carryOut around c act) := by
  rw [carryOut_plain plain, carryOut_plain plain', unnamed_mapDiagnostic (unnamed_locate c),
    unnamed_mapDiagnostic (unnamed_locate c), same]

private theorem unnamed_inChild (around : Surroundings) (act : Surroundings → Eval α) :
    unnamed (inChild around act) = inChild around fun inside => unnamed (act inside) := by
  funext m
  unfold unnamed mapDiagnostic inChild
  dsimp only
  cases act { around with outer := .link m.bindings around.outer } { m with bindings := .empty } <;>
    rfl

/-- What is done in a new scope counts only in the surroundings found there. -/
theorem inChild_congr {around around' : Surroundings} {act act' : Surroundings → Eval α}
    (same : ∀ b, act' { around' with outer := .link b around'.outer } =
      act { around with outer := .link b around.outer }) :
    inChild around' act' = inChild around act := by
  funext m
  unfold inChild
  dsimp only
  rw [same m.bindings]

end Eval

mutual

theorem Expr.unnamed_eval {around : Surroundings} (plain : around.tracing = false)
    (filename : Option Text) : (e : Expr) →
    (e.eval (around.withName filename)).unnamed = (e.eval around).unnamed
  | .number _ _ | .word _ _ => by
    unfold Expr.eval
    rfl
  | .reference name _ => by
    unfold Expr.eval
    rfl
  | .quoted parts _ => by
    unfold Expr.eval
    simp only [Eval.unnamed_bind, Expr.unnamed_join plain filename parts]
  | .substitution commands _ => by
    unfold Expr.eval
    exact Command.unnamed_sequence plain filename .empty commands
  | .signed _ _ operand => by
    unfold Expr.eval
    simp only [Eval.unnamed_bind, operand.unnamed_eval plain filename]
  | .binary left _ _ right => by
    unfold Expr.eval
    simp only [Eval.unnamed_bind, left.unnamed_eval plain filename,
      right.unnamed_eval plain filename]
  | .group inner => by
    unfold Expr.eval
    exact inner.unnamed_eval plain filename

theorem Expr.unnamed_join {around : Surroundings} (plain : around.tracing = false)
    (filename : Option Text) : (es : List Expr) →
    (Expr.join (around.withName filename) es).unnamed = (Expr.join around es).unnamed
  | [] => by
    unfold Expr.join
    rfl
  | first :: rest => by
    unfold Expr.join
    simp only [Eval.unnamed_bind, first.unnamed_eval plain filename,
      Expr.unnamed_join plain filename rest]

theorem Command.unnamed_perform {around : Surroundings} (plain : around.tracing = false)
    (filename : Option Text) : (c : Command) →
    (c.perform (around.withName filename)).unnamed = (c.perform around).unnamed
  | .set _ target value => by
    unfold Command.perform
    simp only [Eval.unnamed_bind, value.unnamed_eval plain filename]
  | .unset _ _ | .invoke _ _ _ => by
    unfold Command.perform
    rfl
  | .puts _ value => by
    unfold Command.perform
    simp only [Eval.unnamed_bind, value.unnamed_eval plain filename]
  | .expr _ operand => by
    unfold Command.perform
    simp only [Eval.unnamed_bind, operand.unnamed_eval plain filename]
  | .block _ _ program => by
    unfold Command.perform
    change (Eval.inChild (around.withName filename) fun inside =>
      program.evalFrom inside .empty).unnamed =
        (Eval.inChild around fun inside => program.evalFrom inside .empty).unnamed
    rw [Eval.unnamed_inChild, Eval.unnamed_inChild]
    refine Eval.inChild_congr fun b => ?_
    have inside : { around with outer := Chain.link b around.outer }.tracing = false := plain
    exact Program.unnamed_evalFrom inside filename .empty program

theorem Command.unnamed_sequence {around : Surroundings} (plain : around.tracing = false)
    (filename : Option Text) (last : Value) : (cs : List Command) →
    (Command.sequence (around.withName filename) last cs).unnamed =
      (Command.sequence around last cs).unnamed
  | [] => by
    unfold Command.sequence
    rfl
  | first :: rest => by
    have here := @Eval.unnamed_carryOut around (around.withName filename) plain plain first _ _
      (first.unnamed_perform plain filename)
    unfold Command.sequence
    simp only [Eval.unnamed_bind, here, Command.unnamed_sequence plain filename _ rest]

/-- **Names of scripts are not observable.** Without tracing, a text does the same under any name,
but for the names in its diagnostics. -/
theorem Program.unnamed_evalFrom {around : Surroundings} (plain : around.tracing = false)
    (filename : Option Text) (last : Value) : (p : Program) →
    (p.evalFrom (around.withName filename) last).unnamed = (p.evalFrom around last).unnamed
  | .finish notes => rfl
  | .fault notes d => by
    funext m
    have same := (Reader.unnamed_inScript filename d).trans
      (Reader.unnamed_inScript around.filename d).symm
    simp only [Eval.unnamed, Eval.mapDiagnostic, Program.evalFrom, Program.run, Progress.result,
      Failure.mapDiagnostic, Surroundings.withName, same]
  | .step notes command rest => by
    have here := @Eval.unnamed_carryOut around (around.withName filename) plain plain command _ _
      (command.unnamed_perform plain filename)
    rw [Program.evalFrom_step, Program.evalFrom_step]
    simp only [Eval.unnamed_bind, here, Program.unnamed_evalFrom plain filename _ rest]

end

end TinyTcl
