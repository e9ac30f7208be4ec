import TinyTcl.Proofs.Evaluation.ReadBack
import TinyTcl.Proofs.Scope.Orderly

/-! Scripts of one command, run from their start in a scope that is there. Such a run does what the
command does (`Begins.run_of_perform`); a `set` command binds its name in the scope of the run and
leaves everything else as it was (`Begins.binds`). -/
namespace TinyTcl

namespace Interpreter

/-- An interpreter is about to run a script from its start, in a scope that exists. If it traces,
all scopes around that one must exist as well. -/
structure Begins (i : Interpreter) (s : Store) (source : Text) : Prop where
  fresh : ∃ filename, i.Fresh source filename
  orderly : s.Orderly
  has : s.Has i.scope
  traceable : (i.surroundings s i.scope).Traceable

/-- A run binds a name in its scope to the value that it ends with. It changes no other binding and
writes nothing. -/
structure Binds (i : Interpreter) (s : Store) (name : Text) (value : Value) : Prop where
  outcome : (i.run s).outcome = .ok value
  store : (i.run s).store = s.setBindings i.scope ((s.bindings i.scope).insert name value)
  bound : ((i.run s).store.bindings i.scope).find? name = some value
  output : (i.run s).interpreter.output = i.output
  stage : (i.run s).interpreter.stage = .done

/-- Without a fault, a run whose commands all end well ends as they do. -/
theorem Follows.endsAs {i : Interpreter} {s : Store} {filename : Option Text}
    {commands : List Command} {run : Turn Value} {value : Value}
    (h : i.Follows s filename commands none run)
    (all : (i.execute s commands).outcome = .ok value) :
    EndsAs run (i.execute s commands) .done value := by
  cases h with
  | @stopped _ _ k _ failure within before fails outcome ends =>
    have same := execute_append_of_error (commands.drop (k + 1)) fails
    rw [List.take_append_drop] at same
    rw [same, fails] at all
    cases all
  | done all' outcome ends =>
    cases all'.symm.trans all
    exact ends

theorem begins_ofScope {s : Store} (orderly : s.Orderly) {id : ScopeId} (has : s.Has id)
    (source : Text) (filename : Option Text) (banner : Text) :
    (ofScope (some (Reader.ofText source filename .start)) id false banner).Begins s source :=
  ⟨⟨filename, fresh_ofScope source filename id false banner⟩, orderly, has,
    fun tracing => by cases tracing⟩

namespace Begins

variable {i : Interpreter} {s : Store} {source : Text} {c : Command} {value : Value}
  (begins : i.Begins s source)

include begins

/-- What the script can see is the chain of the scope. -/
theorem scope_eq : (i.machine s i.scope).scope (i.surroundings s i.scope) = s.chain i.scope :=
  (begins.orderly.chain_eq begins.has).symm

/-- A run of one command that ends well. -/
theorem run_of_perform (read : (Grammar.program (.ofText source .start)).commands = .ok [c])
    {m : Machine}
    (h : c.perform (i.surroundings s i.scope) (i.machine s i.scope) = .ok value m) :
    (i.run s).outcome = .ok value ∧ (i.run s).store = s.setBindings i.scope m.bindings ∧
      (i.run s).interpreter.output = m.output ∧ (i.run s).interpreter.stage = .done := by
  obtain ⟨filename, fresh⟩ := begins.fresh
  obtain ⟨n, done, bindings, output⟩ := Command.execute_of_perform begins.traceable h
  have ran : Command.sequence (i.surroundings s i.scope) .empty [c] (i.machine s i.scope) =
      .ok value n := by
    rw [Command.sequence_cons_ok done, Command.sequence]
    rfl
  have follows := follows_run fresh s
  have sound : (Reader.ofText source filename .start).program.commands = .ok [c] := read
  rw [Program.delivery_of_commands sound] at follows
  have executed := execute_of_ok ran
  have ends := follows.endsAs (congrArg Turn.outcome executed)
  refine ⟨fresh.outcome_of_ok read ran, ?_, ?_, ?_⟩
  · rw [ends.store, executed, ← bindings]
    rfl
  · rw [ends.interpreter, executed, ← output]
    rfl
  · rw [ends.interpreter]

/-- A run of one command that fails. -/
theorem outcome_of_perform_error
    (read : (Grammar.program (.ofText source .start)).commands = .ok [c]) {d : Diagnostic}
    {m : Machine} (h : c.perform (i.surroundings s i.scope) (i.machine s i.scope) =
      .error (.diagnostic d) m) :
    ∃ d', (i.run s).outcome = .error (.diagnostic d') ∧ d'.cause = d.cause := by
  obtain ⟨filename, fresh⟩ := begins.fresh
  obtain ⟨n, fails, -⟩ := Command.execute_of_perform_error begins.traceable h
  refine ⟨_, fresh.outcome_of_error read (Command.sequence_cons_error fails), ?_⟩
  exact (Diagnostic.cause_inFile _ filename).trans (Eval.cause_locate c d)

/-- A run of one `set` command whose operand changes nothing. -/
theorem binds {p : Position} {name : Text} {e : Expr}
    (read : (Grammar.program (.ofText source .start)).commands = .ok [.set p name e])
    (h : e.eval (i.surroundings s i.scope) (i.machine s i.scope) =
      .ok value (i.machine s i.scope)) : i.Binds s name value := by
  have performed : (Command.set p name e).perform (i.surroundings s i.scope)
      (i.machine s i.scope) = .ok value { i.machine s i.scope with
        bindings := (s.bindings i.scope).insert name value } := by
    unfold Command.perform
    rw [Eval.bind_of_ok h]
    rfl
  obtain ⟨outcome, store, output, stage⟩ := begins.run_of_perform read performed
  refine ⟨outcome, store, ?_, output, stage⟩
  rw [store, begins.orderly.bindings_setBindings begins.has, Table.find?_insert, if_pos rfl]

end Begins

end Interpreter

/-- A variable has the value that the scopes in view give to its name. -/
theorem Expr.eval_of_lookup {around : Surroundings} {m : Machine} {name : Text} {value : Value}
    {p : Position} (found : (m.scope around).lookup name = .ok value) :
    (Expr.reference name p).eval around m = .ok value m := by
  unfold Expr.eval Eval.mapDiagnostic
  rw [Eval.lookup_eq, ← Machine.scope, found]
  rfl

end TinyTcl
