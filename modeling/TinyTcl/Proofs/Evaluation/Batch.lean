import TinyTcl.Interpreter
import TinyTcl.Proofs.Evaluation.Unobserved
import TinyTcl.Proofs.Program.Delivery

/-! A run reads and carries out a script statement by statement. It does what carrying out the
commands of the script in order does: reading a command depends on no command before it, and a fault
further on in the script comes to light only when all that stands before it has been carried out.
Main statement: `run_follows_delivery`. -/
namespace TinyTcl

section Sequence

variable {around : Surroundings} {first : Command} {m m' : Machine}

theorem Command.sequence_cons_ok {value : Value}
    (h : Eval.carryOut around first (first.perform around) m = .ok value m') {last : Value}
    {rest : List Command} :
    sequence around last (first :: rest) m = sequence around value rest m' := by
  rw [sequence, Eval.bind_of_ok h]

theorem Command.sequence_cons_error {failure : Failure}
    (h : Eval.carryOut around first (first.perform around) m = .error failure m') {last : Value}
    {rest : List Command} : sequence around last (first :: rest) m = .error failure m' := by
  rw [sequence, Eval.bind_of_error h]

end Sequence

/-- What fails in a part of some commands fails in all of them. -/
theorem Command.sequence_append_of_error {around : Surroundings} {failure : Failure}
    {m m' : Machine} {commands : List Command} (others : List Command) {last : Value}
    (h : sequence around last commands m = .error failure m') :
    sequence around last (commands ++ others) m = .error failure m' := by
  induction commands generalizing last m with
  | nil =>
    rw [sequence] at h
    cases h
  | cons first rest ih =>
    cases here : Eval.carryOut around first (first.perform around) m with
    | ok value n =>
      rw [sequence_cons_ok here] at h
      exact (sequence_cons_ok here).trans (ih h)
    | error failure' n =>
      rw [sequence_cons_error here] at h
      exact h ▸ sequence_cons_error here

/-- A program is carried out as its commands are, up to the first that fails, and then comes its
fault. The machines differ in their logs alone. -/
theorem Program.run_cases (around : Surroundings) (p : Program) (last : Value) (m m' : Machine)
    (same : m.Like True m') :
    (∃ k value failure n₀ n n', k < p.delivery.1.length ∧
      Command.sequence around last (p.delivery.1.take k) m' = .ok value n₀ ∧
      Command.sequence around last (p.delivery.1.take (k + 1)) m' = .error failure n' ∧
      p.run around last m = ⟨some failure, value, n⟩ ∧ n.Like True n') ∨
    ∃ value n n', Command.sequence around last p.delivery.1 m' = .ok value n' ∧
      p.run around last m = ⟨p.delivery.2.map fun d =>
        .diagnostic (Reader.inScript around.filename d), value, n⟩ ∧ n.Like True n' := by
  induction p generalizing last m m' with
  | finish notes =>
    exact .inr ⟨last, m.note notes, m', rfl, rfl, same.bindings, same.output, same.trace⟩
  | fault notes d =>
    exact .inr ⟨last, m.note notes, m', rfl, rfl, same.bindings, same.output, same.trace⟩
  | step notes command rest ih =>
    have noted : (m.note notes).Like True m' := ⟨same.bindings, same.output, same.trace⟩
    have first := Eval.like_carryOut (.refl around) command
      (Command.like_perform (.refl around) command) (m.note notes) m' noted
    cases here : Eval.carryOut around command (command.perform around) (m.note notes) with
    | error failure n =>
      cases there : Eval.carryOut around command (command.perform around) m' with
      | ok value n' =>
        rw [here, there] at first
        exact first.elim
      | error failure' n' =>
        rw [here, there] at first
        obtain ⟨rfl, same⟩ := first
        refine .inl ⟨0, last, failure', m', n, n', Nat.zero_lt_succ _, rfl, ?_, ?_, same⟩
        · exact Command.sequence_cons_error there
        · simp only [run, here]
    | ok value n =>
      cases there : Eval.carryOut around command (command.perform around) m' with
      | error failure n' =>
        rw [here, there] at first
        exact first.elim
      | ok value' n' =>
        rw [here, there] at first
        obtain ⟨rfl, same⟩ := first
        have goes (commands : List Command) :
            Command.sequence around last (command :: commands) m' =
              Command.sequence around value' commands n' :=
          Command.sequence_cons_ok there
        have continues : (step notes command rest).run around last m = rest.run around value' n := by
          simp only [run, here]
        rcases ih value' n n' same with
          ⟨k, value, failure, n₀, end', end'', within, before, fails, ran, same⟩ |
          ⟨value, end', end'', all, ran, same⟩
        · refine .inl ⟨k + 1, value, failure, n₀, end', end'', Nat.succ_lt_succ within, ?_, ?_, ?_,
            same⟩
          · exact (goes _).trans before
          · exact (goes _).trans fails
          · exact continues.trans ran
        · exact .inr ⟨value, end', end'', (goes _).trans all, continues.trans ran, same⟩

namespace Reader

/-- A fault that names its script names no other one. -/
theorem inFile_inScript (filename : Option Text) (d : Diagnostic) :
    (inScript filename d).inFile filename = inScript filename d := by
  obtain ⟨cause, line, column, name⟩ := d
  cases grammar : cause.family
  all_goals simp only [inScript, grammar]
  all_goals rcases filename with _ | _ | ⟨_, _⟩ <;> rcases name with _ | _ | ⟨_, _⟩ <;> rfl

end Reader

namespace Interpreter

/-- A script that is ready to run from its start, and has no result yet. -/
structure Fresh (i : Interpreter) (source : Text) (filename : Option Text) : Prop where
  ready : i.stage = .ready
  script : i.reader = some (Reader.ofText source filename .start)
  result : i.result = .empty

theorem fresh_ofScope (source : Text) (filename : Option Text) (scope : ScopeId) (tracing : Bool)
    (banner : Text) :
    (ofScope (some (Reader.ofText source filename .start)) scope tracing banner).Fresh source
      filename := ⟨rfl, rfl, rfl⟩

/-- The end of a run that did what carrying out some commands does: the same became of the scopes,
the output and the trace. -/
structure EndsAs (run batch : Turn Value) (stage : Stage)
    (result : Value) : Prop where
  store : run.store = batch.store
  interpreter : run.interpreter = { batch.interpreter with stage, result }

/-- A run does what carrying out the commands in order does, with the fault behind them. -/
inductive Follows (i : Interpreter) (s : Store) (filename : Option Text)
    (commands : List Command) : Option Diagnostic → Turn Value → Prop where
  /-- A command fails: those before it have been carried out, and nothing behind it. -/
  | stopped {fault : Option Diagnostic} {run : Turn Value} {k : Nat} {value : Value}
      {failure : Failure} (within : k < commands.length)
      (before : (i.execute s (commands.take k)).outcome = .ok value)
      (fails : (i.execute s (commands.take (k + 1))).outcome = .error failure)
      (outcome : run.outcome = .error (failure.mapDiagnostic (·.inFile filename)))
      (ends : EndsAs run (i.execute s (commands.take (k + 1))) .failed value) :
      Follows i s filename commands fault run
  /-- All commands have been carried out when the fault comes to light. -/
  | faulty {run : Turn Value} {d : Diagnostic} {value : Value}
      (all : (i.execute s commands).outcome = .ok value)
      (outcome : run.outcome = .error (.diagnostic d))
      (ends : EndsAs run (i.execute s commands) .failed value) :
      Follows i s filename commands (some d) run
  /-- The value is that of the last command. -/
  | done {run : Turn Value} {value : Value} (all : (i.execute s commands).outcome = .ok value)
      (outcome : run.outcome = .ok value)
      (ends : EndsAs run (i.execute s commands) .done value) :
      Follows i s filename commands none run

theorem execute_of_ok {i : Interpreter} {s : Store} {commands : List Command} {value : Value}
    {m : Machine} (h : Command.sequence (i.surroundings s i.scope) .empty commands
      (i.machine s i.scope) = .ok value m) :
    i.execute s commands = i.turn s i.scope (.ok value) m := by
  simp only [execute, act, h]

theorem execute_of_error {i : Interpreter} {s : Store} {commands : List Command}
    {failure : Failure} {m : Machine} (h : Command.sequence (i.surroundings s i.scope) .empty
      commands (i.machine s i.scope) = .error failure m) :
    i.execute s commands = i.turn s i.scope (.error failure) m := by
  simp only [execute, act, h]

theorem execute_append_of_error {i : Interpreter} {s : Store} {commands : List Command}
    {failure : Failure} (others : List Command)
    (h : (i.execute s commands).outcome = .error failure) :
    i.execute s (commands ++ others) = i.execute s commands := by
  cases ran : Command.sequence (i.surroundings s i.scope) .empty commands
      (i.machine s i.scope) with
  | ok value m =>
    rw [execute_of_ok ran] at h
    cases h
  | error failure m =>
    rw [execute_of_error ran, execute_of_error (Command.sequence_append_of_error others ran)]

private theorem Fresh.filename_eq {i : Interpreter} {source : Text} {filename : Option Text}
    (h : i.Fresh source filename) : i.filename = filename := by
  rw [Interpreter.filename, h.script]
  rfl

section Run

variable {i : Interpreter} {source : Text} {filename : Option Text} {value : Value} {m : Machine}

/-- The machine at the start of a run has taken a note. -/
def started (i : Interpreter) (s : Store) : Machine :=
  (i.machine s i.scope).note [.started (scriptName i.filename)]

private theorem run_of_failure (h : i.Fresh source filename) {s : Store} {failure : Failure}
    (ran : (Reader.ofText source filename .start).program.run (i.surroundings s i.scope) .empty
      (i.started s) = ⟨some failure, value, m⟩) :
    ∃ notes, i.run s = { i with result := value, stage := .failed }.turn s i.scope
      (.error (failure.mapDiagnostic (·.inFile filename))) (m.note notes) := by
  have ready : ¬ i.stage ≠ .ready := fun other => other h.ready
  obtain rfl := h.filename_eq
  rw [started] at ran
  rw [run, if_neg ready, h.script]
  simp only [h.result, ran]
  exact ⟨_, rfl⟩

private theorem run_of_success (h : i.Fresh source filename) {s : Store}
    (ran : (Reader.ofText source filename .start).program.run (i.surroundings s i.scope) .empty
      (i.started s) = ⟨none, value, m⟩) :
    ∃ notes, i.run s = { i with result := value, stage := .done }.turn s i.scope (.ok value)
      (m.note notes) := by
  have ready : ¬ i.stage ≠ .ready := fun other => other h.ready
  rw [started] at ran
  rw [run, if_neg ready, h.script]
  simp only [h.result, ran]
  exact ⟨_, rfl⟩

/-- What a turn leaves does not depend on notes. -/
theorem endsAs_turn {s : Store} {n n' : Machine} (same : n.Like True n') (stage : Stage)
    (notes : List Event) {outcome outcome' : Except Failure Value} :
    EndsAs ({ i with result := value, stage }.turn s i.scope outcome (n.note notes))
      (i.turn s i.scope outcome' n') stage value := by
  constructor
  · simp only [turn, Machine.note, same.bindings]
  · simp only [turn, Machine.note, same.output, same.trace trivial]

end Run

/-- A run follows what its script delivers. -/
theorem follows_run {i : Interpreter} {source : Text} {filename : Option Text}
    (fresh : i.Fresh source filename) (s : Store) :
    i.Follows s filename (Reader.ofText source filename .start).program.delivery.1
      ((Reader.ofText source filename .start).program.delivery.2.map (Reader.inScript filename))
      (i.run s) := by
  have named := fresh.filename_eq
  have same : (i.started s).Like True (i.machine s i.scope) := ⟨rfl, rfl, fun _ => rfl⟩
  rcases Program.run_cases (i.surroundings s i.scope)
      (Reader.ofText source filename .start).program .empty _ _ same with
    ⟨k, value, failure, n₀, n, n', within, before, fails, ran, same⟩ | ⟨value, n, n', all, ran, same⟩
  · obtain ⟨notes, run⟩ := run_of_failure fresh ran
    refine .stopped within (congrArg Turn.outcome (execute_of_ok before))
      (congrArg Turn.outcome (execute_of_error fails)) ?_ ?_
    · rw [run]
      rfl
    · rw [run, execute_of_error fails]
      exact endsAs_turn same _ _
  · have whole : (i.execute s (Reader.ofText source filename .start).program.delivery.1).outcome =
        .ok value := by
      rw [execute_of_ok all]
      rfl
    have around : (i.surroundings s i.scope).filename = filename := named
    cases ending : (Reader.ofText source filename .start).program.delivery.2 with
    | none =>
      rw [ending] at ran
      obtain ⟨notes, run⟩ := run_of_success fresh ran
      apply Follows.done whole
      · rw [run]
        rfl
      · rw [run, execute_of_ok all]
        exact endsAs_turn same _ _
    | some d =>
      rw [ending, around] at ran
      obtain ⟨notes, run⟩ := run_of_failure fresh ran
      apply Follows.faulty whole
      · rw [run]
        exact congrArg (Except.error ∘ Failure.diagnostic) (Reader.inFile_inScript filename d)
      · rw [run, execute_of_ok all]
        exact endsAs_turn same _ _

/-- Without a fault, a run and its batch have one outcome. -/
theorem Follows.outcome {i : Interpreter} {s : Store} {filename : Option Text}
    {commands : List Command} {run : Turn Value} (h : i.Follows s filename commands none run) :
    run.outcome =
        (i.execute s commands).outcome.mapError (·.mapDiagnostic (·.inFile filename)) ∧
      run.store = (i.execute s commands).store ∧
      run.interpreter.output = (i.execute s commands).interpreter.output := by
  cases h with
  | @stopped _ _ k value failure within before fails outcome ends =>
    have same := execute_append_of_error (commands.drop (k + 1)) fails
    rw [List.take_append_drop] at same
    rw [same, outcome, fails, ends.store, ends.interpreter]
    exact ⟨rfl, rfl, rfl⟩
  | done all outcome ends =>
    rw [outcome, all, ends.store, ends.interpreter]
    exact ⟨rfl, rfl, rfl⟩

/-- **A run is the batch of its commands.** What is delivered by reading the script alone decides
the run: it carries out the commands in order up to the first that fails, and else raises the fault
behind them, or gives the last value. Of a script without faults it makes what carrying out all its
commands makes of it. -/
theorem run_follows_delivery {i : Interpreter} {source : Text} {filename : Option Text}
    (fresh : i.Fresh source filename) (s : Store) :
    (∃ commands fault, (Reader.ofText source filename .start).Delivers commands fault) ∧
    (∀ commands fault, (Reader.ofText source filename .start).Delivers commands fault →
      i.Follows s filename commands fault (i.run s)) ∧
    ∀ commands, (Reader.ofText source filename .start).commands = .ok commands →
      (i.run s).outcome =
        (i.execute s commands).outcome.mapError (·.mapDiagnostic (·.inFile filename)) ∧
      (i.run s).store = (i.execute s commands).store ∧
      (i.run s).interpreter.output = (i.execute s commands).interpreter.output := by
  have delivers := Reader.delivers_program
    (.refl (Reader.ofText source filename .start).cursor)
  have follows := follows_run fresh s
  refine ⟨⟨_, _, delivers⟩, fun commands fault others => ?_, fun commands sound => ?_⟩
  · obtain ⟨rfl, rfl⟩ := delivers.unique others
    exact follows
  rw [Program.delivery_of_commands (Reader.commands_eq_ok.mp sound)] at follows
  exact follows.outcome

/-- A script that would end in a fault, but fails before. -/
theorem run_follows_delivery_quotient :
    (ofScope (some (Reader.ofText "puts a; expr 1 / 0\nputs [".toList (some "a.tcl".toList) .start))
      0 false defaultBanner).Fresh "puts a; expr 1 / 0\nputs [".toList (some "a.tcl".toList) ∧
    ∃ commands fault,
      (Reader.ofText "puts a; expr 1 / 0\nputs [".toList (some "a.tcl".toList) .start).Delivers
        commands fault ∧
      (ofScope (some (Reader.ofText "puts a; expr 1 / 0\nputs [".toList (some "a.tcl".toList)
        .start)) 0 false defaultBanner).Follows (Store.empty.add none).2 (some "a.tcl".toList)
        commands fault
        ((ofScope (some (Reader.ofText "puts a; expr 1 / 0\nputs [".toList (some "a.tcl".toList)
          .start)) 0 false defaultBanner).run (Store.empty.add none).2) := by
  have fresh := fresh_ofScope "puts a; expr 1 / 0\nputs [".toList (some "a.tcl".toList) 0 false
    defaultBanner
  obtain ⟨⟨commands, fault, delivers⟩, follows, _⟩ :=
    run_follows_delivery fresh (Store.empty.add none).2
  exact ⟨fresh, commands, fault, delivers, follows _ _ delivers⟩

end Interpreter

end TinyTcl
