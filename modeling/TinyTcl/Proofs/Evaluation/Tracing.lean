import TinyTcl.Proofs.Evaluation.Unobserved
import TinyTcl.Proofs.Program.Readers
import TinyTcl.Session.Perform

/-! A traced run is the run. Tracing a command reads how deep the scope in use lies, which fails
only where a scope around it is gone; apart from that it adds to log and trace alone. So a script
that starts in a scope with all scopes around it comes to the same end with and without tracing,
also where it fails. Main statement: `Session.run_of_tracing`. -/
namespace TinyTcl

/-- The same progress, on machines that cannot be told apart. -/
structure Progress.Like (traced : Prop) (p q : Progress) : Prop where
  failure : q.failure = p.failure
  value : q.value = p.value
  machine : p.machine.Like traced q.machine

/-- Along a text the value of the last command that ended well stays the same as well. -/
theorem Program.like_progress {traced : Prop} {around around' : Surroundings}
    (h : around.Like traced around') (p : Program) (last : Value) (m m' : Machine)
    (same : m.Like traced m') :
    Progress.Like traced (p.run around last m) (p.run around' last m') := by
  induction p generalizing last m m' with
  | finish notes => exact ⟨rfl, rfl, same.note notes notes⟩
  | fault notes d => exact ⟨by simp only [run, h.filename], rfl, same.note notes notes⟩
  | step notes command rest ih =>
    have first := Eval.like_carryOut h command (Command.like_perform h command) (m.note notes)
      (m'.note notes) (same.note notes notes)
    cases here : Eval.carryOut around command (command.perform around) (m.note notes) with
    | ok value n =>
      cases there : Eval.carryOut around' command (command.perform around') (m'.note notes) with
      | ok value' n' =>
        rw [here, there] at first
        obtain ⟨rfl, same⟩ := first
        simp only [run, here, there]
        exact ih value' n n' same
      | error failure' n' =>
        rw [here, there] at first
        exact first.elim
    | error failure n =>
      cases there : Eval.carryOut around' command (command.perform around') (m'.note notes) with
      | ok value' n' =>
        rw [here, there] at first
        exact first.elim
      | error failure' n' =>
        rw [here, there] at first
        obtain ⟨rfl, same⟩ := first
        simp only [run, here, there]
        exact ⟨rfl, rfl, same⟩

namespace Interpreter

/-- The interpreter with tracing switched on or off. -/
def withTracing (i : Interpreter) (tracing : Bool) : Interpreter := { i with tracing }

/-- Interpreters that differ in what belongs to tracing alone. -/
def AlikeButTracing (i j : Interpreter) : Prop :=
  ∃ tracing trace, j = { i with tracing, trace }

/-- Turns that differ in their logs, and in what belongs to tracing, alone: they have the same
outcome, leave all scopes as they are with their bindings in the same order, and their interpreters
have reached the same stage, result and output. -/
structure SameTurn {α : Type} (t u : Turn α) : Prop where
  outcome : u.outcome = t.outcome
  store : u.store = t.store
  interpreter : AlikeButTracing t.interpreter u.interpreter

private theorem sameTurn_turn {α : Type} {i j : Interpreter} (alike : AlikeButTracing i j)
    (s : Store) (scope : ScopeId) (outcome : Except Failure α) {m m' : Machine}
    (same : m.Like False m') :
    SameTurn (i.turn s scope outcome m) (j.turn s scope outcome m') := by
  obtain ⟨tracing, trace, rfl⟩ := alike
  constructor
  · rfl
  · simp only [turn, same.bindings]
  · refine ⟨tracing, m'.trace, ?_⟩
    simp only [turn, same.output]

/-- How the run of a script ends, by its progress. -/
def Ending (i : Interpreter) (s : Store) (p : Progress) (t : Turn Value) : Prop :=
  ∃ notes, t = { i with
      result := p.value
      stage := p.failure.elim .done fun _ => .failed }.turn s i.scope
    (p.failure.elim (.ok p.value) fun failure =>
      .error (failure.mapDiagnostic (·.inFile i.filename))) (p.machine.note notes)

theorem ending_run {i : Interpreter} (s : Store) {reader : Reader} (ready : i.stage = .ready)
    (script : i.reader = some reader) :
    i.Ending s (reader.program.run (i.surroundings s i.scope) i.result
      ((i.machine s i.scope).note [.started (scriptName i.filename)])) (i.run s) := by
  have begins : ¬ i.stage ≠ .ready := fun other => other ready
  rw [run, if_neg begins, script]
  dsimp only
  generalize reader.program.run _ _ _ = p
  obtain ⟨failure, value, m⟩ := p
  cases failure with
  | none => exact ⟨_, by rw [← script]; rfl⟩
  | some failure => exact ⟨_, by rw [← script]; rfl⟩

private theorem Ending.sameTurn {i j : Interpreter} (alike : AlikeButTracing i j) {s : Store}
    {p q : Progress} {t u : Turn Value} (h : i.Ending s p t) (h' : j.Ending s q u)
    (same : p.Like False q) : SameTurn t u := by
  obtain ⟨tracing, trace, rfl⟩ := alike
  obtain ⟨notes, rfl⟩ := h
  obtain ⟨notes', rfl⟩ := h'
  rw [same.failure, same.value]
  exact sameTurn_turn ⟨tracing, trace, rfl⟩ s i.scope _ (same.machine.note notes notes')

/-- Interpreters that differ in tracing alone run alike, if no scope around theirs is gone. -/
theorem sameTurn_run (i : Interpreter) (tracing : Bool) (s : Store)
    (whole : (s.around i.scope).isWhole = true) :
    SameTurn (i.run s) ((i.withTracing tracing).run s) := by
  have alike : AlikeButTracing i (i.withTracing tracing) := ⟨tracing, i.trace, rfl⟩
  by_cases ready : i.stage = .ready
  · cases script : i.reader with
    | none =>
      have refused (j : Interpreter) (ready : j.stage = .ready) (script : j.reader = none) :
          j.run s = ⟨.error (.diagnostic { cause := .noScript }), j, s, []⟩ := by
        rw [run, if_neg (fun other => other ready), script]
      rw [refused i ready script, refused (i.withTracing tracing) ready script]
      exact ⟨rfl, rfl, alike⟩
    | some reader =>
      have around : (i.surroundings s i.scope).Like False
          ((i.withTracing tracing).surroundings s i.scope) :=
        ⟨rfl, rfl, .inr ⟨not_false, whole⟩⟩
      apply Ending.sameTurn alike (ending_run s ready script)
        (ending_run (i := i.withTracing tracing) s ready script)
      exact Program.like_progress around reader.program i.result _ _ ⟨rfl, rfl, False.elim⟩
  · rw [run, if_pos ready, run, if_pos (show (i.withTracing tracing).stage ≠ .ready from ready)]
    exact ⟨rfl, rfl, alike⟩

/-- Around a new scope inside a scope no scope is gone if that scope is there and none around it is
gone. -/
theorem isWhole_around_inChild (i : Interpreter) (s : Store) :
    ((i.inChild s).2.around (i.inChild s).1.scope).isWhole = (s.chain i.given).isWhole := by
  have newest : (i.inChild s).2.find? (i.inChild s).1.scope =
      some ⟨s.next, some i.given, .empty, .empty⟩ := by
    simp only [inChild, Store.add, Store.find?, List.find?_cons, BEq.rfl]
  rw [Store.around, newest]
  change (Store.chainIn (⟨s.next, some i.given, .empty, .empty⟩ :: s.scopes)
    (some i.given)).isWhole = _
  rw [Store.chainIn]
  split
  · rfl
  · rfl

end Interpreter

namespace Session

/-- Tracing has no part in how an interpreter is made. -/
theorem build_withTracing (s : Session) (setup : Setup) (tracing : Bool) :
    s.build { setup with tracing } =
      (((s.build setup).1.withTracing tracing), (s.build setup).2) := by
  unfold build
  dsimp only
  split
  all_goals
    split
    · rfl
    · rfl

/-- **Tracing changes nothing.** Let an interpreter be made, for any script under any name and with
any banner, in a scope or in a new scope inside it, and let no scope around the one it runs in be
gone. Then its run with tracing and its run without have the same outcome, be it a value or a
failure with its message and place, they leave the same scopes with the same bindings in the same
order, and they end at the same stage with the same result and output. -/
theorem run_of_tracing (s : Session) (setup : Setup)
    (whole : ((s.build setup).2.around (s.build setup).1.scope).isWhole = true) :
    let plain := s.build { setup with tracing := false }
    let traced := s.build { setup with tracing := true }
    Interpreter.SameTurn (plain.1.run plain.2) (traced.1.run traced.2) := by
  have built := build_withTracing s setup false
  have plain : s.build { setup with tracing := true } =
      ((s.build { setup with tracing := false }).1.withTracing true,
        (s.build { setup with tracing := false }).2) :=
    build_withTracing s { setup with tracing := false } true
  dsimp only
  rw [plain]
  apply Interpreter.sameTurn_run
  rw [built]
  exact whole

/-- A script that fails in a new scope inside a scope that is kept. -/
theorem run_of_tracing_quotient :
    let s := (empty.perform (.openRoot ['g'])).2
    let setup : Setup := {
      script := some "set a [expr 6 * 7]\nputs [expr {$a / 0}]".toList
      filename := some "a.tcl".toList
      scope := some ['g']
      inChild := true
      tracing := false
      banner := defaultBanner }
    ((s.build setup).2.around (s.build setup).1.scope).isWhole = true ∧
      Interpreter.SameTurn
        ((s.build { setup with tracing := false }).1.run (s.build { setup with tracing := false }).2)
        ((s.build { setup with tracing := true }).1.run
          (s.build { setup with tracing := true }).2) := by
  intro s setup
  have whole : ((s.build setup).2.around (s.build setup).1.scope).isWhole = true := by decide
  exact ⟨whole, run_of_tracing s setup whole⟩

end Session
end TinyTcl
