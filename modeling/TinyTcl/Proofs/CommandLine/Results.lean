import TinyTcl.Proofs.CommandLine.Handover
import TinyTcl.Proofs.Evaluation.Batch
import TinyTcl.Proofs.Evaluation.Renamed
import TinyTcl.Proofs.Evaluation.Tracing

/-! What a command line shows of a script. The exit code and the output do not depend on where the
script comes from, nor on tracing and the detail of the log: every run shows what a run without
tracing shows in which the script has no name. And a script that has no outline does not run to its
end either. A command line that names a file shows what becomes of that file
(`Folder.shown_runFile`). Main statement: `Handover.shows_same`. -/
namespace TinyTcl

/-- The exit code and the output. -/
def Outcome.shown (o : Outcome) : Nat × String := (o.code, o.output)

/-- What is shown of a run, by how it ended and its output. -/
def shownOf : Except Failure Value → Text → Except Failure (Nat × String)
  | .ok value, output => .ok (0, String.ofList output ++
      if value.text.isEmpty then "" else String.ofList value.text ++ "\n")
  | .error (.diagnostic _), output => .ok (1, String.ofList output)
  | .error failure, _ => .error failure

/-- The diagnostic of a failure is not shown. -/
theorem shownOf_mapDiagnostic (change : Diagnostic → Diagnostic) (failure : Failure)
    (output : Text) :
    shownOf (.error (failure.mapDiagnostic change)) output = shownOf (.error failure) output := by
  cases failure <;> rfl

/-- What is shown of something that starts from a machine. -/
def Eval.shown (x : Eval Value) (m : Machine) : Except Failure (Nat × String) :=
  match x m with
  | .ok value m => shownOf (.ok value) m.output
  | .error failure m => shownOf (.error failure) m.output

/-- Names of scripts are not shown. -/
theorem Eval.shown_unnamed (x : Eval Value) (m : Machine) : x.unnamed.shown m = x.shown m := by
  unfold Eval.shown Eval.unnamed Eval.mapDiagnostic
  cases x m with
  | ok value m => rfl
  | error failure m => exact shownOf_mapDiagnostic _ failure m.output

section Program

variable {around around' : Surroundings} (last : Value) (p : Program)

private theorem Program.shown_evalFrom (m : Machine) : (p.evalFrom around last).shown m =
    shownOf ((p.run around last m).failure.elim (.ok (p.run around last m).value) .error)
      (p.run around last m).machine.output := by
  unfold Program.evalFrom Eval.shown
  dsimp only
  rcases p.run around last m with ⟨_ | _, _, _⟩ <;> rfl

/-- Traces and logs are not shown. -/
theorem Program.shown_of_like {traced : Prop} (h : around.Like traced around') {m m' : Machine}
    (same : m.Like traced m') :
    (p.evalFrom around' last).shown m' = (p.evalFrom around last).shown m := by
  have alike := p.like_progress h last m m' same
  rw [shown_evalFrom, shown_evalFrom, alike.failure, alike.value, alike.machine.output]

private theorem Interpreter.Ending.shownOf_eq {i : Interpreter} {s : Store} {m : Machine}
    {t : Turn Value} (h : i.Ending s (p.run around last m) t) :
    shownOf t.outcome t.interpreter.output = (p.evalFrom around last).shown m := by
  obtain ⟨notes, rfl⟩ := h
  rw [Program.shown_evalFrom]
  cases (p.run around last m).failure with
  | none => rfl
  | some failure => exact shownOf_mapDiagnostic _ failure _

end Program

/-- What is shown of a script that runs in a scope of its own, without tracing and without a name. -/
def Reader.shown (r : Reader) : Except Failure (Nat × String) :=
  (r.program.evalFrom ⟨false, none, .root⟩ .empty).shown ⟨.empty, defaultBanner, [], []⟩

namespace Options

private theorem map_shown_run_eq (o : Options) (r : Reader) :
    let turn := r.runScript o.trace
    (o.run r).map Outcome.shown = shownOf turn.outcome turn.interpreter.output := by
  unfold run
  dsimp only
  generalize r.runScript o.trace = turn
  rcases turn.outcome with (_ | _) | _ <;> rfl

/-- However a script is traced, logged and called, a run shows the same of it. -/
theorem map_shown_run (o : Options) (r : Reader) : (o.run r).map Outcome.shown = r.shown := by
  have ready : (Interpreter.ofScope (some r) 0 o.trace defaultBanner).stage = .ready := rfl
  have ending := Interpreter.ending_run (Store.empty.add none).2 ready rfl
  have untraced : Surroundings.Like False ⟨false, r.filename, .root⟩
      ⟨o.trace, r.filename, .root⟩ := ⟨rfl, rfl, .inr ⟨id, rfl⟩⟩
  have unnamed := congrArg (Eval.shown · ⟨.empty, defaultBanner, [], []⟩)
    (@Program.unnamed_evalFrom ⟨false, none, .root⟩ rfl r.filename .empty r.program)
  simp only [Eval.shown_unnamed] at unnamed
  have run := o.map_shown_run_eq r
  rw [Reader.shown, ← unnamed]
  refine run.trans ?_
  exact ending.shownOf_eq.trans (Program.shown_of_like _ _ untraced ⟨rfl, rfl, False.elim⟩)

/-- There is no outline of a script with a fault. -/
theorem exists_fault_of_code_outline {o : Options} {r : Reader} (failed : (o.outline r).code = 1) :
    ∃ d, r.program.delivery.2 = some d := by
  unfold outline Reader.commands at failed
  cases read : r.program.commands with
  | ok commands =>
    rw [read] at failed
    cases failed
  | error d => exact ⟨d, Program.commands_eq_error_iff.mp read⟩

end Options

/-- A script with a fault fails, with it or before. -/
theorem Program.failure_isSome_of_fault {p : Program} {d : Diagnostic}
    (fault : p.delivery.2 = some d) (around : Surroundings) (last : Value) (m : Machine) :
    (p.run around last m).failure.isSome = true := by
  rcases p.run_cases around last m m ⟨rfl, rfl, fun _ => rfl⟩ with
    ⟨_, _, _, _, _, _, _, _, _, ran, _⟩ | ⟨_, _, _, _, ran, _⟩
  · rw [ran]
    rfl
  · rw [ran, fault]
    rfl

private theorem Reader.code_of_fault {r : Reader} {d : Diagnostic}
    (fault : r.program.delivery.2 = some d) {code : Nat} {output : String}
    (shows : r.shown = .ok (code, output)) :
    code = 1 := by
  have fails := Program.failure_isSome_of_fault fault ⟨false, none, .root⟩ .empty
    ⟨.empty, defaultBanner, [], []⟩
  obtain ⟨failure, ends⟩ := Option.isSome_iff_exists.mp fails
  rw [Reader.shown, Program.shown_evalFrom, ends] at shows
  cases failure <;> cases shows
  rfl

/-! ### Ways to hand a script over -/

/-- A way to hand a script over: flags around what hands it over, and the files and the input that are
there. -/
structure Handover (script : Text) where
  before : List Flag
  source : Source
  after : List Flag
  file : Text → Except FileFault Text
  input : Text
  plain : source.IsPlain
  holds : source.Holds file input script

namespace Handover

variable {script : Text}

/-- The answer to the command line. -/
def answer (h : Handover script) : Except Failure Outcome :=
  respond (commandLine h.before h.source h.after) h.file h.input

/-- Some flag asks for the outline of the script instead of a run. -/
def outlines (h : Handover script) : Bool := (h.before ++ h.after).contains .ast

/-- A run shows what the script shows by itself. -/
theorem shown_answer (unix : '\r' ∉ script) {h : Handover script} (runs : h.outlines = false) :
    h.answer.map Outcome.shown = (Reader.ofText script none .start).shown := by
  have ast : (Options.ofCommandLine h.before h.source h.after).ast = false :=
    (Options.ast_commandLine _ _ _).trans runs
  rw [answer, respond_commandLine h.plain h.holds unix, Options.apply, ast]
  exact Options.map_shown_run _ _

private theorem answer_outlines (unix : '\r' ∉ script) {h : Handover script}
    (outlines : h.outlines = true) :
    ∃ o : Options, h.answer =
      .ok (o.outline (Reader.ofText script (some o.source.name) .start)) := by
  have ast : (Options.ofCommandLine h.before h.source h.after).ast = true :=
    (Options.ast_commandLine _ _ _).trans outlines
  rw [answer, respond_commandLine h.plain h.holds unix, Options.apply, ast]
  exact ⟨_, rfl⟩

/-- **How a script is handed over makes no difference to what it does.** Let a script without carriage
returns be handed over in two ways: as an argument that is not just two dashes, as the input or as a
file, with any flags. If both run it, they show the same: the same exit code and the same output, or
the same failure of the program. If one asks for the outline, it gets an answer; and if that has the
exit code 1, then so has the other where it runs the script and gets an answer. -/
theorem shows_same (unix : '\r' ∉ script) {h h' : Handover script} (runs : h'.outlines = false) :
    (h.outlines = false → h.answer.map Outcome.shown = h'.answer.map Outcome.shown) ∧
      (h.outlines = true → ∃ o, h.answer = .ok o ∧
        (o.code = 1 → ∀ o', h'.answer = .ok o' → o'.code = 1)) := by
  have shown := shown_answer unix runs
  constructor
  · intro runs'
    rw [shown, shown_answer unix runs']
  · intro outlines
    obtain ⟨o, answer⟩ := answer_outlines unix outlines
    refine ⟨_, answer, fun failed o' answer' => ?_⟩
    obtain ⟨d, fault⟩ := Options.exists_fault_of_code_outline failed
    rw [answer'] at shown
    exact Reader.code_of_fault fault shown.symm

/-- A script that fails behind its first command: as an argument with a log, from a file with tracing,
and as an outline. -/
theorem shows_same_fault :
    let script : Text := "puts a\nputs".toList
    let argument : Handover script :=
      ⟨[.letters 1], .argument script, [], fun _ => .error .missing, [], by decide, rfl⟩
    let file : Handover script :=
      ⟨[.trace], .file "prog.tcl".toList, [.verbose], fun _ => .ok script, [], by decide, rfl⟩
    let outline : Handover script :=
      ⟨[], .input, [.ast], fun _ => .error .missing, script, trivial, rfl⟩
    '\r' ∉ script ∧ file.outlines = false ∧ argument.outlines = false ∧ outline.outlines = true ∧
      argument.answer.map Outcome.shown = file.answer.map Outcome.shown ∧
      ∃ o, outline.answer = .ok o ∧ o.code = 1 ∧ ∃ o', file.answer = .ok o' ∧ o'.code = 1 := by
  intro script argument file outline
  have unix : '\r' ∉ script := by decide
  obtain ⟨same, _⟩ := @shows_same script unix argument file rfl
  obtain ⟨_, fails⟩ := @shows_same script unix outline file rfl
  obtain ⟨o, answer, stops⟩ := fails rfl
  have failed : outline.answer.map Outcome.code = .ok 1 := by decide +kernel
  have returns : file.answer.isOk = true := by decide +kernel
  rw [answer] at failed
  have failed : o.code = 1 := Except.ok.inj failed
  obtain ⟨o', answer'⟩ : ∃ o', file.answer = .ok o' := by
    cases h : file.answer with
    | ok o' => exact ⟨o', rfl⟩
    | error failure =>
      rw [h] at returns
      cases returns
  exact ⟨unix, rfl, rfl, rfl, same rfl, o, answer, failed, o', answer', stops failed o' answer'⟩

/-- Two dashes in an argument stand for no script, so there they do what no other way to hand them
over does. -/
theorem shows_other_of_dashes :
    (respond (commandLine [] (.argument "--".toList) []) (fun _ => .error .missing) []).map
        Outcome.shown = .ok (0, "Tcl> ") ∧
      (respond (commandLine [] .input []) (fun _ => .error .missing) "--".toList).map
        Outcome.shown = .ok (1, "Tcl> ") ∧
      (respond (commandLine [] (.file "prog.tcl".toList) []) (fun _ => .ok "--".toList) []).map
        Outcome.shown = .ok (1, "Tcl> ") := by
  decide +kernel

end Handover

/-! ### Scripts of files -/

/-- What is shown of a file that cannot be read. A path that no file can have stops the program. -/
def FileFault.shown (fault : FileFault) (path : Text) : Except Failure (Nat × String) :=
  if fault = .nullCharacter then .error (.unreadable path fault) else .ok (1, "")

namespace Folder

variable (f : Folder) {arguments : List Text} {o : Options} {path : Text}
  (asks : Options.ofTexts arguments = .ok (.run o)) (names : o.source = .file path) (input : Text)

include asks names

private theorem respond_of_content {content : Text} (read : f.read path = .ok content) :
    respond arguments f.read input = o.apply content.unifyLineEnds := by
  rw [respond, asks]
  dsimp only
  rw [names]
  dsimp only
  rw [read]

private theorem shown_of_fault {fault : FileFault} (read : f.read path = .error fault) :
    (respond arguments f.read input).map Outcome.shown = fault.shown path := by
  rw [respond, asks]
  dsimp only
  rw [names]
  dsimp only
  rw [read]
  cases fault <;> rfl

/-- **The program shows what becomes of a file.** A command line that asks for a run of a file shows
the outcome and the output of running that file, with tracing or without, whatever the detail of the
log; or that the file cannot be read. -/
theorem shown_runFile (runs : o.ast = false) (tracing : Bool) :
    (respond arguments f.read input).map Outcome.shown = match f.runFile path tracing with
      | .ok turn => shownOf turn.outcome turn.interpreter.output
      | .error (.unreadable path fault) => fault.shown path
      | .error failure => .error failure := by
  unfold runFile script
  cases read : f.read path with
  | ok content =>
    have shown := Options.map_shown_run_eq { o with trace := tracing }
      (Reader.ofText content.unifyLineEnds (some path) .start)
    rw [f.respond_of_content asks names input read, Options.apply, runs, names]
    rw [Options.map_shown_run] at shown
    exact (Options.map_shown_run _ _).trans shown
  | error fault => exact f.shown_of_fault asks names input read

/-- What is shown of the outline of a file is the outline of its commands, or that there is none. -/
theorem shown_parseFile (outlines : o.ast = true) :
    (respond arguments f.read input).map Outcome.shown = match f.parseFile path with
      | .ok commands => .ok (0, String.ofList (outline commands) ++ "\n")
      | .error (.unreadable path fault) => fault.shown path
      | .error _ => .ok (1, "") := by
  unfold parseFile script
  cases read : f.read path with
  | ok content =>
    rw [f.respond_of_content asks names input read, Options.apply, outlines, names]
    unfold Options.outline
    dsimp only [Source.name, Except.bind]
    cases (Reader.ofText content.unifyLineEnds (some path) .start).commands <;> rfl
  | error fault => exact f.shown_of_fault asks names input read

end Folder

end TinyTcl
