import Mathlib.Data.List.Perm.Subperm
import TinyTcl.Proofs.Evaluation.Recorded
import TinyTcl.Proofs.Session.Effect

/-! What a traced run leaves behind. Every run ends. The commands it carried out stand in the script
one behind the other, so none of them ran twice and there are no more than the script has characters
(`run_once`). Its trace is the log of the commands that ended well, in the order in which they did
(`trace_tells_history`). -/
namespace TinyTcl

/-- Commands that were carried out stand among those of the script in order, without a gap. -/
theorem History.Covers.prefix_occurrences {h : History} {cs : List Command} {complete : Bool}
    (covers : h.Covers cs complete) : h.commands <+: Command.sequenceOccurrences cs ∧
      (complete = true → h.commands = Command.sequenceOccurrences cs) := by
  induction covers with
  | all =>
    unfold Command.sequenceOccurrences
    exact ⟨List.prefix_rfl, fun _ => rfl⟩
  | cut rest => exact ⟨List.nil_prefix, nofun⟩
  | @failed c inside rest _ _ ih =>
    obtain ⟨others, whole⟩ := ih.1
    refine ⟨⟨others ++ Command.sequenceOccurrences rest, ?_⟩, nofun⟩
    rw [Command.sequenceOccurrences, c.occurrences_eq, ← whole]
    simp [History.commands]
  | @ended c inside later v rest _ _ _ within behind =>
    obtain ⟨others, whole⟩ := behind.1
    rw [History.commands, Command.sequenceOccurrences, c.occurrences_eq, within.2 rfl]
    refine ⟨⟨others, ?_⟩, fun all => ?_⟩
    · rw [← whole]
      simp
    · rw [behind.2 all]
      rfl

namespace Command.Ascend

variable {shows : Position → Text → Prop} {low high : Position} {cs ds : List Command}

private theorem atMost (h : Command.Ascend shows low cs high) : low.AtMost high := by
  induction cs generalizing low with
  | nil => exact h
  | cons c rest ih =>
    obtain ⟨here, _, next, before, later⟩ := h
    exact here.trans (before.atMost.trans (ih later))

/-- Commands that ascend stand each in front of the others, where they say. -/
theorem pairwise (h : Command.Ascend shows low cs high) :
    cs.Pairwise (fun c d => c.position.Before d.position) ∧
      ∀ c ∈ cs, low.AtMost c.position ∧ c.position.Before high ∧
        shows c.position c.token.text := by
  induction cs generalizing low with
  | nil => exact ⟨.nil, nofun⟩
  | cons c rest ih =>
    obtain ⟨here, shown, next, before, later⟩ := h
    obtain ⟨apart, places⟩ := ih later
    have behind : ∀ d ∈ rest, c.position.Before d.position := fun d inside =>
      before.trans_atMost (places d inside).1
    refine ⟨.cons behind apart, ?_⟩
    intro d inside
    rcases List.mem_cons.mp inside with rfl | inside
    · exact ⟨here, before.trans_atMost later.atMost, shown⟩
    · exact ⟨here.trans (behind d inside).atMost, (places d inside).2⟩

end Command.Ascend

/-- A script has no more places than characters, but for its end. -/
theorem length_le_of_places {source : Text} {start : Position} {places : List Position}
    (apart : places.Pairwise Position.Before)
    (inside : ∀ p ∈ places, p.Before (start.after source) ∧ ∃ s, source.Shows start p s) :
    places.length ≤ source.length := by
  have distinct : places.Nodup := apart.imp fun before same => by
    subst same
    exact Position.not_before_self _ before
  have among : places ⊆ (List.range source.length).map fun n => start.after (source.take n) := by
    intro p mem
    obtain ⟨early, s, before, behind, whole, rfl⟩ := inside p mem
    refine List.mem_map.mpr ⟨before.length, List.mem_range.mpr ?_, ?_⟩
    · rw [whole, List.length_append]
      refine Nat.lt_add_of_pos_right (List.length_pos_iff.mpr fun none => ?_)
      rw [whole, none, List.append_nil] at early
      exact Position.not_before_self _ early
    · rw [whole, List.take_left]
  simpa using (List.subperm_of_subset distinct among).length_le

section Program

variable (around : Surroundings) (last : Value) (p : Program) (m : Machine)

theorem Program.reached_evalFrom :
    (p.evalFrom around last).reached m = (p.run around last m).machine := by
  unfold Program.evalFrom Eval.reached
  dsimp only
  rcases p.run around last m with ⟨_ | _, _, _⟩ <;> rfl

private theorem Program.value?_evalFrom :
    ((p.evalFrom around last).value? m).isSome = (p.run around last m).failure.isNone := by
  unfold Program.evalFrom Eval.value?
  dsimp only
  rcases p.run around last m with ⟨_ | _, _, _⟩ <;> rfl

end Program

namespace Interpreter

/-- What a run without tracing would do: the commands it would begin, and their values. -/
def history (i : Interpreter) (s : Store) : History :=
  match i.reader with
  | none => .nil
  | some reader =>
    reader.program.history { i.surroundings s i.scope with tracing := false } (i.machine s i.scope)

/-- The last note of a run tells of no command. -/
theorem exists_log_run {i : Interpreter} (s : Store) {reader : Reader} (ready : i.stage = .ready)
    (script : i.reader = some reader) :
    ∃ notes, Untraced notes ∧
      (i.run s).log = (reader.program.run (i.surroundings s i.scope) i.result
        ((i.machine s i.scope).note [.started (scriptName i.filename)])).machine.log ++ notes := by
  have begins : ¬ i.stage ≠ .ready := fun other => other ready
  rw [run, if_neg begins, script]
  dsimp only
  generalize reader.program.run _ _ _ = p
  obtain ⟨failure, value, m⟩ := p
  cases failure with
  | none => exact ⟨_, by simp [Untraced, Event.isTraced], rfl⟩
  | some failure =>
    refine ⟨_, ?_, rfl⟩
    cases failure <;> simp [Untraced, Event.isTraced]

section Run

variable {i : Interpreter} {s : Store} {source : Text} {filename : Option Text} {depth : Nat}
  (ready : i.stage = .ready) (script : i.reader = some (Reader.ofText source filename .start))

include script in
private theorem history_eq : i.history s = (Grammar.program (.ofText source .start)).history
    { i.surroundings s i.scope with tracing := false } (i.machine s i.scope) := by
  rw [history, script]
  rfl

include ready script

/-- A run carries out the commands of its script, all of them if it ends well. -/
theorem covers_run (whole : (s.around i.scope).isWhole = true) :
    (i.run s).interpreter.stage = (if (i.run s).outcome.isOk then .done else .failed) ∧
      (i.history s).Covers (Grammar.program (.ofText source .start)).delivery.1
        (i.run s).outcome.isOk := by
  obtain ⟨notes, ending⟩ := ending_run s ready script
  have alike : Surroundings.Like False { i.surroundings s i.scope with tracing := false }
      (i.surroundings s i.scope) := ⟨rfl, rfl, .inr ⟨id, whole⟩⟩
  have same := Program.like_progress alike (Grammar.program (.ofText source .start)) i.result
    (i.machine s i.scope) ((i.machine s i.scope).note [.started (scriptName i.filename)])
    ⟨rfl, rfl, False.elim⟩
  have plain : { i.surroundings s i.scope with tracing := false }.tracing = false := rfl
  have covers := Program.covers plain i.result (Grammar.program (.ofText source .start))
    (i.machine s i.scope)
  rw [Program.value?_evalFrom, ← same.failure, ← history_eq script] at covers
  change (i.history s).Covers _
    ((Reader.ofText source filename .start).program.run _ _ _).failure.isNone at covers
  rw [ending]
  generalize (Reader.ofText source filename .start).program.run _ _ _ = q at covers
  obtain ⟨failure, value, m⟩ := q
  cases failure with
  | none => exact ⟨rfl, covers⟩
  | some failure => exact ⟨rfl, covers⟩

/-- A traced run notes the commands that it begins, and enters those that end well. -/
theorem records_run (tracing : i.tracing = true) (known : s.depth i.scope = .ok depth) :
    (i.run s).log.filter Event.isTraced =
        (i.history s).commands.map (Command.notice (scriptName i.filename)) ∧
      (i.run s).interpreter.trace = i.trace ++ (i.history s).entries depth := by
  have traced : Surroundings.TracedAs { i.surroundings s i.scope with tracing := false }
      (i.surroundings s i.scope) depth := ⟨rfl, tracing, rfl, rfl, known⟩
  have records := Program.records traced i.result (Grammar.program (.ofText source .start))
    (quiet_program source .start) (i.machine s i.scope)
    ((i.machine s i.scope).note [.started (scriptName i.filename)]) ⟨rfl, rfl, False.elim⟩
  rw [Program.reached_evalFrom, ← history_eq script] at records
  obtain ⟨notes, ending⟩ := ending_run s ready script
  obtain ⟨last, untraced, log⟩ := exists_log_run s ready script
  constructor
  · rw [log, List.filter_append, untraced.filter_eq_nil, List.append_nil]
    exact records.log
  · rw [ending]
    exact records.trace

/-- The commands that a run begins stand in its script one behind the other. -/
theorem places_run (whole : (s.around i.scope).isWhole = true) :
    (i.history s).commands.Pairwise (fun c d => c.position.Before d.position) ∧
      ∀ c ∈ (i.history s).commands, c.position.Before (Position.start.after source) ∧
        source.Shows .start c.position c.token.text := by
  have ascends := ascend_program source .start
  rw [Program.occurrences_eq] at ascends
  obtain ⟨apart, places⟩ := ascends.pairwise
  have among := (covers_run ready script whole).2.prefix_occurrences.1
  exact ⟨apart.sublist among.sublist, fun c begun => (places c (among.subset begun)).2⟩

end Run

end Interpreter

/-! ### A run begins no command twice -/

/-- A run of a script came to an end and began these commands, each once. -/
structure Turn.RunsOnce (i : Interpreter) (source : Text) (executed : List Command)
    (t : Turn Value) : Prop where
  ended : t.interpreter.stage = .done ∨ t.interpreter.stage = .failed
  /-- The log tells which commands were begun. -/
  log : t.log.filter Event.isTraced = executed.map (Command.notice (scriptName i.filename))
  /-- No two of them stand at the same place. -/
  ascend : executed.Pairwise fun c d => c.position.Before d.position
  /-- At the place of each its first token stands in the script. -/
  places : ∀ c ∈ executed, source.Shows .start c.position c.token.text
  few : executed.length ≤ source.length
  entries : t.interpreter.trace.length ≤ i.trace.length + executed.length

/-- **No command runs twice.** Let an interpreter that traces be ready to run a script, with all
scopes around its own there. Then the run comes to an end, well or with a failure. The commands that
it began, at the top level and in blocks, strings and substitutions, are those of which the log has a
note; each stands in the script behind the one begun before it, at the place of its first token. So
the trace grows by no more entries than the script has characters. -/
theorem run_once {i : Interpreter} {s : Store} {source : Text} {filename : Option Text}
    (ready : i.stage = .ready) (script : i.reader = some (Reader.ofText source filename .start))
    (tracing : i.tracing = true) (whole : (s.around i.scope).isWhole = true) :
    (i.run s).RunsOnce i source (i.history s).commands := by
  obtain ⟨depth, known⟩ := (Chain.depth_isOk_iff _).mpr whole
  obtain ⟨ended, _⟩ := Interpreter.covers_run ready script whole
  obtain ⟨log, trace⟩ := Interpreter.records_run ready script tracing known
  obtain ⟨apart, places⟩ := Interpreter.places_run ready script whole
  constructor
  · rw [ended]
    split
    · exact .inl rfl
    · exact .inr rfl
  · exact log
  · exact apart
  · exact fun c begun => (places c begun).2
  · have distinct : ((i.history s).commands.map Command.position).Pairwise Position.Before :=
      List.pairwise_map.mpr apart
    rw [← List.length_map Command.position]
    refine @length_le_of_places source .start _ distinct fun p here => ?_
    obtain ⟨c, begun, rfl⟩ := List.mem_map.mp here
    exact ⟨(places c begun).1, _, (places c begun).2⟩
  · rw [trace, List.length_append]
    exact Nat.add_le_add_left (History.length_entries_le _) _

/-- A script that fails in a block, behind a substitution. -/
theorem run_once_quotient :
    let source : Text := "set a [expr 6 * 7]\n\x7b expr $a / 0 \x7d\nputs $a".toList
    let i := Interpreter.ofScope (some (Reader.ofText source (some "a.tcl".toList) .start)) 0 true
      defaultBanner
    let s := (Store.empty.add none).2
    i.stage = .ready ∧ i.tracing = true ∧ (s.around i.scope).isWhole = true ∧
      (i.run s).RunsOnce i source (i.history s).commands := by
  intro source i s
  have script : i.reader = some (Reader.ofText source (some "a.tcl".toList) .start) := rfl
  have whole : (s.around i.scope).isWhole = true := rfl
  exact ⟨rfl, rfl, whole, run_once rfl script rfl whole⟩

/-! ### The trace tells what ended well -/

/-- A run of a script, in a scope with `depth` scopes around it, recorded this history. -/
structure Turn.Recorded (i : Interpreter) (source : Text) (depth : Nat) (h : History)
    (t : Turn Value) : Prop where
  /-- The run ended as its outcome says. -/
  ended : t.interpreter.stage = if t.outcome.isOk then .done else .failed
  /-- The history is one of carrying out the script, all of it if the run ended well. -/
  covers : h.Covers (Grammar.program (.ofText source .start)).delivery.1 t.outcome.isOk
  /-- The trace has an entry for each command that ended well, behind those of the commands in it. -/
  trace : t.interpreter.trace = i.trace ++ h.entries depth
  /-- The first token of a command stands in the script where its entry says. -/
  places : ∀ c ∈ h.commands, source.Shows .start c.position c.token.text

/-- **The trace is the log of completed commands.** Let an interpreter that traces be ready to run a
script, in a scope that has `depth` scopes around it. Then the trace of the run, whether it ends well
or not, tells the history of the run without tracing: it has one entry for each command that ended
well, at the top level, in substitutions, in strings and in blocks, in the order in which they ended,
so that a command comes behind those in it, and none for a command that failed or had a failure in
it. An entry gives the line where the first token of the command stands in the script, the name of the
command, the text of its value, and `depth` plus the number of blocks around it. -/
theorem trace_tells_history {i : Interpreter} {s : Store} {source : Text} {filename : Option Text}
    {depth : Nat} (ready : i.stage = .ready)
    (script : i.reader = some (Reader.ofText source filename .start)) (tracing : i.tracing = true)
    (known : s.depth i.scope = .ok depth) :
    (i.run s).Recorded i source depth (i.history s) := by
  have whole : (s.around i.scope).isWhole = true := (Chain.depth_isOk_iff _).mp ⟨depth, known⟩
  obtain ⟨ended, covers⟩ := Interpreter.covers_run ready script whole
  obtain ⟨_, trace⟩ := Interpreter.records_run ready script tracing known
  obtain ⟨_, places⟩ := Interpreter.places_run ready script whole
  exact ⟨ended, covers, trace, fun c begun => (places c begun).2⟩

/-- A script that fails in a string in a block, in a scope inside another. -/
theorem trace_tells_history_quotient :
    let source : Text := "set a [expr 6 * 7]\n\x7b puts \"[expr $a / 0]\" \x7d\nputs $a".toList
    let root := Interpreter.ofScope (some (Reader.ofText source none .start)) 0 true defaultBanner
    let i := (root.inChild (Store.empty.add none).2).1
    let s := (root.inChild (Store.empty.add none).2).2
    i.stage = .ready ∧ i.tracing = true ∧ s.depth i.scope = .ok 1 ∧
      (i.run s).Recorded i source 1 (i.history s) := by
  intro source root i s
  have script : i.reader = some (Reader.ofText source none .start) := rfl
  have known : s.depth i.scope = .ok 1 := rfl
  exact ⟨rfl, rfl, known, trace_tells_history rfl script rfl known⟩

/-- The block fails, so it has no entry; what was done in it before has one. -/
example :
    let source : Text := "set a [expr 6 * 7]\n\x7b unset a; expr $b \x7d".toList
    let i := Interpreter.ofScope (some (Reader.ofText source none .start)) 0 true []
    (i.run (Store.empty.add none).2).interpreter.trace =
      [⟨1, "expr".toList, "42".toList, 0⟩, ⟨1, "set".toList, "42".toList, 0⟩,
        ⟨2, "unset".toList, [], 1⟩] := by
  decide +kernel

end TinyTcl
