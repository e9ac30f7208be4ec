import TinyTcl.Proofs.Evaluation.History

/-! What tracing records. Under tracing every command that is begun is noted in the log, and every
command that ends well has an entry in the trace, behind those of the commands in it; nothing else
adds to the trace, and to the notes of commands in the log. So log and trace tell the history of the
same evaluation without tracing (`Program.records`). -/
namespace TinyTcl

/-- The note that a command is about to be carried out. -/
def Command.notice (script : Text) (c : Command) : Event := .traced script c.position.line c.name

/-- What was done in between added this history to the trace and to the notes of commands. -/
structure Machine.Records (script : Text) (depth : Nat) (h : History) (m m' : Machine) : Prop where
  trace : m'.trace = m.trace ++ h.entries depth
  log : m'.log.filter Event.isTraced =
    m.log.filter Event.isTraced ++ h.commands.map (Command.notice script)

namespace Machine.Records

variable {script : Text} {depth : Nat} {h k : History} {m n o : Machine}

private theorem kept (trace : n.trace = m.trace)
    (log : n.log.filter Event.isTraced = m.log.filter Event.isTraced) :
    Machine.Records script depth .nil m n :=
  ⟨trace.trans (List.append_nil _).symm, log.trans (List.append_nil _).symm⟩

private theorem refl (m : Machine) : Machine.Records script depth .nil m m := kept rfl rfl

theorem append (first : Machine.Records script depth h m n)
    (last : Machine.Records script depth k n o) : Machine.Records script depth (h.append k) m o := by
  constructor
  · rw [last.trace, first.trace, History.entries_append, List.append_assoc]
  · rw [last.log, first.log, History.commands_append, List.map_append, List.append_assoc]

/-- What is done inside a command is recorded between its note and its entry. -/
theorem command {c : Command} {inside : History} (value : Option Value)
    (within : Machine.Records script (c.depthInside depth) inside (m.note [c.notice script]) n) :
    Machine.Records script depth (.cons c inside value .nil) m
      { n with trace := n.trace ++
          (value.map fun v => ⟨c.position.line, c.name, v.text, depth⟩).toList } := by
  constructor
  · change n.trace ++ _ = _
    rw [within.trace, Machine.note, List.append_assoc]
    simp only [History.entries, List.append_nil]
  · have noted : (m.note [c.notice script]).log.filter Event.isTraced =
        m.log.filter Event.isTraced ++ [c.notice script] := List.filter_append _ _
    change n.log.filter _ = _
    rw [within.log, noted, List.append_assoc]
    simp only [History.commands, List.append_nil, List.map_cons, List.singleton_append]

end Machine.Records

namespace Eval

section Silent

variable {α β : Type}

/-- Something adds neither to the trace nor to the notes of commands. -/
def Silent (y : Eval α) : Prop :=
  ∀ script depth m, Machine.Records script depth .nil m (y.reached m)

private theorem silent_pure (a : α) : Silent (pure a : Eval α) := fun _ _ m => .refl m

private theorem silent_throw (failure : Failure) : Silent (throw failure : Eval α) :=
  fun _ _ m => .refl m

private theorem silent_ofExcept (e : Except Failure α) : Silent (ofExcept e) := by
  cases e with
  | ok a => exact silent_pure a
  | error failure => exact silent_throw failure

private theorem silent_mapDiagnostic {y : Eval α} (h : y.Silent)
    (change : Diagnostic → Diagnostic) :
    Silent (mapDiagnostic change y) := by
  intro script depth m
  have done := h script depth m
  unfold reached mapDiagnostic at *
  revert done
  cases y m <;> exact id

private theorem silent_bind {y : Eval α} {f : α → Eval β} (h : y.Silent)
    (next : ∀ a, (f a).Silent) :
    Silent (y >>= f) := by
  intro script depth m
  have first := h script depth m
  cases done : y m with
  | ok a m' =>
    rw [reached_of_ok done] at first
    rw [reached_bind_of_ok done]
    exact first.append (next a script depth m')
  | error failure m' =>
    rw [reached_of_error done] at first
    rwa [reached_of_error (bind_of_error done)]

private theorem silent_lookup (around : Surroundings) (name : Text) :
    Silent (lookup around name) := by
  intro script depth m
  exact silent_ofExcept ((Chain.link m.bindings around.outer).lookup name) script depth m

private theorem silent_define (name : Text) (value : Value) : Silent (define name value) :=
  fun _ _ _ => .kept rfl rfl

private theorem silent_write (t : Text) : Silent (write t) := fun _ _ _ => .kept rfl rfl

private theorem silent_note {notes : List Event} (untraced : Untraced notes) :
    Silent (modify (·.note notes) : Eval Unit) := by
  intro _ _ m
  refine .kept rfl ?_
  change (m.log ++ notes).filter _ = _
  rw [List.filter_append, untraced.filter_eq_nil, List.append_nil]

private theorem silent_remove (around : Surroundings) (name : Text) :
    Silent (remove around name) := by
  have erased : Silent
      (modify fun m : Machine => { m with bindings := m.bindings.erase name } : Eval Unit) :=
    fun _ _ _ => .kept rfl rfl
  have noted : Silent (do note (.removed name (← ofExcept around.outer.depth)) : Eval Unit) := by
    refine silent_bind (silent_ofExcept _) fun depth => ?_
    have untraced : Untraced [.removed name depth] := by simp [Untraced, Event.isTraced]
    exact silent_note untraced
  intro script depth m
  change Machine.Records script depth .nil m
    (reached (if m.bindings.contains name then _ else _ : Eval Unit) m)
  split
  · exact silent_bind erased (fun _ => noted) script depth m
  · exact .refl m

end Silent

section Records

variable {α β : Type} {x y : Eval α} {f g : α → Eval β} {script : Text} {depth : Nat}
  {history later : Machine → History}

/-- Something adds to trace and log what these histories tell of the same without tracing, which
starts on a machine that commands cannot tell apart from its own. -/
def Records (script : Text) (depth : Nat) (history : Machine → History) (y : Eval α) : Prop :=
  ∀ m m', m.Like False m' → Machine.Records script depth (history m) m' (y.reached m')

private theorem Silent.records (h : y.Silent) : Records script depth (fun _ => .nil) y :=
  fun _ m' _ => h script depth m'

private theorem Records.bind (h : Records script depth history y) (alike : Like False x y)
    (next : ∀ a, Records script depth later (g a)) :
    Records script depth (fun m => (history m).append (x.afterwards later m)) (y >>= g) := by
  intro m m' same
  have first := h m m' same
  have met := alike m m' same
  dsimp only
  cases left : x m <;> cases right : y m' <;> rw [left, right] at met
  case ok.ok =>
    obtain ⟨rfl, same⟩ := met
    rw [reached_of_ok right] at first
    rw [afterwards_of_ok left, reached_bind_of_ok right]
    exact first.append (next _ _ _ same)
  case error.error =>
    rw [reached_of_error right] at first
    rwa [afterwards_of_error left, reached_of_error (bind_of_error right), History.append_nil]
  all_goals exact met.elim

private theorem Records.andThen (h : Records script depth history y) (next : ∀ a, (g a).Silent) :
    Records script depth history (y >>= g) := by
  intro m m' same
  have first := h m m' same
  cases done : y m' with
  | ok a n =>
    rw [reached_of_ok done] at first
    rw [reached_bind_of_ok done]
    have both := first.append (next a script depth n)
    rwa [History.append_nil] at both
  | error failure n =>
    rw [reached_of_error done] at first
    rwa [reached_of_error (bind_of_error done)]

end Records

end Eval

namespace Eval

section CarryOut

variable {around : Surroundings} {c : Command} {act : Eval Value} {m n : Machine} {depth : Nat}

private theorem carryOut_traced_of_ok (tracing : around.tracing = true)
    (known : around.outer.depth = .ok depth) {v : Value}
    (done : act (m.note [c.notice (scriptName around.filename)]) = .ok v n) :
    carryOut around c act m =
      .ok v { n with trace := n.trace ++ [⟨c.position.line, c.name, v.text, depth⟩] } := by
  have started : note (.traced (scriptName around.filename) c.position.line c.name) m =
      .ok () (m.note [c.notice (scriptName around.filename)]) := rfl
  have ended : mapDiagnostic (locate c) act (m.note [c.notice (scriptName around.filename)]) =
      .ok v n := by
    rw [mapDiagnostic, done]
  rw [carryOut_traced tracing known, bind_of_ok started, bind_of_ok ended]
  rfl

private theorem carryOut_traced_of_error (tracing : around.tracing = true)
    (known : around.outer.depth = .ok depth) {failure : Failure}
    (done : act (m.note [c.notice (scriptName around.filename)]) = .error failure n) :
    carryOut around c act m = .error (failure.mapDiagnostic (locate c)) n := by
  have started : note (.traced (scriptName around.filename) c.position.line c.name) m =
      .ok () (m.note [c.notice (scriptName around.filename)]) := rfl
  have ended : mapDiagnostic (locate c) act (m.note [c.notice (scriptName around.filename)]) =
      .error (failure.mapDiagnostic (locate c)) n := by
    rw [mapDiagnostic, done]
  rw [carryOut_traced tracing known, bind_of_ok started, bind_of_error ended]

private theorem afterwards_carryOut (plain : around.tracing = false) (later : Machine → History)
    (m : Machine) : (carryOut around c act).afterwards later m = act.afterwards later m := by
  cases done : act m with
  | ok v n => rw [afterwards_of_ok done, afterwards_of_ok (carryOut_of_ok plain done)]
  | error failure n =>
    rw [afterwards_of_error done, afterwards_of_error (carryOut_of_error plain done)]

end CarryOut

end Eval

/-- A script without tracing and with it, in a scope with `depth` scopes around it. -/
structure Surroundings.TracedAs (around around' : Surroundings) (depth : Nat) : Prop where
  plain : around.tracing = false
  traced : around'.tracing = true
  filename : around'.filename = around.filename
  outer : around'.outer = around.outer
  depth : around.outer.depth = .ok depth

namespace Surroundings.TracedAs

variable {around around' : Surroundings} {depth : Nat} (h : around.TracedAs around' depth)

include h

private theorem like : around.Like False around' :=
  ⟨h.filename, h.outer, .inr ⟨id, (Chain.depth_isOk_iff _).mp ⟨depth, h.depth⟩⟩⟩

private theorem inChild {m m' : Machine} (same : m.Like False m') :
    TracedAs { around with outer := .link m.bindings around.outer }
      { around' with outer := .link m'.bindings around'.outer } (depth + 1) := by
  refine ⟨h.plain, h.traced, h.filename, by rw [same.bindings, h.outer], ?_⟩
  rw [Chain.depth, h.depth]
  rfl

/-- Tracing a command records it: a note in front of what is done inside, and an entry behind, if the
command ends well. -/
theorem records_carryOut (c : Command) {act act' : Eval Value} (alike : Eval.Like False act act')
    {inside : Machine → History}
    (within : Eval.Records (scriptName around.filename) (c.depthInside depth) inside act') :
    Eval.Records (scriptName around.filename) depth
      (fun m => .cons c (inside m) (act.value? m) .nil) (Eval.carryOut around' c act') := by
  intro m m' same
  have known : around'.outer.depth = .ok depth := h.outer ▸ h.depth
  have noted : m.Like False (m'.note [c.notice (scriptName around.filename)]) :=
    ⟨same.bindings, same.output, False.elim⟩
  have done := within _ _ noted
  have met := alike _ _ noted
  rw [← h.filename] at done met
  dsimp only
  rw [← h.filename]
  cases left : act m <;>
    cases right : act' (m'.note [c.notice (scriptName around'.filename)]) <;>
    rw [left, right] at met
  case ok.ok v n w n' =>
    obtain ⟨rfl, _⟩ := met
    rw [Eval.reached_of_ok right] at done
    rw [Eval.value?_of_ok left, Eval.reached_of_ok (Eval.carryOut_traced_of_ok h.traced known right)]
    exact done.command (some w)
  case error.error failure n other n' =>
    rw [Eval.reached_of_error right] at done
    rw [Eval.value?_of_error left,
      Eval.reached_of_error (Eval.carryOut_traced_of_error h.traced known right)]
    have whole := done.command none
    simpa only [Option.map, Option.toList, List.append_nil] using whole
  all_goals exact met.elim

end Surroundings.TracedAs

mutual

/-- Tracing records what is done while an operand is evaluated. -/
theorem Expr.records {around around' : Surroundings} {depth : Nat}
    (h : around.TracedAs around' depth) : (e : Expr) → e.Quiet →
    Eval.Records (scriptName around.filename) depth (e.history around) (e.eval around')
  | .number _ _, _ | .word _ _, _ => by
    unfold Expr.eval Expr.history
    exact (Eval.silent_pure _).records
  | .reference name _, _ => by
    unfold Expr.eval Expr.history
    exact (Eval.silent_mapDiagnostic (Eval.silent_lookup _ name) _).records
  | .quoted parts _, quiet => by
    unfold Expr.eval Expr.history
    exact (Expr.joinRecords h parts quiet).andThen fun _ => Eval.silent_pure _
  | .substitution commands _, quiet => by
    unfold Expr.eval Expr.history
    exact Command.sequenceRecords h .empty commands quiet
  | .signed _ _ operand, quiet => by
    unfold Expr.eval Expr.history
    exact (operand.records h quiet).andThen fun _ => Eval.silent_ofExcept _
  | .binary left _ _ right, quiet => by
    unfold Expr.eval Expr.history
    exact (left.records h quiet.1).bind (Expr.like_eval h.like left) fun _ =>
      (right.records h quiet.2).andThen fun _ => Eval.silent_ofExcept _
  | .group inner, quiet => by
    unfold Expr.eval Expr.history
    exact inner.records h quiet

theorem Expr.joinRecords {around around' : Surroundings} {depth : Nat}
    (h : around.TracedAs around' depth) : (es : List Expr) → Expr.AllQuiet es →
    Eval.Records (scriptName around.filename) depth (Expr.joinHistory around es)
      (Expr.join around' es)
  | [], _ => by
    unfold Expr.join Expr.joinHistory
    exact (Eval.silent_pure _).records
  | first :: rest, quiet => by
    unfold Expr.join Expr.joinHistory
    exact (first.records h quiet.1).bind (Expr.like_eval h.like first) fun _ =>
      (Expr.joinRecords h rest quiet.2).andThen fun _ => Eval.silent_pure _

/-- Tracing records what is done inside a command, a scope further in for a block. -/
theorem Command.records {around around' : Surroundings} {depth : Nat}
    (h : around.TracedAs around' depth) : (c : Command) → c.Quiet →
    Eval.Records (scriptName around.filename) (c.depthInside depth) (c.inside around)
      (c.perform around')
  | .set _ target value, quiet => by
    unfold Command.perform Command.inside
    exact (value.records h quiet).andThen fun _ => Eval.silent_define target _
  | .unset _ target, _ => by
    unfold Command.perform Command.inside
    exact (Eval.silent_bind (Eval.silent_remove _ target) fun _ => Eval.silent_pure _).records
  | .puts _ value, quiet => by
    unfold Command.perform Command.inside
    exact (value.records h quiet).andThen fun _ =>
      Eval.silent_bind (Eval.silent_write _) fun _ => Eval.silent_pure _
  | .expr _ operand, quiet => by
    unfold Command.perform Command.inside
    exact (operand.records h quiet).andThen fun _ => Eval.silent_ofExcept _
  | .block _ _ program, quiet => by
    unfold Command.perform Command.inside
    intro m m' same
    have fresh : Machine.Like False { m with bindings := .empty } { m' with bindings := .empty } :=
      ⟨rfl, same.output, False.elim⟩
    have done := program.records (h.inChild same) .empty quiet _ _ fresh
    unfold Eval.inChild Eval.reached Program.evalFrom at *
    dsimp only at done ⊢
    revert done
    cases (program.run { around' with outer := .link m'.bindings around'.outer } .empty
      { m' with bindings := .empty }).result <;> exact fun done => ⟨done.trace, done.log⟩
  | .invoke _ _ _, _ => by
    unfold Command.perform Command.inside
    exact (Eval.silent_throw _).records

theorem Command.sequenceRecords {around around' : Surroundings} {depth : Nat}
    (h : around.TracedAs around' depth) (last : Value) : (cs : List Command) →
    Command.AllQuiet cs →
    Eval.Records (scriptName around.filename) depth (Command.sequenceHistory around cs)
      (Command.sequence around' last cs)
  | [], _ => by
    unfold Command.sequence Command.sequenceHistory
    exact (Eval.silent_pure _).records
  | first :: rest, quiet => by
    unfold Command.sequence Command.sequenceHistory
    have alike := Command.like_perform h.like first
    have both := (h.records_carryOut first alike (first.records h quiet.1)).bind
      (Eval.like_carryOut h.like first alike)
      fun value => Command.sequenceRecords h value rest quiet.2
    simpa only [Eval.afterwards_carryOut h.plain, History.append] using both

/-- **Tracing records histories.** Carried out under tracing, a text adds to the trace and to the
notes of commands the history of the same without tracing. -/
theorem Program.records {around around' : Surroundings} {depth : Nat}
    (h : around.TracedAs around' depth) (last : Value) : (p : Program) → p.Quiet →
    Eval.Records (scriptName around.filename) depth (p.history around) (p.evalFrom around' last)
  | .finish notes, quiet => by
    unfold Program.history
    exact (Eval.silent_note quiet).records
  | .fault notes d, quiet => by
    unfold Program.history
    exact (Eval.silent_note quiet).records
  | .step notes command rest, quiet => by
    rw [Program.evalFrom_step]
    unfold Program.history
    have alike := Command.like_perform h.like command
    have both := (h.records_carryOut command alike (command.records h quiet.2.1)).bind
      (Eval.like_carryOut h.like command alike)
      fun value => Program.records h value rest quiet.2.2
    simp only [Eval.afterwards_carryOut h.plain, History.append] at both
    exact (Eval.silent_note quiet.1).records.bind
      (.modify fun _ _ same => same.note notes notes) fun _ => both

end

end TinyTcl
