import TinyTcl.Proofs.Evaluation.Course
import TinyTcl.Proofs.Evaluation.Isolation

/-! Turns from the active scope. An interpreter that is not at work still has a scope active in it,
and that is where its next turn starts. Here turns work among all scopes: a run is running while it
is carried out, and is left as done or failed; a block makes another scope the active one for the
time that it takes. Behind every turn the same scope is active as in front of it, and from the scope
of the interpreter the turns are those of the interpreter (`Interpreter.turn_runFrom` and its
companions). -/
namespace TinyTcl

/-- A turn among all scopes: what came of it, the commands that were carried out, and the scope that
is active behind it. -/
structure LiveTurn where
  turn : Turn Value
  journal : List JournalEntry
  active : ScopeId

/-- Does something with another scope active. However it ends, the one that was active before is
active again. -/
def Live.within {α : Type} (scope : ScopeId) (act : Live α) : Live α := fun w =>
  match act { w with active := scope } with
  | .ok value after => .ok value { after with active := w.active }
  | .error failure after => .error failure { after with active := w.active }

/-- Carries out all that a text delivers among all scopes. -/
def Program.evalLive (p : Program) : Live Value := fun w => (p.live .empty w).result

namespace Interpreter

/-- The turn that ends in a world. All scopes that it opened are closed, and their numbers are free
again. -/
def endTurn (s : Store) (outcome : Except Failure Value) (w : World) : LiveTurn :=
  ⟨⟨outcome, w.interpreter, { w.store with next := s.next }, w.log⟩, w.journal, w.active⟩

/-- A turn that is refused. -/
def refuse (i : Interpreter) (s : Store) (active : ScopeId) (cause : Cause) : LiveTurn :=
  ⟨⟨.error (.diagnostic { cause }), i, s, []⟩, [], active⟩

/-- What is done from the active scope. -/
def actFrom (i : Interpreter) (s : Store) (active : ScopeId) (body : Live Value) : LiveTurn :=
  match body ⟨i, s, active, [], []⟩ with
  | .ok value w => endTurn s (.ok value) w
  | .error failure w => endTurn s (.error failure) w

/-- A run that is left while it is running has failed. -/
def leaveRun (i : Interpreter) : Interpreter :=
  if i.stage = .running then { i with stage := .failed } else i

/-- Runs the script from the active scope. -/
def runFrom (i : Interpreter) (s : Store) (active : ScopeId) : LiveTurn :=
  if i.stage ≠ .ready then i.refuse s active (.alreadyRun i.stage)
  else
    match i.reader with
    | none => i.refuse s active .noScript
    | some reader =>
      let name := scriptName i.filename
      let p := reader.program.live i.result
        ⟨{ i with stage := .running }, s, active, [.started name], []⟩
      let left := { p.world.interpreter with result := p.value }
      match p.failure with
      | none => endTurn s (.ok p.value)
          { p.world.note [.finished name] with interpreter := { left with stage := .done }.leaveRun }
      | some failure =>
        let notes := match failure with
          | .diagnostic d => [.stopped name d.message]
          | _ => []
        endTurn s (.error (failure.mapDiagnostic (·.inFile i.filename)))
          { p.world.note notes with interpreter := left.leaveRun }

/-- Carries a block out from the active scope, in a scope that is given, or in a new one inside that
of the interpreter. -/
def runBlockFrom (i : Interpreter) (s : Store) (active : ScopeId) (body : Block)
    (scope : Option ScopeId) : LiveTurn :=
  let program := (Reader.ofText body.text i.filename body.position).program
  match scope with
  | some scope => i.actFrom s active (Live.within scope program.evalLive)
  | none => i.actFrom s active (Live.within i.scope (Live.inChild program.evalLive))

/-- Reads a script to its end and carries it out from the active scope. -/
def executeTextFrom (i : Interpreter) (s : Store) (active : ScopeId) (t : Text)
    (filename : Option Text) : LiveTurn :=
  let reader := Reader.ofText t filename .start
  match reader.commands with
  | .ok commands =>
    let live := i.actFrom s active (Command.liveSequence .empty commands)
    { live with turn := { live.turn with log := reader.program.notes ++ live.turn.log } }
  | .error d => ⟨⟨.error (.diagnostic d), i, s, reader.program.notes⟩, [], active⟩

end Interpreter

/-! ### What a turn leaves -/

/-- The same interpreter, which has put out and traced more. -/
structure Interpreter.Grows (i j : Interpreter) : Prop where
  given : j.given = i.given
  scope : j.scope = i.scope
  tracing : j.tracing = i.tracing
  output : i.output <+: j.output
  trace : i.trace <+: j.trace

/-- The same interpreter at the same stage with the same result. -/
structure Interpreter.Keeps (i j : Interpreter) : Prop extends i.Grows j where
  stage : j.stage = i.stage
  result : j.result = i.result

theorem Interpreter.Keeps.refl (i : Interpreter) : i.Keeps i :=
  ⟨⟨rfl, rfl, rfl, List.prefix_rfl, List.prefix_rfl⟩, rfl, rfl⟩

private theorem World.Leads.keeps {w w' : World} (h : w.Leads w') :
    w.interpreter.Keeps w'.interpreter := by
  obtain ⟨output, trace, same⟩ := h.interpreter
  rw [same]
  exact ⟨⟨rfl, rfl, rfl, List.prefix_append _ _, List.prefix_append _ _⟩, rfl, rfl⟩

/-- No scope is missed on the way of a turn. -/
structure LiveTurn.Standing (t : LiveTurn) : Prop where
  outcome : t.turn.outcome ≠ .error .lostScope
  journal : ∀ e ∈ t.journal, e.Standing

/-- A turn that starts with `active` as the active scope and works in `scope` ends with the same
active scope, and where no scope around `scope` is gone, none is missed on the way. -/
structure LiveTurn.Sound (t : LiveTurn) (i : Interpreter) (s : Store) (active scope : ScopeId) :
    Prop where
  active : t.active = active
  grows : i.Grows t.turn.interpreter
  kept : s.Orderly → (s.chain scope).isWhole = true → t.Standing

namespace Interpreter

variable (i : Interpreter) (s : Store) (active scope : ScopeId)

/-- All commands of a turn have the scopes around them. -/
theorem standing_journal {log : List Event} {w : World}
    (leads : World.Leads ⟨i, s, active, log, []⟩ w) (orderly : s.Orderly)
    (whole : (s.chain active).isWhole = true) : ∀ e ∈ w.journal, e.Standing := by
  intro e inside
  rcases leads.journal ⟨orderly, whole⟩ e inside with before | standing
  · cases before
  · exact standing

private theorem sound_refuse (cause : Cause) : (i.refuse s active cause).Sound i s active scope :=
  ⟨rfl, (Keeps.refl i).toGrows, fun _ _ => ⟨nofun, nofun⟩⟩

section Act

variable {body : Live Value} (courses : body.Courses)

include courses

private theorem sound_actFrom : (i.actFrom s active body).Sound i s active active ∧
    i.Keeps (i.actFrom s active body).turn.interpreter := by
  have done := courses ⟨i, s, active, [], []⟩
  unfold actFrom
  generalize body ⟨i, s, active, [], []⟩ = result at done
  cases done with
  | ok value leads =>
    refine ⟨⟨leads.active, leads.keeps.toGrows, fun orderly whole => ?_⟩, leads.keeps⟩
    exact ⟨nofun, i.standing_journal s active leads orderly whole⟩
  | error leads kept =>
    refine ⟨⟨leads.active, leads.keeps.toGrows, fun orderly whole => ?_⟩, leads.keeps⟩
    refine ⟨fun same => kept ⟨orderly, whole⟩ (Except.error.inj same), ?_⟩
    exact i.standing_journal s active leads orderly whole

omit courses in
/-- A turn in another scope is the turn from there, behind which the active scope is put back. -/
theorem actFrom_within (body : Live Value) :
    i.actFrom s active (Live.within scope body) = { i.actFrom s scope body with active } := by
  unfold actFrom Live.within
  dsimp only
  cases body ⟨i, s, scope, [], []⟩ with
  | ok value w => rfl
  | error failure w => rfl

private theorem sound_within :
    (i.actFrom s active (Live.within scope body)).Sound i s active scope ∧
    i.Keeps (i.actFrom s active (Live.within scope body)).turn.interpreter := by
  obtain ⟨sound, keeps⟩ := i.sound_actFrom s scope courses
  rw [actFrom_within]
  refine ⟨⟨rfl, sound.grows, fun orderly whole => ?_⟩, keeps⟩
  obtain ⟨outcome, journal⟩ := sound.kept orderly whole
  exact ⟨outcome, journal⟩

end Act

theorem sound_runBlockFrom (body : Block) (inside : Option ScopeId) :
    (i.runBlockFrom s active body inside).Sound i s active (inside.getD i.scope) ∧
      i.Keeps (i.runBlockFrom s active body inside).turn.interpreter := by
  have eval : (Reader.ofText body.text i.filename body.position).program.evalLive.Courses :=
    fun w => (Program.passes_live .empty _ w).result
  unfold runBlockFrom
  cases inside with
  | none => exact i.sound_within s active i.scope (Live.courses_inChild eval)
  | some scope => exact i.sound_within s active scope eval

theorem sound_executeTextFrom (t : Text) (filename : Option Text) :
    (i.executeTextFrom s active t filename).Sound i s active active ∧
      i.Keeps (i.executeTextFrom s active t filename).turn.interpreter := by
  unfold executeTextFrom
  dsimp only
  split
  · next commands _ =>
    obtain ⟨sound, keeps⟩ := i.sound_actFrom s active (Command.courses_liveSequence .empty commands)
    refine ⟨⟨sound.active, sound.grows, fun orderly whole => ?_⟩, keeps⟩
    obtain ⟨outcome, journal⟩ := sound.kept orderly whole
    exact ⟨outcome, journal⟩
  · exact ⟨⟨rfl, (Keeps.refl i).toGrows, fun _ _ => ⟨nofun, nofun⟩⟩, .refl i⟩

omit s active scope in
private theorem Grows.leaveRun {i j : Interpreter} (h : i.Grows j) : i.Grows j.leaveRun := by
  unfold Interpreter.leaveRun
  split
  · exact ⟨h.given, h.scope, h.tracing, h.output, h.trace⟩
  · exact h

theorem sound_runFrom : (i.runFrom s active).Sound i s active active := by
  unfold runFrom
  split
  · exact i.sound_refuse s active active _
  split
  · exact i.sound_refuse s active active _
  next reader _ =>
  have passes := Program.passes_live i.result reader.program
    ⟨{ i with stage := .running }, s, active, [.started (scriptName i.filename)], []⟩
  dsimp only
  generalize reader.program.live _ _ = p at passes
  obtain ⟨failure, value, w⟩ := p
  obtain ⟨leads, kept⟩ := passes
  have keeps := leads.keeps
  have left (stage : Stage) : i.Grows { w.interpreter with result := value, stage } :=
    ⟨keeps.given, keeps.scope, keeps.tracing, keeps.output, keeps.trace⟩
  have standing (orderly : s.Orderly) (whole : (s.chain active).isWhole = true) :
      ∀ e ∈ w.journal, e.Standing :=
    standing_journal { i with stage := .running } s active leads orderly whole
  cases failure with
  | none =>
    exact ⟨leads.active, (left .done).leaveRun, fun orderly whole => ⟨nofun, standing orderly whole⟩⟩
  | some failure =>
    refine ⟨leads.active, (left _).leaveRun, fun orderly whole => ⟨?_, standing orderly whole⟩⟩
    have other : failure ≠ .lostScope := fun same => kept ⟨orderly, whole⟩ (congrArg some same)
    exact fun same => Failure.mapDiagnostic_ne_lostScope other _ (Except.error.inj same)

end Interpreter

/-! ### Turns from the scope of the interpreter -/

namespace Mirrors

variable {i : Interpreter} {s : Store} {a : ScopeId} {m : Machine} {w : World}

/-- A turn that ends in a world is the turn that the machine makes. -/
theorem endTurn (h : Mirrors i s a m w) (outcome : Except Failure Value) :
    (Interpreter.endTurn s outcome w).turn = i.turn s a outcome m := by
  have scopes : ({ w.store with next := s.next } : Store) = s.setBindings a m.bindings :=
    congrArg (Store.mk s.next) h.scopes
  unfold Interpreter.endTurn Interpreter.turn
  rw [scopes, h.interpreter, h.log]

/-- The stage and the result of an interpreter have no part in what it does. -/
theorem become (h : Mirrors i s a m w) (j : Interpreter) :
    Mirrors j s a m { w with interpreter := { j with output := m.output, trace := m.trace } } :=
  { h with interpreter := rfl }

end Mirrors

namespace Interpreter

variable (i : Interpreter) {s : Store} (orderly : s.Orderly)

include orderly

private theorem turn_actFrom {scope : ScopeId} (has : s.Has scope) {x : Surroundings → Eval Value}
    {y : Live Value} (h : MirrorsAct i s scope (x (i.surroundings s scope)) y) :
    (i.actFrom s scope y).turn = i.act s scope x := by
  have done := h _ _ (.start i orderly has [])
  unfold actFrom act
  change MirrorsResult i s scope (x (i.surroundings s scope) (i.machine s scope))
    (y ⟨i, s, scope, [], []⟩) at done
  generalize x _ (i.machine s scope) = left at done
  generalize y ⟨i, s, scope, [], []⟩ = right at done
  cases done with
  | ok value mirrors => exact mirrors.endTurn (.ok value)
  | error failure mirrors => exact mirrors.endTurn (.error failure)

theorem turn_runBlockFrom (active : ScopeId) (body : Block) {scope : Option ScopeId}
    (has : s.Has (scope.getD i.scope)) :
    (i.runBlockFrom s active body scope).turn = i.runBlock s body scope := by
  have eval (t : Store) (child : ScopeId) : MirrorsAct i t child
      ((Reader.ofText body.text i.filename body.position).program.eval (i.surroundings t child))
      (Reader.ofText body.text i.filename body.position).program.evalLive :=
    fun m w mirrors => (Program.mirrors_live i _ t child .empty m w mirrors).result
  unfold runBlockFrom runBlock
  dsimp only
  cases scope with
  | none =>
    dsimp only
    rw [actFrom_within]
    exact i.turn_actFrom orderly has (Live.mirrors_inChild eval)
  | some scope =>
    dsimp only
    rw [actFrom_within]
    exact i.turn_actFrom orderly has (eval s scope)

theorem turn_executeTextFrom (has : s.Has i.scope) (t : Text) (filename : Option Text) :
    (i.executeTextFrom s i.scope t filename).turn = i.executeText s t filename := by
  unfold executeTextFrom executeText
  dsimp only
  cases (Reader.ofText t filename .start).commands with
  | error d => rfl
  | ok commands =>
    have same : (i.actFrom s i.scope (Command.liveSequence .empty commands)).turn =
        i.execute s commands :=
      i.turn_actFrom orderly has (Command.mirrors_liveSequence i commands s i.scope .empty)
    dsimp only
    rw [same]

/-- Among all scopes, from its own one, an interpreter runs as it does by itself. -/
theorem turn_runFrom (has : s.Has i.scope) : (i.runFrom s i.scope).turn = i.run s := by
  unfold runFrom run
  by_cases other : i.stage ≠ .ready
  · rw [if_pos other, if_pos other]
    rfl
  rw [if_neg other, if_neg other]
  cases script : i.reader with
  | none => rfl
  | some reader =>
    have done := Program.mirrors_live { i with stage := .running } reader.program s i.scope i.result
      _ _ (.start _ orderly has [.started (scriptName i.filename)])
    change MirrorsProgress _ s i.scope (reader.program.run (i.surroundings s i.scope) i.result
      ((i.machine s i.scope).note [.started (scriptName i.filename)])) _ at done
    dsimp only
    rw [script] at done
    generalize reader.program.run _ _ _ = p at done ⊢
    generalize reader.program.live _ _ = q at done ⊢
    obtain ⟨_, _, m⟩ := p
    obtain ⟨failure, value, w⟩ := q
    obtain ⟨rfl, rfl, mirrors⟩ := done
    cases failure with
    | none =>
      rw [mirrors.interpreter, ← script]
      exact ((mirrors.note _).become { i with result := value, stage := .done }).endTurn _
    | some failure =>
      rw [mirrors.interpreter, ← script]
      exact ((mirrors.note _).become { i with result := value, stage := .failed }).endTurn _

end Interpreter

end TinyTcl
