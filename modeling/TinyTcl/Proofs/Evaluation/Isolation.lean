import TinyTcl.Proofs.Evaluation.Live
import TinyTcl.Proofs.Session.Sound

/-! Scopes are isolated. What happens among all scopes mirrors what the machine does, which holds
the bindings of one scope: at every moment the store is the one at the start but for the bindings of
the active scope (`Mirrors`). This goes through substitutions and strings, which stay in the scope,
and through blocks, which open one and close it (`Command.mirrors_live` and its companions, by one
induction along the trees). Main statement: `Session.scopes_isolated`. -/
namespace TinyTcl

/-- A command has left alone all scopes but the active one, and if it is a block, that one too. -/
structure JournalEntry.Isolated (e : JournalEntry) : Prop where
  others : ∀ id, e.before.Has id → id ≠ e.active →
    e.after.Has id ∧ e.after.bindings id = e.before.bindings id
  block : ∀ p body program, e.command = .block p body program →
    e.after.bindings e.active = e.before.bindings e.active

/-- A world that shows, among all scopes, what a machine has done in one of them: the store is the
one at the start with the bindings of the machine in that scope. All entries of its journal are
isolated. -/
structure Mirrors (i : Interpreter) (s : Store) (a : ScopeId) (m : Machine) (w : World) : Prop where
  orderly : s.Orderly
  has : s.Has a
  interpreter : w.interpreter = { i with output := m.output, trace := m.trace }
  active : w.active = a
  scopes : w.store.scopes = (s.setBindings a m.bindings).scopes
  next : s.next ≤ w.store.next
  log : w.log = m.log
  isolated : ∀ e ∈ w.journal, e.Isolated

namespace Mirrors

variable {i : Interpreter} {s : Store} {a : ScopeId} {m m' : Machine} {w w' : World}
  (h : Mirrors i s a m w)

include h

private theorem has_iff (id : ScopeId) : w.store.Has id ↔ s.Has id := by
  rw [Store.has_of_scopes h.scopes]
  exact Store.has_setBindings

private theorem has_active : w.store.Has w.active := by
  rw [h.has_iff, h.active]
  exact h.has

private theorem orderly_store : w.store.Orderly :=
  .of_scopes h.scopes (h.orderly.setBindings a m.bindings) h.next

private theorem has_parent : ∀ id ∈ some w.active, w.store.Has id := by
  rintro _ ⟨⟩
  exact h.has_active

private theorem bindings_active : w.store.bindings w.active = m.bindings := by
  rw [Store.bindings_of_scopes h.scopes, h.active]
  exact h.orderly.bindings_setBindings h.has

private theorem bindings_of_ne {id : ScopeId} (apart : id ≠ a) :
    w.store.bindings id = s.bindings id := by
  rw [Store.bindings_of_scopes h.scopes]
  exact Store.bindings_setBindings_of_ne apart

private theorem around_active : w.store.around w.active = s.around a := by
  rw [Store.around_of_scopes h.scopes, h.active]
  exact h.orderly.around_setBindings h.has

private theorem chain_active : w.store.chain w.active = .link m.bindings (s.around a) := by
  rw [h.orderly_store.chain_eq h.has_active, h.bindings_active, h.around_active]

theorem note (events : List Event) : Mirrors i s a (m.note events) (w.note events) :=
  { h with log := congrArg (· ++ events) h.log }

private theorem rebind (change : Bindings → Bindings) :
    Mirrors i s a { m with bindings := change m.bindings } (w.rebind change) := by
  refine { h with scopes := ?_ }
  unfold World.rebind
  rw [h.bindings_active, h.active, Store.setBindings_of_scopes h.scopes,
    Store.setBindings_setBindings]

private theorem write (t : Text) : Mirrors i s a { m with output := m.output ++ t }
    { w with interpreter := w.interpreter.write t } :=
  { h with interpreter := by rw [h.interpreter]; rfl }

private theorem enterTrace (entry : TraceEntry) :
    Mirrors i s a { m with trace := m.trace ++ [entry] }
      { w with interpreter := { w.interpreter with trace := w.interpreter.trace ++ [entry] } } :=
  { h with interpreter := by rw [h.interpreter] }

/-- A command changes the bindings of the active scope alone. -/
theorem enterJournal (h' : Mirrors i s a m' w') {c : Command}
    (block : ∀ p body program, c = .block p body program → m'.bindings = m.bindings) :
    Mirrors i s a m' (Live.enterJournal c w w') := by
  refine { h' with isolated := fun e inside => ?_ }
  rcases List.mem_append.mp inside with earlier | last
  · exact h'.isolated e earlier
  rw [List.mem_singleton.mp last]
  constructor
  · intro id before apart
    have apart : id ≠ a := h.active ▸ apart
    refine ⟨(h'.has_iff id).mpr ((h.has_iff id).mp before), ?_⟩
    exact (h'.bindings_of_ne apart).trans (h.bindings_of_ne apart).symm
  · intro p body program same
    have here : w'.active = w.active := h'.active.trans h.active.symm
    change w'.store.bindings w.active = w.store.bindings w.active
    rw [← here, h'.bindings_active, here, h.bindings_active, block p body program same]

end Mirrors

/-- A new scope that is closed again leaves the scopes as they were. -/
theorem Store.Orderly.scopes_close_add {s t : Store} (h : s.Orderly) {parent : Option ScopeId}
    (outer : ∀ id ∈ parent, s.Has id) {b : Bindings}
    (scopes : t.scopes = ((s.add parent).2.setBindings (s.add parent).1 b).scopes) :
    (t.close (s.add parent).1).scopes = s.scopes := by
  have older : s.scopes.filter (·.id != s.next) = s.scopes := by
    apply List.filter_eq_self.mpr
    intro scope inside
    simpa using Nat.ne_of_lt (h.known scope inside)
  have opened : t.scopes = ⟨s.next, parent, b, .empty⟩ :: s.scopes :=
    scopes.trans ((h.stands_add outer).setBindings b).scopes
  change t.scopes.filter (·.id != s.next) = s.scopes
  rw [opened, List.filter_cons_of_neg (by simp), older]

/-- The same outcome, in a world that mirrors the machine. -/
inductive MirrorsResult (i : Interpreter) (s : Store) (a : ScopeId) {α : Type} :
    EStateM.Result Failure Machine α → EStateM.Result Failure World α → Prop
  | ok (value : α) {m : Machine} {w : World} (mirrors : Mirrors i s a m w) :
    MirrorsResult i s a (.ok value m) (.ok value w)
  | error (failure : Failure) {m : Machine} {w : World} (mirrors : Mirrors i s a m w) :
    MirrorsResult i s a (.error failure m) (.error failure w)

/-- What happens in a world that mirrors a machine mirrors what the machine does. -/
def MirrorsAct (i : Interpreter) (s : Store) (a : ScopeId) {α : Type} (x : Eval α) (y : Live α) :
    Prop :=
  ∀ m w, Mirrors i s a m w → MirrorsResult i s a (x m) (y w)

namespace MirrorsAct

variable {i : Interpreter} {s : Store} {a : ScopeId} {α β : Type} {x : Eval α} {y : Live α}

private theorem pure (value : α) : MirrorsAct i s a (pure value : Eval α) (pure value) :=
  fun _ _ mirrors => .ok value mirrors

private theorem throw (failure : Failure) :
    MirrorsAct i s a (throw failure : Eval α) (throw failure) :=
  fun _ _ mirrors => .error failure mirrors

private theorem bind {f : α → Eval β} {g : α → Live β} (h : MirrorsAct i s a x y)
    (next : ∀ value, MirrorsAct i s a (f value) (g value)) :
    MirrorsAct i s a (x >>= f) (y >>= g) := by
  intro m w mirrors
  have first := h m w mirrors
  change MirrorsResult i s a (EStateM.bind x f m) (EStateM.bind y g w)
  unfold EStateM.bind
  generalize x m = left at first
  generalize y w = right at first
  cases first with
  | ok value mirrors => exact next value _ _ mirrors
  | error failure mirrors => exact .error failure mirrors

private theorem ofExcept (e : Except Failure α) :
    MirrorsAct i s a (Eval.ofExcept e) (Live.ofExcept e) := by
  cases e with
  | ok value => exact .pure value
  | error failure => exact .throw failure

private theorem modify {f : Machine → Machine} {g : World → World}
    (h : ∀ m w, Mirrors i s a m w → Mirrors i s a (f m) (g w)) :
    MirrorsAct i s a (modify f : Eval Unit) (modify g) :=
  fun m w mirrors => .ok () (h m w mirrors)

private theorem note (e : Event) : MirrorsAct i s a (Eval.note e) (Live.note e) :=
  .modify fun _ _ mirrors => mirrors.note [e]

private theorem mapDiagnostic (change : Diagnostic → Diagnostic) (h : MirrorsAct i s a x y) :
    MirrorsAct i s a (Eval.mapDiagnostic change x) (Live.mapDiagnostic change y) := by
  intro m w mirrors
  have first := h m w mirrors
  unfold Eval.mapDiagnostic Live.mapDiagnostic
  generalize x m = left at first
  generalize y w = right at first
  cases first with
  | ok value mirrors => exact .ok value mirrors
  | error failure mirrors => exact .error _ mirrors

end MirrorsAct

/-- What happens leaves the bindings of the scope in use as they were. -/
def Eval.KeepsBindings {α : Type} (act : Eval α) : Prop :=
  ∀ m, match act m with
    | .ok _ after | .error _ after => after.bindings = m.bindings

private theorem Eval.keepsBindings_inChild {α : Type} (around : Surroundings)
    (act : Surroundings → Eval α) : (inChild around act).KeepsBindings := by
  intro m
  unfold inChild
  dsimp only
  cases act { around with outer := .link m.bindings around.outer }
    { m with bindings := .empty } with
  | ok value after => rfl
  | error failure after => rfl

namespace Live

variable {i : Interpreter} {s : Store} {a : ScopeId} {α : Type}

private theorem mirrors_lookup (name : Text) :
    MirrorsAct i s a (Eval.lookup (i.surroundings s a) name) (lookup name) := by
  intro m w mirrors
  change MirrorsResult i s a (Eval.ofExcept ((Chain.link m.bindings (s.around a)).lookup name) m)
    (ofExcept ((w.store.chain w.active).lookup name) w)
  rw [mirrors.chain_active]
  exact MirrorsAct.ofExcept _ m w mirrors

private theorem mirrors_rebind (change : Bindings → Bindings) :
    MirrorsAct i s a
      (modify fun m : Machine => { m with bindings := change m.bindings } : Eval Unit)
      (modify fun w => w.rebind change) :=
  .modify fun _ _ mirrors => mirrors.rebind change

private theorem mirrors_define (name : Text) (value : Value) :
    MirrorsAct i s a (Eval.define name value) (define name value) :=
  (mirrors_rebind (·.insert name value)).bind fun _ => .pure value

private theorem mirrors_remove (name : Text) :
    MirrorsAct i s a (Eval.remove (i.surroundings s a) name) (remove name) := by
  intro m w mirrors
  have depth : w.store.depth w.active = (s.around a).depth :=
    congrArg Chain.depth mirrors.around_active
  have gone := (mirrors_rebind (i := i) (s := s) (a := a) (·.erase name)).bind fun _ =>
    (MirrorsAct.ofExcept (s.around a).depth).bind fun depth => .note (.removed name depth)
  change MirrorsResult i s a ((if m.bindings.contains name then _ else _ : Eval Unit) m)
    ((if (w.store.bindings w.active).contains name then _ else _ : Live Unit) w)
  rw [mirrors.bindings_active, depth]
  by_cases bound : m.bindings.contains name = true
  · rw [if_pos bound, if_pos bound]
    exact gone m w mirrors
  · rw [if_neg bound, if_neg bound]
    exact .ok () mirrors

private theorem mirrors_write (t : Text) : MirrorsAct i s a (Eval.write t) (write t) :=
  .modify fun _ _ mirrors => mirrors.write t

private theorem mirrors_record {c : Command} {x : Eval Value} {y : Live Value}
    (h : MirrorsAct i s a x y)
    (block : ∀ p body program, c = .block p body program → x.KeepsBindings) :
    MirrorsAct i s a x (record c y) := by
  intro m w mirrors
  have first := h m w mirrors
  have keeps p body program (same : c = .block p body program) := block p body program same m
  unfold record
  generalize x m = left at first keeps
  generalize y w = right at first
  cases first with
  | ok value after => exact .ok value (mirrors.enterJournal after keeps)
  | error failure after => exact .error failure (mirrors.enterJournal after keeps)

private theorem mirrors_carryOut {c : Command} {x : Eval Value} {y : Live Value}
    (h : MirrorsAct i s a x y)
    (block : ∀ p body program, c = .block p body program → x.KeepsBindings) :
    MirrorsAct i s a (Eval.carryOut (i.surroundings s a) c x) (carryOut c y) := by
  have recorded := (mirrors_record h block).mapDiagnostic (Eval.locate c)
  intro m w mirrors
  have depth : w.store.depth w.active = (s.around a).depth :=
    congrArg Chain.depth mirrors.around_active
  have tracing : w.interpreter.tracing = i.tracing := by rw [mirrors.interpreter]
  have filename : w.interpreter.filename = i.filename := by rw [mirrors.interpreter]; rfl
  change MirrorsResult i s a ((if i.tracing then _ else _ : Eval Value) m)
    ((if w.interpreter.tracing then _ else _ : Live Value) w)
  rw [tracing, depth, filename]
  by_cases traced : i.tracing = true
  · rw [if_pos traced, if_pos traced]
    refine ((MirrorsAct.ofExcept _).bind fun depth => (MirrorsAct.note _).bind fun _ =>
      recorded.bind fun value => ?_) m w mirrors
    have entered : MirrorsAct i s a _ _ := .modify fun _ _ mirrors =>
      mirrors.enterTrace ⟨c.position.line, c.name, value.text, depth⟩
    exact entered.bind fun _ => .pure value
  · rw [if_neg traced, if_neg traced]
    exact recorded m w mirrors

/-- A block opens a scope in which the machine can go on. -/
theorem mirrors_enter {m : Machine} {w : World} (h : Mirrors i s a m w) :
    Mirrors i (enter w).store (enter w).active { m with bindings := .empty } (enter w) := by
  have parent := h.has_parent
  have orderly : (enter w).store.Orderly := h.orderly_store.add parent
  have has : (enter w).store.Has (enter w).active := Store.has_add _
  have fresh : (enter w).store.bindings (enter w).active = .empty :=
    h.orderly_store.bindings_add parent
  have same := orderly.setBindings_self has
  rw [fresh] at same
  exact ⟨orderly, has, h.interpreter, rfl, by rw [same], Nat.le_refl _, h.log, h.isolated⟩

private theorem surroundings_enter {m : Machine} {w : World} (h : Mirrors i s a m w) :
    i.surroundings (enter w).store (enter w).active =
      { i.surroundings s a with outer := .link m.bindings (i.surroundings s a).outer } := by
  have around := h.orderly_store.around_add h.has_active
  rw [h.chain_active] at around
  exact congrArg (Surroundings.mk i.tracing i.filename) around

/-- Behind a block the scope that it opened is closed, and the others are as they were. -/
theorem mirrors_leave {m m' : Machine} {w after : World} (h : Mirrors i s a m w)
    (h' : Mirrors i (enter w).store (enter w).active m' after) :
    Mirrors i s a { m' with bindings := m.bindings } (leave w after) where
  orderly := h.orderly
  has := h.has
  interpreter := h'.interpreter
  active := h.active
  scopes := (h.orderly_store.scopes_close_add h.has_parent h'.scopes).trans h.scopes
  next := Nat.le_trans h.next (Nat.le_trans (Nat.le_succ _) h'.next)
  log := h'.log
  isolated := h'.isolated

theorem mirrors_inChild {x : Surroundings → Eval Value} {y : Live Value}
    (h : ∀ t child, MirrorsAct i t child (x (i.surroundings t child)) y) :
    MirrorsAct i s a (Eval.inChild (i.surroundings s a) x) (inChild y) := by
  intro m w mirrors
  have done := h _ _ _ _ (mirrors_enter mirrors)
  rw [surroundings_enter mirrors] at done
  unfold Eval.inChild inChild
  dsimp only
  generalize x _ { m with bindings := .empty } = left at done
  generalize y (enter w) = right at done
  cases done with
  | ok value after => exact .ok value (mirrors_leave mirrors after)
  | error failure after => exact .error failure (mirrors_leave mirrors after)

end Live

/-- The same progress, in a world that mirrors the machine. -/
structure MirrorsProgress (i : Interpreter) (s : Store) (a : ScopeId) (p : Progress) (q : Passage) :
    Prop where
  failure : q.failure = p.failure
  value : q.value = p.value
  world : Mirrors i s a p.machine q.world

theorem MirrorsProgress.result {i : Interpreter} {s : Store} {a : ScopeId} {p : Progress}
    {q : Passage} (h : MirrorsProgress i s a p q) : MirrorsResult i s a p.result q.result := by
  unfold Progress.result Passage.result
  rw [h.failure]
  cases p.failure with
  | none =>
    rw [h.value]
    exact .ok p.value h.world
  | some failure => exact .error failure h.world

private theorem Command.keepsBindings_of_block {around : Surroundings} {c : Command} (p : Position)
    (body : Block) (program : Program) (same : c = .block p body program) :
    (c.perform around).KeepsBindings := by
  rw [same, Command.perform]
  exact Eval.keepsBindings_inChild around _

mutual

/-- Operands do among all scopes what they do on the machine. -/
theorem Expr.mirrors_live (i : Interpreter) : (e : Expr) → (s : Store) → (a : ScopeId) →
    MirrorsAct i s a (e.eval (i.surroundings s a)) e.live
  | .number _ _, s, a | .word _ _, s, a => by
    unfold Expr.eval Expr.live
    exact .pure _
  | .reference name _, s, a => by
    unfold Expr.eval Expr.live
    exact (Live.mirrors_lookup name).mapDiagnostic _
  | .quoted parts _, s, a => by
    unfold Expr.eval Expr.live
    exact (Expr.mirrors_liveJoin i parts s a).bind fun _ => .pure _
  | .substitution commands _, s, a => by
    unfold Expr.eval Expr.live
    exact Command.mirrors_liveSequence i commands s a .empty
  | .signed _ _ operand, s, a => by
    unfold Expr.eval Expr.live
    exact (Expr.mirrors_live i operand s a).bind fun _ => .ofExcept _
  | .binary left _ _ right, s, a => by
    unfold Expr.eval Expr.live
    exact (Expr.mirrors_live i left s a).bind fun _ =>
      (Expr.mirrors_live i right s a).bind fun _ => .ofExcept _
  | .group inner, s, a => by
    unfold Expr.eval Expr.live
    exact Expr.mirrors_live i inner s a

theorem Expr.mirrors_liveJoin (i : Interpreter) : (es : List Expr) → (s : Store) → (a : ScopeId) →
    MirrorsAct i s a (Expr.join (i.surroundings s a) es) (Expr.liveJoin es)
  | [], s, a => by
    unfold Expr.join Expr.liveJoin
    exact .pure _
  | first :: rest, s, a => by
    unfold Expr.join Expr.liveJoin
    exact (Expr.mirrors_live i first s a).bind fun _ =>
      (Expr.mirrors_liveJoin i rest s a).bind fun _ => .pure _

/-- Commands do among all scopes what they do on the machine. -/
theorem Command.mirrors_live (i : Interpreter) : (c : Command) → (s : Store) → (a : ScopeId) →
    MirrorsAct i s a (c.perform (i.surroundings s a)) c.live
  | .set _ target value, s, a => by
    unfold Command.perform Command.live
    exact (Expr.mirrors_live i value s a).bind fun _ => Live.mirrors_define target _
  | .unset _ target, s, a => by
    unfold Command.perform Command.live
    exact (Live.mirrors_remove target).bind fun _ => .pure _
  | .puts _ value, s, a => by
    unfold Command.perform Command.live
    exact (Expr.mirrors_live i value s a).bind fun _ => (Live.mirrors_write _).bind fun _ => .pure _
  | .expr _ operand, s, a => by
    unfold Command.perform Command.live
    exact (Expr.mirrors_live i operand s a).bind fun _ => .ofExcept _
  | .block _ _ program, s, a => by
    unfold Command.perform Command.live
    apply Live.mirrors_inChild
    intro t child m w mirrors
    exact (Program.mirrors_live i program t child .empty m w mirrors).result
  | .invoke _ _ _, s, a => by
    unfold Command.perform Command.live
    exact .throw _

theorem Command.mirrors_liveSequence (i : Interpreter) : (cs : List Command) → (s : Store) →
    (a : ScopeId) → (last : Value) →
    MirrorsAct i s a (Command.sequence (i.surroundings s a) last cs)
      (Command.liveSequence last cs)
  | [], s, a, last => by
    unfold Command.sequence Command.liveSequence
    exact .pure _
  | first :: rest, s, a, last => by
    unfold Command.sequence Command.liveSequence
    exact (Live.mirrors_carryOut (Command.mirrors_live i first s a)
      Command.keepsBindings_of_block).bind fun value =>
        Command.mirrors_liveSequence i rest s a value

/-- A text does among all scopes what it does on the machine, as far as it gets. -/
theorem Program.mirrors_live (i : Interpreter) : (p : Program) → (s : Store) → (a : ScopeId) →
    (last : Value) → (m : Machine) → (w : World) → Mirrors i s a m w →
    MirrorsProgress i s a (p.run (i.surroundings s a) last m) (p.live last w)
  | .finish notes, s, a, last, m, w, mirrors => by
    unfold Program.run Program.live
    exact ⟨rfl, rfl, mirrors.note notes⟩
  | .fault notes d, s, a, last, m, w, mirrors => by
    have filename : w.interpreter.filename = i.filename := by rw [mirrors.interpreter]; rfl
    unfold Program.run Program.live
    exact ⟨by rw [filename]; rfl, rfl, mirrors.note notes⟩
  | .step notes command rest, s, a, last, m, w, mirrors => by
    have first := Live.mirrors_carryOut (Command.mirrors_live i command s a)
      Command.keepsBindings_of_block _ _ (mirrors.note notes)
    simp only [Program.run, Program.live]
    generalize Eval.carryOut _ command _ (m.note notes) = left at first
    generalize Live.carryOut command command.live (w.note notes) = right at first
    cases first with
    | ok value mirrors => exact Program.mirrors_live i rest s a value _ _ mirrors
    | error failure mirrors => exact ⟨rfl, rfl, mirrors⟩

end

/-- Turns with the same outcome and log, after which the interpreter and the scopes are the same. -/
structure Turn.Agrees {α : Type} (t u : Turn α) : Prop where
  outcome : t.outcome = u.outcome
  interpreter : t.interpreter = u.interpreter
  scopes : t.store.scopes = u.store.scopes
  log : t.log = u.log

/-- What happens among all scopes comes to the same as a turn, and every command that is carried out
is isolated. -/
structure Turn.Isolated (t : Turn Value) (live : Turn Value × List JournalEntry) : Prop where
  agrees : live.1.Agrees t
  isolated : ∀ e ∈ live.2, e.Isolated

namespace Mirrors

variable {i : Interpreter} {s : Store} {a : ScopeId} {m : Machine} {w : World}

theorem start (i : Interpreter) (orderly : s.Orderly) (has : s.Has a) (events : List Event) :
    Mirrors i s a ((i.machine s a).note events) ⟨i, s, a, events, []⟩ :=
  ⟨orderly, has, rfl, rfl, congrArg Store.scopes (orderly.setBindings_self has).symm,
    Nat.le_refl _, rfl, by simp⟩

private theorem isolated_turn (h : Mirrors i s a m w) (outcome : Except Failure Value) :
    (i.turn s a outcome m).Isolated (Interpreter.turnOf outcome w, w.journal) :=
  ⟨⟨rfl, h.interpreter, h.scopes, h.log⟩, h.isolated⟩

/-- The interpreter changes its stage and its result at the end of a run. -/
theorem isolated_end (h : Mirrors i s a m w) (outcome : Except Failure Value) (stage : Stage)
    (result : Value) (notes : List Event) :
    ({ i with result, stage }.turn s a outcome (m.note notes)).Isolated
      (Interpreter.turnOf outcome
        { w.note notes with interpreter := { w.interpreter with result, stage } }, w.journal) :=
  ⟨⟨rfl, by rw [h.interpreter]; rfl, h.scopes, (h.note notes).log⟩, h.isolated⟩

end Mirrors

namespace Interpreter

variable (i : Interpreter) {s : Store} (orderly : s.Orderly)

include orderly

/-- Commands that are carried out in a scope are isolated. -/
theorem isolated_act {scope : ScopeId} (has : s.Has scope) (commands : List Command) :
    (i.act s scope fun around => Command.sequence around .empty commands).Isolated
      (i.actLive s scope (Command.liveSequence .empty commands)) := by
  have done : MirrorsResult i s scope
      (Command.sequence (i.surroundings s scope) .empty commands (i.machine s scope))
      (Command.liveSequence .empty commands ⟨i, s, scope, [], []⟩) :=
    Command.mirrors_liveSequence i commands s scope .empty _ _ (.start i orderly has [])
  unfold act actLive
  dsimp only
  generalize Command.sequence _ .empty commands _ = left at done
  generalize Command.liveSequence .empty commands _ = right at done
  cases done with
  | ok value mirrors => exact mirrors.isolated_turn (.ok value)
  | error failure mirrors => exact mirrors.isolated_turn (.error failure)

/-- The commands of a run are isolated. -/
theorem isolated_run (has : s.Has i.scope) : (i.run s).Isolated (i.runLive s) := by
  rw [run, runLive]
  by_cases other : i.stage ≠ .ready
  · rw [if_pos other, if_pos other]
    exact ⟨⟨rfl, rfl, rfl, rfl⟩, by simp⟩
  rw [if_neg other, if_neg other]
  cases script : i.reader with
  | none => exact ⟨⟨rfl, rfl, rfl, rfl⟩, by simp⟩
  | some reader =>
    have done := Program.mirrors_live i reader.program s i.scope i.result _ _
      (.start i orderly has [.started (scriptName i.filename)])
    dsimp only
    generalize reader.program.run _ _ _ = p at done ⊢
    generalize reader.program.live _ _ = q at done ⊢
    obtain ⟨_, _, m⟩ := p
    obtain ⟨failure, value, w⟩ := q
    obtain ⟨rfl, rfl, mirrors⟩ := done
    cases failure with
    | none =>
      rw [← script]
      exact mirrors.isolated_end _ .done value _
    | some failure =>
      rw [← script]
      exact mirrors.isolated_end _ .failed value _

end Interpreter

namespace Session

/-- An interpreter that is made in a new scope leaves the scope that it was given as it was. -/
theorem Sound.bindings_given {s : Session} (h : s.Sound) {setup : Setup}
    (apart : setup.inChild = true) :
    let made := s.build setup
    (made.1.run made.2).store.bindings made.1.given = s.store.bindings made.1.given := by
  unfold Session.build
  rw [apart]
  dsimp only
  cases found : setup.scope.bind s.scopes.find? with
  | some id =>
    obtain ⟨handle, _, known⟩ := Option.bind_eq_some_iff.mp found
    exact Interpreter.bindings_run_inChild _ h.orderly (h.handles handle id known)
  | none =>
    have outer : ∀ id ∈ (none : Option ScopeId), s.store.Has id := by simp
    have same := Interpreter.bindings_run_inChild
      (.ofScope (setup.script.map fun script => Reader.ofText script setup.filename .start)
        s.store.next setup.tracing setup.banner) (h.orderly.add outer) (Store.has_add none)
    exact same.trans ((h.orderly.bindings_add outer).trans h.orderly.bindings_next.symm)

/-- **Scopes are isolated.** Let a host program have done what it likes, and let an interpreter
carry out commands in a scope, or run its script. Among all scopes, with one of them active, that
comes to the same. Every command that is carried out on the way, in whatever blocks, strings and
substitutions and however it ends, leaves alone the bindings of all scopes that were there but those
of the active one; a block leaves alone those, too. So a run binds nothing outside its own scope,
and an interpreter that is made in a new scope leaves the scope that it was given as it was. -/
theorem scopes_isolated {requests : List Request} {handle : Text} {i : Interpreter}
    (found : (empty.performAll requests).2.interpreters.find? handle = some i) :
    let session := (empty.performAll requests).2
    let s := session.store
    (∀ commands id, s.Has id →
        (i.act s id fun around => Command.sequence around .empty commands).Isolated
          (i.actLive s id (Command.liveSequence .empty commands))) ∧
      (i.run s).Isolated (i.runLive s) ∧
      (∀ id, s.Has id → id ≠ i.scope → (i.run s).store.bindings id = s.bindings id) ∧
      ∀ setup : Setup, setup.inChild = true →
        let made := session.build setup
        (made.1.run made.2).store.bindings made.1.given = s.bindings made.1.given := by
  have sound := sound_performAll requests
  have scope := (sound.interpreters handle i found).2
  refine ⟨fun commands id has => i.isolated_act sound.orderly has commands,
    i.isolated_run sound.orderly scope, fun id _ apart => ?_, fun setup => sound.bindings_given⟩
  exact (i.confined_run _).bindings_of_ne apart

/-- Commands with a block that fails behind a definition in a substitution, and a script like them.
-/
theorem scopes_isolated_block :
    let setup : Setup := {
      script := some "set x 2; \x7bset y \"[set x 3]\"; unset x; puts [expr $x / 0]\x7d".toList
      filename := none, scope := some ['g'], inChild := true, tracing := true
      banner := defaultBanner }
    let before : List Request := [.openRoot ['g'], .define ['g'] ['x'] (.text ['1'])]
    let session := (empty.performAll (before ++ [.create ['i'] setup])).2
    let s := session.store
    let i := ((empty.performAll before).2.build setup).1
    let commands : List Command :=
      [.set .start ['x'] (.reference ['x'] .start),
        .block .start ⟨[], .start⟩ (.step [] (.set .start ['y'] (.substitution
          [.set .start ['x'] (.reference ['x'] .start)] .start))
            (.step [] (.unset .start ['x']) (.step [] (.invoke .start ['f'] []) (.finish []))))]
    let live := i.actLive s 1 (Command.liveSequence .empty commands)
    let made := session.build setup
    session.interpreters.find? ['i'] = some i ∧ s.Has 1 ∧ s.Has 0 ∧ 0 ≠ i.scope ∧
      live.2.map (fun e => (e.command.name, e.active)) =
        [("set".toList, 1), ("set".toList, 2), ("set".toList, 2), ("unset".toList, 2),
          (['f'], 2), ("block".toList, 1)] ∧
      (i.act s 1 fun around => Command.sequence around .empty commands).Isolated live ∧
      (i.run s).Isolated (i.runLive s) ∧ (i.run s).store.bindings 0 = s.bindings 0 ∧
      setup.inChild = true ∧
      (made.1.run made.2).store.bindings made.1.given = s.bindings made.1.given := by
  intro setup before session s i commands live made
  have found : session.interpreters.find? ['i'] = some i := rfl
  have sound : session.Sound := sound_performAll _
  have has : s.Has 1 ∧ s.Has 0 := (sound.interpreters ['i'] i found).symm
  have journal : live.2.map (fun e => (e.command.name, e.active)) =
      [("set".toList, 1), ("set".toList, 2), ("set".toList, 2), ("unset".toList, 2), (['f'], 2),
        ("block".toList, 1)] := by decide
  obtain ⟨carriedOut, ran, apart, fresh⟩ := scopes_isolated found
  exact ⟨found, has.1, has.2, by decide, journal, carriedOut commands 1 has.1, ran,
    apart 0 has.2 (by decide), rfl, fresh setup rfl⟩

end Session
end TinyTcl
