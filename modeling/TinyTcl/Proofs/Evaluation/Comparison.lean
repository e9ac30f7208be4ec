import TinyTcl.Interpreter
import TinyTcl.Proofs.Program.Mentions
import TinyTcl.Proofs.Program.Readers

/-! Two runs side by side. A comparison says which values, and which chains of scopes, count as the
same, for scripts that name certain variables only. It has to be kept by what a command can do with
values and with the scope in use; then runs of one script from two sides of it stay together all the
way: they come to the same end with the same output, trace and log
(`Comparison.compares_perform` and its companions, by one induction along the trees). -/
namespace TinyTcl

/-- What counts as the same on two sides. The scope in use is the innermost of a chain. -/
structure Comparison where
  /-- The variables that scripts may name. -/
  names : Text → Prop
  values : Value → Value → Prop
  chains : Chain → Chain → Prop
  refl : ∀ v, values v v
  text : ∀ {v w}, values v w → w.text = v.text
  toNumber : ∀ {v w} place, values v w → w.toNumber place = v.toNumber place
  /-- Both sides see a variable, with values that count as the same, or neither does. -/
  lookup : ∀ {c c' name}, chains c c' → names name →
    (∃ v w, c.lookup name = .ok v ∧ c'.lookup name = .ok w ∧ values v w) ∨
      ∃ failure, c.lookup name = .error failure ∧ c'.lookup name = .error failure
  insert : ∀ {b b' outer outer' name v w}, chains (.link b outer) (.link b' outer') → names name →
    values v w → chains (.link (b.insert name v) outer) (.link (b'.insert name w) outer')
  erase : ∀ {b b' outer outer' name}, chains (.link b outer) (.link b' outer') → names name →
    chains (.link (b.erase name) outer) (.link (b'.erase name) outer')
  contains : ∀ {b b' outer outer' name}, chains (.link b outer) (.link b' outer') → names name →
    b'.contains name = b.contains name
  depth : ∀ {b b' outer outer'}, chains (.link b outer) (.link b' outer') →
    outer'.depth = outer.depth
  /-- A new scope is the same on both sides. -/
  enter : ∀ {c c'}, chains c c' → chains (.link .empty c) (.link .empty c')

namespace Comparison

variable (k : Comparison)

/-- Surroundings of the same script. -/
structure SameScript (around around' : Surroundings) : Prop where
  tracing : around'.tracing = around.tracing
  filename : around'.filename = around.filename

/-- Machines on the two sides of a comparison that have done the same so far. -/
structure Sides (around around' : Surroundings) (m m' : Machine) : Prop where
  chains : k.chains (.link m.bindings around.outer) (.link m'.bindings around'.outer)
  output : m'.output = m.output
  trace : m'.trace = m.trace
  log : m'.log = m.log

/-- The same outcome on both sides, up to related values. -/
def SidesResult (around around' : Surroundings) {α : Type} (same : α → α → Prop) :
    EStateM.Result Failure Machine α → EStateM.Result Failure Machine α → Prop
  | .ok a m, .ok b m' => same a b ∧ k.Sides around around' m m'
  | .error e m, .error f m' => f = e ∧ k.Sides around around' m m'
  | _, _ => False

/-- The same outcome wherever machines are on the two sides. -/
def Compares (around around' : Surroundings) {α : Type} (same : α → α → Prop) (x y : Eval α) :
    Prop :=
  ∀ m m', k.Sides around around' m m' → k.SidesResult around around' same (x m) (y m')

variable {k} {around around' : Surroundings} {α β : Type} {same : α → α → Prop}
  {same' : β → β → Prop} {x y : Eval α}

section Combinators

private theorem Compares.pure {a b : α} (h : same a b) :
    k.Compares around around' same (pure a : Eval α) (pure b) :=
  fun _ _ sides => ⟨h, sides⟩

private theorem Compares.throw (failure : Failure) :
    k.Compares around around' same (throw failure : Eval α) (throw failure) :=
  fun _ _ sides => ⟨rfl, sides⟩

private theorem Compares.bind {f g : α → Eval β} (h : k.Compares around around' same x y)
    (next : ∀ a b, same a b → k.Compares around around' same' (f a) (g b)) :
    k.Compares around around' same' (x >>= f) (y >>= g) := by
  intro m m' sides
  have first := h m m' sides
  change k.SidesResult around around' same' (EStateM.bind x f m) (EStateM.bind y g m')
  unfold EStateM.bind
  cases left : x m <;> cases right : y m' <;> rw [left, right] at first
  case ok.ok => exact next _ _ first.1 _ _ first.2
  case error.error => exact first
  all_goals exact first.elim

private theorem Compares.ofExcept (e : Except Failure α) (refl : ∀ a, same a a) :
    k.Compares around around' same (Eval.ofExcept e) (Eval.ofExcept e) := by
  cases e with
  | ok a => exact .pure (refl a)
  | error failure => exact .throw failure

private theorem Compares.ofExcept_eq (e : Except Failure α) :
    k.Compares around around' Eq (Eval.ofExcept e) (Eval.ofExcept e) := .ofExcept e fun _ => rfl

private theorem Compares.modify {f g : Machine → Machine}
    (h : ∀ m m', k.Sides around around' m m' → k.Sides around around' (f m) (g m')) :
    k.Compares around around' (fun _ _ => True) (modify f : Eval Unit) (modify g) :=
  fun m m' sides => ⟨trivial, h m m' sides⟩

private theorem Compares.mapDiagnostic (change : Diagnostic → Diagnostic)
    (h : k.Compares around around' same x y) :
    k.Compares around around' same (Eval.mapDiagnostic change x) (Eval.mapDiagnostic change y) := by
  intro m m' sides
  have first := h m m' sides
  unfold Eval.mapDiagnostic
  cases left : x m <;> cases right : y m' <;> rw [left, right] at first
  case ok.ok => exact first
  case error.error => exact ⟨by rw [first.1], first.2⟩
  all_goals exact first.elim

end Combinators

private theorem Sides.note {m m' : Machine} (h : k.Sides around around' m m')
    (events : List Event) :
    k.Sides around around' (m.note events) (m'.note events) :=
  ⟨h.chains, h.output, h.trace, congrArg (· ++ events) h.log⟩

private theorem compares_note (e : Event) :
    k.Compares around around' (fun _ _ => True) (Eval.note e) (Eval.note e) :=
  .modify fun _ _ sides => sides.note [e]

private theorem compares_lookup {name : Text} (named : k.names name) :
    k.Compares around around' k.values (Eval.lookup around name) (Eval.lookup around' name) := by
  intro m m' sides
  change k.SidesResult _ _ _ (Eval.ofExcept ((Chain.link m.bindings around.outer).lookup name) m)
    (Eval.ofExcept ((Chain.link m'.bindings around'.outer).lookup name) m')
  rcases k.lookup sides.chains named with ⟨v, w, left, right, related⟩ | ⟨failure, left, right⟩
  · rw [left, right]
    exact ⟨related, sides⟩
  · rw [left, right]
    exact ⟨rfl, sides⟩

private theorem compares_define {name : Text} (named : k.names name) {v w : Value}
    (related : k.values v w) :
    k.Compares around around' k.values (Eval.define name v) (Eval.define name w) := by
  have bound : k.Compares around around' (fun _ _ => True)
      (modify fun m : Machine => { m with bindings := m.bindings.insert name v } : Eval Unit)
      (modify fun m => { m with bindings := m.bindings.insert name w }) :=
    .modify fun _ _ sides => { sides with chains := k.insert sides.chains named related }
  exact bound.bind fun _ _ _ => .pure related

private theorem compares_remove {name : Text} (named : k.names name) :
    k.Compares around around' (fun _ _ => True) (Eval.remove around name)
      (Eval.remove around' name) := by
  have erased : k.Compares around around' (fun _ _ => True)
      (modify fun m : Machine => { m with bindings := m.bindings.erase name } : Eval Unit)
      (modify fun m => { m with bindings := m.bindings.erase name }) :=
    .modify fun _ _ sides => { sides with chains := k.erase sides.chains named }
  have noted : k.Compares around around' (fun _ _ => True)
      (do Eval.note (.removed name (← Eval.ofExcept around.outer.depth)) : Eval Unit)
      (do Eval.note (.removed name (← Eval.ofExcept around'.outer.depth))) := by
    intro m m' sides
    rw [k.depth sides.chains]
    refine (Compares.ofExcept_eq around.outer.depth).bind ?_ m m' sides
    rintro depth _ rfl
    exact compares_note (.removed name depth)
  intro m m' sides
  have gone := (erased.bind fun _ _ _ => noted) m m' sides
  change k.SidesResult _ _ _ ((if m.bindings.contains name then _ else _ : Eval Unit) m)
    ((if m'.bindings.contains name then _ else _ : Eval Unit) m')
  rw [k.contains sides.chains named]
  by_cases bound : m.bindings.contains name = true
  · rw [if_pos bound, if_pos bound]
    exact gone
  · rw [if_neg bound, if_neg bound]
    exact ⟨trivial, sides⟩

private theorem compares_write (t : Text) :
    k.Compares around around' (fun _ _ => True) (Eval.write t) (Eval.write t) :=
  .modify fun _ _ sides => { sides with output := congrArg (· ++ t) sides.output }

/-- The scope in use is the same behind something that was done in a new scope. -/
theorem compares_inChild {act act' : Surroundings → Eval α} (script : SameScript around around')
    (inside : ∀ a b, SameScript a b → k.Compares a b same (act a) (act' b)) :
    k.Compares around around' same (Eval.inChild around act) (Eval.inChild around' act') := by
  intro m m' sides
  have done := inside { around with outer := .link m.bindings around.outer }
    { around' with outer := .link m'.bindings around'.outer } ⟨script.tracing, script.filename⟩
    { m with bindings := .empty } { m' with bindings := .empty }
    { sides with chains := k.enter sides.chains }
  unfold Eval.inChild
  dsimp only
  revert done
  cases act { around with outer := .link m.bindings around.outer } { m with bindings := .empty } <;>
    cases act' { around' with outer := .link m'.bindings around'.outer }
      { m' with bindings := .empty } <;>
    intro done
  case ok.ok => exact ⟨done.1, { done.2 with chains := sides.chains }⟩
  case error.error => exact ⟨done.1, { done.2 with chains := sides.chains }⟩
  all_goals exact done.elim

private theorem compares_carryOut (script : SameScript around around') (c : Command)
    {act act' : Eval Value} (acts : k.Compares around around' k.values act act') :
    k.Compares around around' k.values (Eval.carryOut around c act)
      (Eval.carryOut around' c act') := by
  have acts := acts.mapDiagnostic (Eval.locate c)
  intro m m' sides
  unfold Eval.carryOut
  rw [script.tracing, script.filename, k.depth sides.chains]
  split
  · refine (Compares.ofExcept_eq around.outer.depth).bind ?_ m m' sides
    rintro depth _ rfl
    refine (compares_note _).bind fun _ _ _ => acts.bind fun v w related => ?_
    have entered : k.Compares around around' (fun _ _ => True)
        (modify fun m : Machine =>
          { m with trace := m.trace ++ [⟨c.position.line, c.name, v.text, depth⟩] } : Eval Unit)
        (modify fun m =>
          { m with trace := m.trace ++ [⟨c.position.line, c.name, w.text, depth⟩] }) := by
      rw [k.text related]
      exact .modify fun _ _ sides => { sides with trace := congrArg (· ++ _) sides.trace }
    exact entered.bind fun _ _ _ => .pure related
  · exact acts m m' sides

section Values

variable {v w v' w' : Value} (related : k.values v w) (related' : k.values v' w') (place : Place)

include related

private theorem toNumberValue_eq : w.toNumberValue place = v.toNumberValue place := by
  rw [Value.toNumberValue, k.toNumber place related]
  rfl

private theorem withSign_eq (sign : Sign) : w.withSign sign place = v.withSign sign place := by
  cases sign with
  | positive => exact toNumberValue_eq related place
  | negative =>
    unfold Value.withSign Value.negate
    rw [k.toNumber place related]

include related'

private theorem apply_eq (operator : Operator) :
    Value.apply operator w w' place = Value.apply operator v v' place := by
  unfold Value.apply
  rw [k.toNumber place related, k.toNumber place related']

end Values

/-- The same progress on both sides. -/
structure SidesProgress (k : Comparison) (around around' : Surroundings) (p q : Progress) :
    Prop where
  failure : q.failure = p.failure
  values : k.values p.value q.value
  sides : k.Sides around around' p.machine q.machine

private theorem SidesProgress.result {p q : Progress} (h : k.SidesProgress around around' p q) :
    k.SidesResult around around' k.values p.result q.result := by
  unfold Progress.result
  rw [h.failure]
  cases p.failure with
  | none => exact ⟨h.values, h.sides⟩
  | some failure => exact ⟨rfl, h.sides⟩

mutual

/-- Operands have the same values on both sides. -/
theorem compares_eval (k : Comparison) : (e : Expr) → (∀ name ∈ e.mentions, k.names name) →
    (around around' : Surroundings) → SameScript around around' →
    k.Compares around around' k.values (e.eval around) (e.eval around')
  | .number text _, _, _, _, _ | .word text _, _, _, _, _ => by
    unfold Expr.eval
    exact .pure (k.refl (.string text))
  | .reference name _, named, _, _, _ => by
    unfold Expr.eval
    exact (compares_lookup (named name (by simp [Expr.mentions]))).mapDiagnostic _
  | .quoted parts _, named, around, around', script => by
    unfold Expr.mentions at named
    unfold Expr.eval
    refine (compares_join k parts named around around' script).bind ?_
    rintro text _ rfl
    exact .pure (k.refl (.string text))
  | .substitution commands _, named, around, around', script => by
    unfold Expr.mentions at named
    unfold Expr.eval
    exact compares_sequence k commands named around around' script (k.refl .empty)
  | .signed sign position operand, named, around, around', script => by
    unfold Expr.mentions at named
    unfold Expr.eval
    refine (compares_eval k operand named around around' script).bind fun v w related => ?_
    rw [withSign_eq related]
    exact .ofExcept _ k.refl
  | .binary left operator position right, named, around, around', script => by
    unfold Expr.mentions at named
    unfold Expr.eval
    refine (compares_eval k left (fun name inside => named name (List.mem_append_left _ inside))
      around around' script).bind fun v w first => ?_
    refine (compares_eval k right (fun name inside => named name (List.mem_append_right _ inside))
      around around' script).bind fun v' w' second => ?_
    rw [apply_eq first second]
    exact .ofExcept _ k.refl
  | .group inner, named, around, around', script => by
    unfold Expr.mentions at named
    unfold Expr.eval
    exact compares_eval k inner named around around' script

theorem compares_join (k : Comparison) : (es : List Expr) →
    (∀ name ∈ Expr.joinMentions es, k.names name) →
    (around around' : Surroundings) → SameScript around around' →
    k.Compares around around' Eq (Expr.join around es) (Expr.join around' es)
  | [], _, _, _, _ => by
    unfold Expr.join
    exact .pure rfl
  | first :: rest, named, around, around', script => by
    unfold Expr.joinMentions at named
    unfold Expr.join
    refine (compares_eval k first (fun name inside => named name (List.mem_append_left _ inside))
      around around' script).bind fun v w related => ?_
    refine (compares_join k rest (fun name inside => named name (List.mem_append_right _ inside))
      around around' script).bind ?_
    rintro text _ rfl
    exact .pure (congrArg (· ++ text) (k.text related).symm)

/-- Commands do the same on both sides. -/
theorem compares_perform (k : Comparison) : (c : Command) →
    (∀ name ∈ c.mentions, k.names name) →
    (around around' : Surroundings) → SameScript around around' →
    k.Compares around around' k.values (c.perform around) (c.perform around')
  | .set _ target value, named, around, around', script => by
    unfold Command.mentions at named
    unfold Command.perform
    refine (compares_eval k value (fun name inside => named name (List.mem_cons_of_mem _ inside))
      around around' script).bind fun v w related => ?_
    exact compares_define (named target List.mem_cons_self) related
  | .unset _ target, named, _, _, _ => by
    unfold Command.perform
    exact (compares_remove (named target (by simp [Command.mentions]))).bind fun _ _ _ =>
      .pure (k.refl .empty)
  | .puts _ value, named, around, around', script => by
    unfold Command.mentions at named
    unfold Command.perform
    refine (compares_eval k value named around around' script).bind fun v w related => ?_
    rw [k.text related]
    exact (compares_write _).bind fun _ _ _ => .pure (k.refl .empty)
  | .expr position operand, named, around, around', script => by
    unfold Command.mentions at named
    unfold Command.perform
    refine (compares_eval k operand named around around' script).bind fun v w related => ?_
    rw [toNumberValue_eq related]
    exact .ofExcept _ k.refl
  | .block _ _ program, named, _, _, script => by
    unfold Command.mentions at named
    unfold Command.perform
    exact compares_inChild script fun a b script m m' sides =>
      (compares_run k program named a b script (k.refl .empty) m m' sides).result
  | .invoke position name _, _, _, _, _ => by
    unfold Command.perform
    exact .throw _

theorem compares_sequence (k : Comparison) : (cs : List Command) →
    (∀ name ∈ Command.sequenceMentions cs, k.names name) →
    (around around' : Surroundings) → SameScript around around' → {last last' : Value} →
    k.values last last' →
    k.Compares around around' k.values (Command.sequence around last cs)
      (Command.sequence around' last' cs)
  | [], _, _, _, _, _, _, related => by
    unfold Command.sequence
    exact .pure related
  | first :: rest, named, around, around', script, _, _, _ => by
    unfold Command.sequenceMentions at named
    unfold Command.sequence
    refine (compares_carryOut script first (compares_perform k first
      (fun name inside => named name (List.mem_append_left _ inside)) around around' script)).bind
      fun v w related => ?_
    exact compares_sequence k rest (fun name inside => named name (List.mem_append_right _ inside))
      around around' script related

/-- A text gets as far on both sides. -/
theorem compares_run (k : Comparison) : (p : Program) → (∀ name ∈ p.mentions, k.names name) →
    (around around' : Surroundings) → SameScript around around' → {last last' : Value} →
    k.values last last' → (m m' : Machine) → k.Sides around around' m m' →
    k.SidesProgress around around' (p.run around last m) (p.run around' last' m')
  | .finish notes, _, _, _, _, _, _, related, m, m', sides => by
    unfold Program.run
    exact ⟨rfl, related, sides.note notes⟩
  | .fault notes d, _, _, _, script, _, _, related, m, m', sides => by
    unfold Program.run
    exact ⟨by rw [script.filename], related, sides.note notes⟩
  | .step notes command rest, named, around, around', script, _, _, related, m, m', sides => by
    unfold Program.mentions at named
    have first := compares_carryOut script command (compares_perform k command
      (fun name inside => named name (List.mem_append_left _ inside)) around around' script)
      (m.note notes) (m'.note notes) (sides.note notes)
    simp only [Program.run]
    revert first
    cases Eval.carryOut around command (command.perform around) (m.note notes) <;>
      cases Eval.carryOut around' command (command.perform around') (m'.note notes) <;>
      intro first
    case ok.ok v n w n' =>
      exact compares_run k rest (fun name inside => named name (List.mem_append_right _ inside))
        around around' script first.1 n n' first.2
    case error.error => exact ⟨congrArg some first.1, related, first.2⟩
    all_goals exact first.elim

end

/-- The same outcome of a turn, up to values that count as the same. -/
inductive SameOutcome (k : Comparison) : Except Failure Value → Except Failure Value → Prop
  | ok {v w : Value} (related : k.values v w) : SameOutcome k (.ok v) (.ok w)
  | error (failure : Failure) : SameOutcome k (.error failure) (.error failure)

/-- Turns in a scope of two stores that have done the same: if they have changed the scope, then to
bindings on the two sides of the comparison. -/
structure SidesTurn (k : Comparison) (s t : Store) (scope : ScopeId) (u v : Turn Value) :
    Prop where
  outcome : k.SameOutcome u.outcome v.outcome
  result : k.values u.interpreter.result v.interpreter.result
  interpreter : v.interpreter = { u.interpreter with result := v.interpreter.result }
  log : v.log = u.log
  stores : u.store = s ∧ v.store = t ∨ ∃ b b',
    k.chains (.link b (s.around scope)) (.link b' (t.around scope)) ∧
      u.store = s.setBindings scope b ∧ v.store = t.setBindings scope b'

section Turns

variable {k : Comparison} (i : Interpreter) {s t : Store} {scope : ScopeId}

/-- A turn that does nothing does the same everywhere. -/
theorem sidesTurn_refused (failure : Failure) (log : List Event) :
    k.SidesTurn s t scope ⟨.error failure, i, s, log⟩ ⟨.error failure, i, t, log⟩ :=
  ⟨.error failure, k.refl i.result, rfl, rfl, .inl ⟨rfl, rfl⟩⟩

private theorem sameScript_surroundings :
    SameScript (i.surroundings s scope) (i.surroundings t scope) := ⟨rfl, rfl⟩

/-- Machines that end on the two sides end turns that have done the same. -/
theorem Sides.turn {m m' : Machine}
    (sides : k.Sides (i.surroundings s scope) (i.surroundings t scope) m m')
    {outcome outcome' : Except Failure Value} (same : k.SameOutcome outcome outcome') (stage : Stage)
    {v w : Value} (related : k.values v w) :
    k.SidesTurn s t scope ({ i with stage, result := v }.turn s scope outcome m)
      ({ i with stage, result := w }.turn t scope outcome' m') := by
  refine ⟨same, related, ?_, sides.log, .inr ⟨_, _, sides.chains, rfl, rfl⟩⟩
  simp only [Interpreter.turn, sides.output, sides.trace]

variable (start : k.chains (.link (s.bindings scope) (s.around scope))
  (.link (t.bindings scope) (t.around scope)))

include start

private theorem sides_machine :
    k.Sides (i.surroundings s scope) (i.surroundings t scope) (i.machine s scope)
      (i.machine t scope) := ⟨start, rfl, rfl, rfl⟩

private theorem sidesTurn_act {body : Surroundings → Eval Value}
    (h : k.Compares (i.surroundings s scope) (i.surroundings t scope) k.values
      (body (i.surroundings s scope)) (body (i.surroundings t scope))) :
    k.SidesTurn s t scope (i.act s scope body) (i.act t scope body) := by
  have done := h _ _ (sides_machine i start)
  unfold Interpreter.act
  revert done
  cases body (i.surroundings s scope) (i.machine s scope) <;>
    cases body (i.surroundings t scope) (i.machine t scope) <;> intro done
  case ok.ok => exact done.2.turn i (.ok done.1) i.stage (k.refl i.result)
  case error.error =>
    obtain ⟨rfl, sides⟩ := done
    exact sides.turn i (.error _) i.stage (k.refl i.result)
  all_goals exact done.elim

/-- Text that is read to its end and carried out does the same on both sides. -/
theorem sidesTurn_executeText {script : Text} {filename : Option Text} (own : scope = i.scope)
    (named : ∀ name ∈ (Reader.ofText script filename .start).program.mentions, k.names name) :
    k.SidesTurn s t scope (i.executeText s script filename) (i.executeText t script filename) := by
  subst own
  unfold Interpreter.executeText
  dsimp only
  cases sound : (Reader.ofText script filename .start).commands with
  | error d => exact sidesTurn_refused i _ _
  | ok commands =>
    have mentioned : ∀ name ∈ Command.sequenceMentions commands, k.names name := by
      rw [Program.sequenceMentions_of_commands _ (Reader.commands_eq_ok.mp sound)]
      exact named
    have turn : k.SidesTurn s t i.scope (i.execute s commands) (i.execute t commands) :=
      sidesTurn_act i start (compares_sequence k commands mentioned _ _ (sameScript_surroundings i)
        (k.refl .empty))
    exact { turn with log := congrArg (_ ++ ·) turn.log }

/-- A block does the same on both sides. -/
theorem sidesTurn_runBlock {body : Block} {inside : Option ScopeId}
    (own : scope = inside.getD i.scope)
    (named : ∀ name ∈ (Reader.ofText body.text i.filename body.position).program.mentions,
      k.names name) :
    k.SidesTurn s t scope (i.runBlock s body inside) (i.runBlock t body inside) := by
  have eval (a b : Surroundings) (script : SameScript a b) : k.Compares a b k.values
      ((Reader.ofText body.text i.filename body.position).program.eval a)
      ((Reader.ofText body.text i.filename body.position).program.eval b) :=
    fun m m' sides => (compares_run k _ named a b script (k.refl .empty) m m' sides).result
  subst own
  unfold Interpreter.runBlock
  cases inside with
  | none => exact sidesTurn_act i start (compares_inChild (sameScript_surroundings i) eval)
  | some scope => exact sidesTurn_act i start (eval _ _ (sameScript_surroundings i))

/-- A script runs the same on both sides. -/
theorem sidesTurn_run (own : scope = i.scope)
    (named : ∀ reader ∈ i.reader, ∀ name ∈ reader.program.mentions, k.names name) :
    k.SidesTurn s t scope (i.run s) (i.run t) := by
  subst own
  unfold Interpreter.run
  by_cases other : i.stage ≠ .ready
  · rw [if_pos other, if_pos other]
    exact sidesTurn_refused i _ _
  rw [if_neg other, if_neg other]
  cases script : i.reader with
  | none => exact ⟨.error _, k.refl i.result, rfl, rfl, .inl ⟨rfl, rfl⟩⟩
  | some reader =>
    have done := compares_run k reader.program (named reader script) _ _
      (sameScript_surroundings i) (k.refl i.result) _ _
      ((sides_machine i start).note [.started (scriptName i.filename)])
    dsimp only
    generalize reader.program.run _ _ ((i.machine s i.scope).note _) = p at done ⊢
    generalize reader.program.run _ _ ((i.machine t i.scope).note _) = q at done ⊢
    obtain ⟨_, v, m⟩ := p
    obtain ⟨failure, w, m'⟩ := q
    obtain ⟨rfl, related, sides⟩ := done
    cases failure with
    | none =>
      rw [← script]
      exact (sides.note _).turn i (.ok related) .done related
    | some failure =>
      rw [← script]
      exact (sides.note _).turn i (.error _) .failed related

end Turns

end Comparison
end TinyTcl
