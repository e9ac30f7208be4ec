import TinyTcl.Evaluation.Command

/-! What commands cannot observe. No command reads the log or the trace, and tracing reads no more
than the depth of the scope in use, which is there as long as all scopes around it are. So machines
that differ in these alone give the same values and failures (`Command.like_perform` and its
companions, by one induction along the trees). -/
namespace TinyTcl

/-- Machines that commands cannot tell apart. Their traces are the same too, if `traced` says so. -/
structure Machine.Like (traced : Prop) (m m' : Machine) : Prop where
  bindings : m'.bindings = m.bindings
  output : m'.output = m.output
  trace : traced → m'.trace = m.trace

/-- Surroundings that commands cannot tell apart: only one of them may be traced, unless traces are
compared, and then no scope may be missing. -/
structure Surroundings.Like (traced : Prop) (a b : Surroundings) : Prop where
  filename : b.filename = a.filename
  outer : b.outer = a.outer
  tracing : b.tracing = a.tracing ∨ ¬ traced ∧ a.outer.isWhole = true

private theorem Machine.Like.symm {traced : Prop} {m m' : Machine} (h : m.Like traced m') :
    m'.Like traced m :=
  ⟨h.bindings.symm, h.output.symm, fun compared => (h.trace compared).symm⟩

theorem Surroundings.Like.refl {traced : Prop} (around : Surroundings) :
    around.Like traced around := ⟨rfl, rfl, .inl rfl⟩

private theorem Machine.Like.rebind {traced : Prop} {m m' : Machine} (h : m.Like traced m')
    (change : Bindings → Bindings) :
    Machine.Like traced { m with bindings := change m.bindings }
      { m' with bindings := change m'.bindings } :=
  ⟨congrArg change h.bindings, h.output, h.trace⟩

theorem Machine.Like.note {traced : Prop} {m m' : Machine} (h : m.Like traced m')
    (events events' : List Event) : (m.note events).Like traced (m'.note events') :=
  ⟨h.bindings, h.output, h.trace⟩

namespace Eval

section Bind

variable {α β : Type} {x : Eval α} {f : α → Eval β} {m m' : Machine}

theorem bind_of_ok {a : α} (done : x m = .ok a m') : (x >>= f) m = f a m' := by
  change EStateM.bind x f m = _
  rw [EStateM.bind, done]

theorem bind_of_error {failure : Failure} (done : x m = .error failure m') :
    (x >>= f) m = .error failure m' := by
  change EStateM.bind x f m = _
  rw [EStateM.bind, done]

end Bind

/-- The same outcome, on machines that cannot be told apart. -/
def LikeResult (traced : Prop) {α : Type} :
    EStateM.Result Failure Machine α → EStateM.Result Failure Machine α → Prop
  | .ok a m, .ok b m' => b = a ∧ m.Like traced m'
  | .error e m, .error f m' => f = e ∧ m.Like traced m'
  | _, _ => False

/-- The same outcomes wherever two machines cannot be told apart. -/
def Like (traced : Prop) {α : Type} (x y : Eval α) : Prop :=
  ∀ m m', m.Like traced m' → LikeResult traced (x m) (y m')

section Combinators

variable {traced : Prop} {α β : Type} {x y : Eval α} {f g : α → Eval β}

private theorem Like.pure (a : α) : Like traced (pure a : Eval α) (pure a) :=
  fun _ _ same => ⟨rfl, same⟩

private theorem Like.throw (e : Failure) : Like traced (throw e : Eval α) (throw e) :=
  fun _ _ same => ⟨rfl, same⟩

private theorem Like.bind (h : Like traced x y) (next : ∀ a, Like traced (f a) (g a)) :
    Like traced (x >>= f) (y >>= g) := by
  intro m m' same
  have first := h m m' same
  change LikeResult traced (EStateM.bind x f m) (EStateM.bind y g m')
  unfold EStateM.bind
  cases left : x m <;> cases right : y m' <;> rw [left, right] at first
  case ok.ok =>
    obtain ⟨rfl, same⟩ := first
    exact next _ _ _ same
  case error.error => exact first
  all_goals exact first.elim

private theorem Like.symm (h : Like traced x y) : Like traced y x := by
  intro m m' same
  have first := h m' m same.symm
  cases left : x m' <;> cases right : y m <;> rw [left, right] at first
  case ok.ok => exact ⟨first.1.symm, first.2.symm⟩
  case error.error => exact ⟨first.1.symm, first.2.symm⟩
  all_goals exact first.elim

private theorem Like.ofExcept (e : Except Failure α) : Like traced (ofExcept e) (ofExcept e) := by
  cases e with
  | ok a => exact .pure a
  | error failure => exact .throw failure

theorem Like.modify {f g : Machine → Machine}
    (h : ∀ m m', m.Like traced m' → (f m).Like traced (g m')) :
    Like traced (modify f : Eval Unit) (modify g) :=
  fun m m' same => ⟨rfl, h m m' same⟩

private theorem Like.note (e : Event) : Like traced (note e) (note e) :=
  .modify fun _ _ same => same.note _ _

private theorem Like.mapDiagnostic (change : Diagnostic → Diagnostic) (h : Like traced x y) :
    Like traced (mapDiagnostic change x) (mapDiagnostic change y) := by
  intro m m' same
  have first := h m m' same
  unfold Eval.mapDiagnostic
  cases left : x m <;> cases right : y m' <;> rw [left, right] at first
  case ok.ok => exact first
  case error.error => exact ⟨by rw [first.1], first.2⟩
  all_goals exact first.elim

end Combinators

section Actions

variable {traced : Prop} {around around' : Surroundings} (h : around.Like traced around')

include h

private theorem like_lookup (name : Text) :
    Like traced (lookup around name) (lookup around' name) := by
  intro m m' same
  change LikeResult traced (ofExcept ((Chain.link m.bindings around.outer).lookup name) m)
    (ofExcept ((Chain.link m'.bindings around'.outer).lookup name) m')
  rw [← same.bindings, ← h.outer]
  exact Like.ofExcept _ m m' same

omit h in
private theorem like_define (name : Text) (value : Value) :
    Like traced (define name value) (define name value) := by
  have bound : Like traced
      (modify fun m : Machine => { m with bindings := m.bindings.insert name value } : Eval Unit)
      (modify fun m => { m with bindings := m.bindings.insert name value }) :=
    .modify fun _ _ same => same.rebind (·.insert name value)
  exact bound.bind fun _ => .pure value

private theorem like_remove (name : Text) :
    Like traced (remove around name) (remove around' name) := by
  have erased : Like traced
      (modify fun m : Machine => { m with bindings := m.bindings.erase name } : Eval Unit)
      (modify fun m => { m with bindings := m.bindings.erase name }) :=
    .modify fun _ _ same => same.rebind (·.erase name)
  have noted : Like traced
      (do note (.removed name (← ofExcept around.outer.depth)) : Eval Unit)
      (do note (.removed name (← ofExcept around'.outer.depth))) := by
    rw [h.outer]
    exact (Like.ofExcept _).bind fun _ => .note _
  intro m m' same
  have gone := (erased.bind fun _ => noted) m m' same
  change LikeResult traced ((if m.bindings.contains name then _ else _ : Eval Unit) m)
    ((if m'.bindings.contains name then _ else _ : Eval Unit) m')
  rw [same.bindings]
  by_cases bound : m.bindings.contains name = true
  · rw [if_pos bound, if_pos bound]
    exact gone
  · rw [if_neg bound, if_neg bound]
    exact ⟨rfl, same⟩

omit h in
private theorem like_write (t : Text) : Like traced (write t) (write t) :=
  .modify fun _ _ same => ⟨same.bindings, by simp only [same.output], same.trace⟩

theorem like_inChild {α : Type} {act act' : Surroundings → Eval α}
    (inside : ∀ a b : Surroundings, a.Like traced b → Like traced (act a) (act' b)) :
    Like traced (inChild around act) (inChild around' act') := by
  intro m m' same
  have child : Surroundings.Like traced { around with outer := .link m.bindings around.outer }
      { around' with outer := .link m'.bindings around'.outer } :=
    ⟨h.filename, by simp only [same.bindings, h.outer], h.tracing⟩
  have done := inside _ _ child { m with bindings := .empty } { m' with bindings := .empty }
    ⟨rfl, same.output, same.trace⟩
  unfold inChild
  dsimp only
  revert done
  cases act { around with outer := .link m.bindings around.outer } { m with bindings := .empty } <;>
    cases act' { around' with outer := .link m'.bindings around'.outer }
      { m' with bindings := .empty } <;>
    intro done
  case ok.ok => exact ⟨done.1, same.bindings, done.2.output, done.2.trace⟩
  case error.error => exact ⟨done.1, same.bindings, done.2.output, done.2.trace⟩
  all_goals exact done.elim

omit h in
/-- Tracing a command adds to log and trace alone. -/
theorem like_traced (untraced : ¬ traced) {act act' : Eval Value} (acts : Like traced act act')
    (e : Event) (entry : Value → TraceEntry) :
    Like traced act (do
      note e
      let value ← act'
      modify fun m => { m with trace := m.trace ++ [entry value] }
      return value) := by
  intro m m' same
  have first := acts m (m'.note [e])
    ⟨same.bindings, same.output, fun compared => absurd compared untraced⟩
  change LikeResult traced (act m) (EStateM.bind act' (fun value => (do
    modify fun m => { m with trace := m.trace ++ [entry value] }
    return value : Eval Value)) (m'.note [e]))
  unfold EStateM.bind
  cases left : act m <;> cases right : act' (m'.note [e]) <;> rw [left, right] at first
  case ok.ok =>
    exact ⟨first.1, first.2.bindings, first.2.output, fun compared => absurd compared untraced⟩
  case error.error => exact first
  all_goals exact first.elim

omit h in
theorem carryOut_traced {c : Command} {act : Eval Value} {depth : Nat}
    (tracing : around.tracing = true) (known : around.outer.depth = .ok depth) :
    carryOut around c act = (do
      note (.traced (scriptName around.filename) c.position.line c.name)
      let value ← mapDiagnostic (locate c) act
      modify fun m =>
        { m with trace := m.trace ++ [⟨c.position.line, c.name, value.text, depth⟩] }
      return value) := by
  unfold carryOut
  rw [if_pos tracing, known]
  rfl

theorem like_carryOut (c : Command) {act act' : Eval Value} (acts : Like traced act act') :
    Like traced (carryOut around c act) (carryOut around' c act') := by
  have acts := acts.mapDiagnostic (locate c)
  by_cases same : around'.tracing = around.tracing
  · unfold carryOut
    rw [same, h.outer, h.filename]
    split
    · refine (Like.ofExcept _).bind fun depth => (Like.note _).bind fun _ => acts.bind fun value => ?_
      have entered : Like traced
          (modify fun m : Machine =>
            { m with trace := m.trace ++ [⟨c.position.line, c.name, value.text, depth⟩] } : Eval Unit)
          (modify fun m =>
            { m with trace := m.trace ++ [⟨c.position.line, c.name, value.text, depth⟩] }) :=
        .modify fun _ _ same => ⟨same.bindings, same.output, fun compared => by
          simp only [same.trace compared]⟩
      exact entered.bind fun _ => .pure value
    · exact acts
  · obtain ⟨untraced, whole⟩ := h.tracing.resolve_left same
    obtain ⟨depth, known⟩ := (Chain.depth_isOk_iff _).mpr whole
    have known' : around'.outer.depth = .ok depth := h.outer ▸ known
    cases left : around.tracing <;> cases right : around'.tracing
    · exact absurd (right.trans left.symm) same
    · rw [carryOut_traced right known', carryOut, left]
      exact like_traced untraced acts _ _
    · rw [carryOut_traced left known, carryOut, right]
      exact (like_traced untraced acts.symm _ _).symm
    · exact absurd (right.trans left.symm) same

end Actions

end Eval

mutual

theorem Expr.like_eval {traced : Prop} {around around' : Surroundings}
    (h : around.Like traced around') : (e : Expr) →
    Eval.Like traced (e.eval around) (e.eval around')
  | .number _ _ | .word _ _ => by
    unfold Expr.eval
    exact .pure _
  | .reference name _ => by
    unfold Expr.eval
    exact (Eval.like_lookup h name).mapDiagnostic _
  | .quoted parts _ => by
    unfold Expr.eval
    exact (Expr.like_join h parts).bind fun _ => .pure _
  | .substitution commands _ => by
    unfold Expr.eval
    exact Command.like_sequence h .empty commands
  | .signed _ _ operand => by
    unfold Expr.eval
    exact (Expr.like_eval h operand).bind fun _ => .ofExcept _
  | .binary left _ _ right => by
    unfold Expr.eval
    exact (Expr.like_eval h left).bind fun _ => (Expr.like_eval h right).bind fun _ => .ofExcept _
  | .group inner => by
    unfold Expr.eval
    exact Expr.like_eval h inner

theorem Expr.like_join {traced : Prop} {around around' : Surroundings}
    (h : around.Like traced around') : (es : List Expr) →
    Eval.Like traced (Expr.join around es) (Expr.join around' es)
  | [] => by
    unfold Expr.join
    exact .pure _
  | first :: rest => by
    unfold Expr.join
    exact (Expr.like_eval h first).bind fun _ => (Expr.like_join h rest).bind fun _ => .pure _

theorem Command.like_perform {traced : Prop} {around around' : Surroundings}
    (h : around.Like traced around') : (c : Command) →
    Eval.Like traced (c.perform around) (c.perform around')
  | .set _ target value => by
    unfold Command.perform
    exact (Expr.like_eval h value).bind fun _ => Eval.like_define target _
  | .unset _ target => by
    unfold Command.perform
    exact (Eval.like_remove h target).bind fun _ => .pure _
  | .puts _ value => by
    unfold Command.perform
    exact (Expr.like_eval h value).bind fun _ => (Eval.like_write _).bind fun _ => .pure _
  | .expr _ operand => by
    unfold Command.perform
    exact (Expr.like_eval h operand).bind fun _ => .ofExcept _
  | .block _ _ program => by
    unfold Command.perform
    exact Eval.like_inChild h fun _ _ inside => Program.like_run inside .empty program
  | .invoke _ _ _ => by
    unfold Command.perform
    exact .throw _

theorem Command.like_sequence {traced : Prop} {around around' : Surroundings}
    (h : around.Like traced around') (last : Value) : (cs : List Command) →
    Eval.Like traced (Command.sequence around last cs) (Command.sequence around' last cs)
  | [] => by
    unfold Command.sequence
    exact .pure _
  | first :: rest => by
    unfold Command.sequence
    exact (Eval.like_carryOut h first (Command.like_perform h first)).bind
      fun value => Command.like_sequence h value rest

theorem Program.like_run {traced : Prop} {around around' : Surroundings}
    (h : around.Like traced around') (last : Value) : (p : Program) →
    Eval.Like traced (fun m => (p.run around last m).result)
      (fun m => (p.run around' last m).result)
  | .finish notes => by
    unfold Program.run
    exact fun _ _ same => ⟨rfl, same.note _ _⟩
  | .fault notes diagnostic => by
    unfold Program.run
    exact fun _ _ same => ⟨by rw [h.filename], same.note _ _⟩
  | .step notes command rest => by
    intro m m' same
    have first := Eval.like_carryOut h command (Command.like_perform h command) (m.note notes)
      (m'.note notes) (same.note _ _)
    simp only [Program.run]
    revert first
    cases Eval.carryOut around command (command.perform around) (m.note notes) <;>
      cases Eval.carryOut around' command (command.perform around') (m'.note notes) <;>
      intro first
    case ok.ok value n _ n' =>
      obtain ⟨rfl, same⟩ := first
      exact Program.like_run h _ rest n n' same
    case error.error => exact first
    all_goals exact first.elim

end

end TinyTcl
