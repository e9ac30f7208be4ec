import TinyTcl.Proofs.Evaluation.History
import TinyTcl.Proofs.Scope.Changes

/-! How commands change the scope in use. A variable that is set or unset is bound or unbound there,
and what a block does is gone with its scope. So the bindings behind an evaluation are those before
it with the steps that its history tells replayed, whether it ends well or not
(`Program.replays` and its companions, by one induction along the trees). -/
namespace TinyTcl

/-- The steps of a command on the scope in use, by the steps of what is done inside it and by its
value. A removal that fails has been made. -/
def Command.changes (c : Command) (inside : List Change) (value : Option Value) : List Change :=
  match c with
  | .set _ target _ => inside ++ (value.map (Change.bind target)).toList
  | .unset _ target => inside ++ [.unbind target]
  | .block _ _ _ => []
  | .puts _ _ | .expr _ _ | .invoke _ _ _ => inside

/-- The steps on the scope in use, in order. -/
def History.changes : History → List Change
  | nil => []
  | cons c inside value later => c.changes inside.changes value ++ later.changes

@[simp] theorem History.changes_append (h k : History) :
    (h.append k).changes = h.changes ++ k.changes := by
  induction h with
  | nil => rfl
  | cons c inside value later _ ih => simp only [append, changes, ih, List.append_assoc]

namespace Eval

variable {α β : Type} {x : Eval α} {f : α → Eval β} {steps : Machine → List Change}
  {history later : Machine → History}

/-- Something changes the bindings in use by these steps. -/
def Replays (x : Eval α) (steps : Machine → List Change) : Prop :=
  ∀ m, (x.reached m).bindings = Change.replay (steps m) m.bindings

private theorem replays_pure (a : α) : Replays (pure a : Eval α) fun _ => [] := fun _ => rfl

private theorem replays_throw (failure : Failure) : Replays (throw failure : Eval α) fun _ => [] :=
  fun _ => rfl

private theorem replays_ofExcept (e : Except Failure α) : Replays (ofExcept e) fun _ => [] := by
  cases e with
  | ok a => exact replays_pure a
  | error failure => exact replays_throw failure

private theorem reached_mapDiagnostic (change : Diagnostic → Diagnostic) (x : Eval α)
    (m : Machine) :
    (mapDiagnostic change x).reached m = x.reached m := by
  unfold reached mapDiagnostic
  cases x m <;> rfl

private theorem Replays.mapDiagnostic (h : x.Replays steps) (change : Diagnostic → Diagnostic) :
    (mapDiagnostic change x).Replays steps := by
  intro m
  rw [reached_mapDiagnostic]
  exact h m

private theorem Replays.bind (h : x.Replays fun m => (history m).changes)
    (next : ∀ a, (f a).Replays fun m => (later m).changes) :
    (x >>= f).Replays fun m => ((history m).append (x.afterwards later m)).changes := by
  intro m
  have first := h m
  dsimp only
  cases done : x m with
  | ok a m' =>
    rw [reached_of_ok done] at first
    rw [reached_bind_of_ok done, next a m', first, afterwards_of_ok done, History.changes_append,
      Change.replay_append]
  | error failure m' =>
    rw [reached_of_error done] at first
    rw [reached_of_error (bind_of_error done), first, afterwards_of_error done,
      History.append_nil]

/-- Nothing is changed behind something. -/
theorem Replays.andThen (h : x.Replays steps) (next : ∀ a, (f a).Replays fun _ => []) :
    (x >>= f).Replays steps := by
  intro m
  have first := h m
  cases done : x m with
  | ok a m' =>
    rw [reached_of_ok done] at first
    rw [reached_bind_of_ok done, next a m', first, Change.replay_nil]
  | error failure m' =>
    rw [reached_of_error done] at first
    rw [reached_of_error (bind_of_error done), first]

private theorem replays_lookup (around : Surroundings) (name : Text) :
    Replays (lookup around name) fun _ => [] :=
  fun m => replays_ofExcept ((Chain.link m.bindings around.outer).lookup name) m

private theorem replays_remove (around : Surroundings) (name : Text) :
    Replays (remove around name) fun _ => [.unbind name] := by
  intro m
  change (reached (if m.bindings.contains name then _ else _ : Eval Unit) m).bindings =
    m.bindings.erase name
  split
  · change (reached (do note (.removed name (← ofExcept around.outer.depth)) : Eval Unit)
      { m with bindings := m.bindings.erase name }).bindings = _
    cases around.outer.depth <;> rfl
  · next unbound =>
    have missing : m.bindings.contains name = false := by simpa using unbound
    exact (Table.erase_of_unbound missing).symm

/-- What is done in a new scope is gone with it. -/
theorem replays_inChild (around : Surroundings) (act : Surroundings → Eval α) :
    Replays (inChild around act) fun _ => [] := by
  intro m
  unfold reached inChild
  dsimp only
  generalize act _ _ = result
  cases result <;> rfl

/-- A command changes the bindings in use, and then what comes behind it does. -/
theorem Replays.carryOut {around : Surroundings} (plain : around.tracing = false) {c : Command}
    {inside : Machine → History} {act : Eval Value} {f : Value → Eval β}
    (here : act.Replays fun m => c.changes (inside m).changes (act.value? m))
    (next : ∀ v, (f v).Replays fun m => (later m).changes) :
    (carryOut around c act >>= f).Replays fun m =>
      (History.cons c (inside m) (act.value? m) (act.afterwards later m)).changes := by
  intro m
  have first := here m
  dsimp only [History.changes]
  cases done : act m with
  | ok v m' =>
    rw [reached_of_ok done] at first
    rw [reached_bind_of_ok (carryOut_of_ok plain done), next v m', first,
      afterwards_of_ok done, Change.replay_append]
  | error failure m' =>
    rw [reached_of_error done] at first
    rw [reached_of_error (bind_of_error (carryOut_of_error plain done)), first,
      afterwards_of_error done, History.changes, List.append_nil]

end Eval

mutual

theorem Expr.replays {around : Surroundings} (plain : around.tracing = false) :
    (e : Expr) → (e.eval around).Replays fun m => (e.history around m).changes
  | .number _ _ | .word _ _ => by
    unfold Expr.eval Expr.history
    exact Eval.replays_pure _
  | .reference name _ => by
    unfold Expr.eval Expr.history
    exact (Eval.replays_lookup around name).mapDiagnostic _
  | .quoted parts _ => by
    unfold Expr.eval Expr.history
    exact (Expr.joinReplays plain parts).andThen fun _ => Eval.replays_pure _
  | .substitution commands _ => by
    unfold Expr.eval Expr.history
    exact Command.sequenceReplays plain .empty commands
  | .signed _ _ operand => by
    unfold Expr.eval Expr.history
    exact (operand.replays plain).andThen fun _ => Eval.replays_ofExcept _
  | .binary left _ _ right => by
    unfold Expr.eval Expr.history
    exact (left.replays plain).bind fun _ =>
      (right.replays plain).andThen fun _ => Eval.replays_ofExcept _
  | .group inner => by
    unfold Expr.eval Expr.history
    exact inner.replays plain

theorem Expr.joinReplays {around : Surroundings} (plain : around.tracing = false) :
    (es : List Expr) →
    (Expr.join around es).Replays fun m => (Expr.joinHistory around es m).changes
  | [] => by
    unfold Expr.join Expr.joinHistory
    exact Eval.replays_pure _
  | first :: rest => by
    unfold Expr.join Expr.joinHistory
    exact (first.replays plain).bind fun _ =>
      (Expr.joinReplays plain rest).andThen fun _ => Eval.replays_pure _

theorem Command.replays {around : Surroundings} (plain : around.tracing = false) :
    (c : Command) → (c.perform around).Replays fun m =>
      c.changes (c.inside around m).changes ((c.perform around).value? m)
  | .set _ target value => by
    unfold Command.perform Command.inside Command.changes
    intro m
    have first := value.replays plain m
    dsimp only
    cases done : value.eval around m with
    | ok v m' =>
      rw [Eval.reached_of_ok done] at first
      rw [Eval.reached_bind_of_ok done, Eval.value?_bind_of_ok done]
      change m'.bindings.insert target v = Change.replay (_ ++ [.bind target v]) m.bindings
      rw [first, Change.replay_concat]
      rfl
    | error failure m' =>
      rw [Eval.reached_of_error done] at first
      have fails := Eval.bind_of_error (f := Eval.define target) done
      rw [Eval.reached_of_error fails, Eval.value?_of_error fails, first]
      exact congrArg (Change.replay · m.bindings) (List.append_nil _).symm
  | .unset _ target => by
    unfold Command.perform Command.inside Command.changes
    exact (Eval.replays_remove around target).andThen fun _ => Eval.replays_pure _
  | .puts _ value => by
    unfold Command.perform Command.inside Command.changes
    exact (value.replays plain).andThen fun _ _ => rfl
  | .expr _ operand => by
    unfold Command.perform Command.inside Command.changes
    exact (operand.replays plain).andThen fun _ => Eval.replays_ofExcept _
  | .block _ _ program => by
    unfold Command.perform Command.changes
    exact Eval.replays_inChild around _
  | .invoke _ _ _ => by
    unfold Command.perform Command.inside Command.changes
    exact Eval.replays_throw _

theorem Command.sequenceReplays {around : Surroundings} (plain : around.tracing = false)
    (last : Value) : (cs : List Command) → (Command.sequence around last cs).Replays fun m =>
      (Command.sequenceHistory around cs m).changes
  | [] => by
    unfold Command.sequence Command.sequenceHistory
    exact Eval.replays_pure _
  | first :: rest => by
    unfold Command.sequence Command.sequenceHistory
    exact (first.replays plain).carryOut plain fun v => Command.sequenceReplays plain v rest

end

theorem Program.replays {around : Surroundings} (plain : around.tracing = false) (last : Value)
    (p : Program) : (p.evalFrom around last).Replays fun m => (p.history around m).changes := by
  induction p generalizing last with
  | finish notes =>
    unfold Program.history
    exact fun _ => rfl
  | fault notes d =>
    unfold Program.history
    exact fun _ => rfl
  | step notes command rest ih =>
    rw [Program.evalFrom_step]
    unfold Program.history
    intro m
    exact (command.replays plain).carryOut plain ih (m.note notes)

/-! ### Under tracing -/

private theorem Eval.Like.reached {α : Type} {traced : Prop} {x y : Eval α} (h : x.Like traced y)
    {m m' : Machine} (same : m.Like traced m') : (x.reached m).Like traced (y.reached m') := by
  have done := h m m' same
  cases left : x m <;> cases right : y m' <;> rw [left, right] at done
  case ok.ok =>
    rw [reached_of_ok left, reached_of_ok right]
    exact done.2
  case error.error =>
    rw [reached_of_error left, reached_of_error right]
    exact done.2
  all_goals exact done.elim

/-- Under tracing nothing is begun where a scope around is gone. -/
theorem Eval.carryOut_of_lost {around : Surroundings} (tracing : around.tracing = true)
    (lost : around.outer.isWhole = false) (c : Command) (act : Eval Value) (m : Machine) :
    ∃ failure, carryOut around c act m = .error failure m := by
  unfold carryOut
  rw [if_pos tracing]
  cases known : around.outer.depth with
  | ok depth =>
    have whole := (Chain.depth_isOk_iff _).mp ⟨depth, known⟩
    rw [lost] at whole
    cases whole
  | error failure => exact ⟨failure, rfl⟩

/-- The steps of what is done in some surroundings, by its history without tracing. -/
def Surroundings.changes (around : Surroundings) (history : Surroundings → Machine → History)
    (m : Machine) : List Change :=
  if around.tracing && !around.outer.isWhole then []
  else (history { around with tracing := false } m).changes

/-- Histories tell by which steps something changes the bindings in use, traced or not. -/
structure Surroundings.Told {α : Type} (body : Surroundings → Eval α)
    (history : Surroundings → Machine → History) : Prop where
  replays : ∀ around, around.tracing = false →
    (body around).Replays fun m => (history around m).changes
  like : ∀ around around', around.Like False around' → (body around).Like False (body around')
  lost : ∀ around, around.tracing = true → around.outer.isWhole = false →
    (body around).Replays fun _ => []

namespace Surroundings

theorem Told.bindings_reached {α : Type} {body : Surroundings → Eval α}
    {history : Surroundings → Machine → History} (h : Told body history) (around : Surroundings)
    {m m' : Machine} (same : m.Like False m') : ((body around).reached m').bindings =
      Change.replay (around.changes history m) m.bindings := by
  unfold changes
  split
  · next stopped =>
    obtain ⟨tracing, lost⟩ : around.tracing = true ∧ around.outer.isWhole = false := by
      simpa using stopped
    rw [h.lost around tracing lost m', same.bindings]
  · next goes =>
    have alike : Like False { around with tracing := false } around := by
      refine ⟨rfl, rfl, ?_⟩
      cases tracing : around.tracing with
      | false => exact .inl rfl
      | true => exact .inr ⟨not_false, by simpa [tracing] using goes⟩
    rw [((h.like _ _ alike).reached same).bindings]
    exact h.replays _ rfl m

theorem told_sequence (cs : List Command) :
    Told (fun around => Command.sequence around .empty cs)
      fun around => Command.sequenceHistory around cs where
  replays _ plain := Command.sequenceReplays plain .empty cs
  like _ _ h := Command.like_sequence h .empty cs
  lost around tracing lost m := by
    cases cs with
    | nil => rfl
    | cons first rest =>
      obtain ⟨failure, stops⟩ :=
        Eval.carryOut_of_lost tracing lost first (first.perform around) m
      rw [Eval.reached_of_error (Command.sequence_cons_error stops)]
      rfl

theorem told_program (p : Program) (last : Value) :
    Told (fun around => p.evalFrom around last) fun around => p.history around where
  replays _ plain := p.replays plain last
  like _ _ h := Program.like_run h last p
  lost around tracing lost m := by
    cases p with
    | finish notes => rfl
    | fault notes d => rfl
    | step notes command rest =>
      obtain ⟨failure, stops⟩ :=
        Eval.carryOut_of_lost tracing lost command (command.perform around) (m.note notes)
      have noted : (modify (·.note notes) : Eval Unit) m = .ok () (m.note notes) := rfl
      rw [Program.evalFrom_step, Eval.reached_bind_of_ok noted,
        Eval.reached_of_error (Eval.bind_of_error stops)]
      rfl

end Surroundings
end TinyTcl
