import TinyTcl.Proofs.Evaluation.Batch
import TinyTcl.Proofs.Program.Notes
import TinyTcl.Proofs.Program.Occurrences

/-! What carrying commands out comes to. A `History` tells which commands were begun, what was done
inside each, and which value it gave if it ended well. The histories here are read off the evaluation
without tracing. They follow the commands as they are written, in order and each once, up to the
first that fails (`Program.covers`), and they are what tracing records: the trace has an entry for
each command that ended well, behind those for what was done inside it (`Program.records`). -/
namespace TinyTcl

/-- Commands that were begun, in order: what was done inside each, and its value if it ended well. -/
inductive History where
  | nil
  | cons (command : Command) (inside : History) (value : Option Value) (later : History)

/-- How many scopes are around what is done inside a command: a block opens one. -/
def Command.depthInside (c : Command) (depth : Nat) : Nat :=
  match c with
  | .block _ _ _ => depth + 1
  | _ => depth

namespace History

def append : History → History → History
  | nil, k => k
  | cons c inside value later, k => cons c inside value (later.append k)

/-- The trace entries of the commands that ended well, in the order in which they ended: that of a
command comes behind those of what was done inside it. -/
def entries : (depth : Nat) → History → List TraceEntry
  | _, nil => []
  | depth, cons c inside value later =>
    inside.entries (c.depthInside depth) ++
      ((value.map fun v => ⟨c.position.line, c.name, v.text, depth⟩).toList ++ later.entries depth)

/-- The commands that were begun, in the order in which they were. -/
def commands : History → List Command
  | nil => []
  | cons c inside _ later => c :: (inside.commands ++ later.commands)

/-- A history is one of carrying these commands out in order: of all of them, if `complete` says so,
or of those up to the first that failed. A command ends well only if all in it did. -/
inductive Covers : (h : History) → (commands : List Command) → (complete : Bool) → Prop where
  | all : Covers nil [] true
  | cut (rest : List Command) : Covers nil rest false
  | failed {c : Command} {inside : History} {rest : List Command} {complete : Bool} :
      Covers inside c.nested complete → Covers (cons c inside none nil) (c :: rest) false
  | ended {c : Command} {inside later : History} {v : Value} {rest : List Command}
      {complete : Bool} : Covers inside c.nested true → Covers later rest complete →
      Covers (cons c inside (some v) later) (c :: rest) complete

variable {h k : History} {cs ds : List Command} {complete : Bool} {depth : Nat}

@[simp] theorem append_nil (h : History) : h.append nil = h := by
  induction h with
  | nil => rfl
  | cons c inside value later _ ih => rw [append, ih]

@[simp] theorem entries_append (h k : History) :
    (h.append k).entries depth = h.entries depth ++ k.entries depth := by
  induction h with
  | nil => rfl
  | cons c inside value later _ ih => simp only [append, entries, ih, List.append_assoc]

@[simp] theorem commands_append (h k : History) :
    (h.append k).commands = h.commands ++ k.commands := by
  induction h with
  | nil => rfl
  | cons c inside value later _ ih => simp only [append, commands, ih, List.cons_append,
      List.append_assoc]

/-- There are no more entries than commands that were begun. -/
theorem length_entries_le (h : History) : (h.entries depth).length ≤ h.commands.length := by
  induction h generalizing depth with
  | nil => exact Nat.le_refl 0
  | cons c inside value later within behind =>
    have first := @within (c.depthInside depth)
    have last := @behind depth
    cases value <;> simp only [entries, commands, Option.map, Option.toList, List.length_append,
      List.length_cons, List.length_nil] <;> omega

/-- After a failure nothing is begun. -/
theorem Covers.append_of_failed (covers : h.Covers cs false) (ds : List Command) :
    h.Covers (cs ++ ds) false := by
  generalize failed : false = complete at covers
  induction covers with
  | all => cases failed
  | cut rest => exact failed ▸ .cut _
  | failed inside _ => exact .failed inside
  | ended inside _ _ ih => exact .ended inside (ih failed)

theorem Covers.append (covers : h.Covers cs true) (behind : k.Covers ds complete) :
    (h.append k).Covers (cs ++ ds) complete := by
  generalize whole : true = done at covers
  induction covers with
  | all => exact behind
  | cut rest => cases whole
  | failed inside _ => cases whole
  | ended inside _ _ ih => exact .ended inside (ih whole)

end History

namespace Eval

variable {α β : Type}

/-- The machine when something is over, well or not. -/
def reached (x : Eval α) (m : Machine) : Machine :=
  match x m with
  | .ok _ m' | .error _ m' => m'

/-- What something gives if it ends well. -/
def value? (x : Eval α) (m : Machine) : Option α :=
  match x m with
  | .ok value _ => some value
  | .error _ _ => none

/-- What is done behind something, if that ends well. -/
def afterwards (x : Eval α) (later : Machine → History) (m : Machine) : History :=
  match x m with
  | .ok _ m' => later m'
  | .error _ _ => .nil

section Outcome

variable {x : Eval α} {later : Machine → History} {m m' : Machine} {a : α} {failure : Failure}

theorem reached_of_ok (done : x m = .ok a m') : x.reached m = m' := by rw [reached, done]

theorem reached_of_error (done : x m = .error failure m') : x.reached m = m' := by
  rw [reached, done]

theorem value?_of_ok (done : x m = .ok a m') : x.value? m = some a := by rw [value?, done]

theorem value?_of_error (done : x m = .error failure m') : x.value? m = none := by
  rw [value?, done]

theorem reached_bind_of_ok (done : x m = .ok a m') (f : α → Eval β) :
    (x >>= f).reached m = (f a).reached m' := by
  rw [reached, bind_of_ok done]
  rfl

theorem value?_bind_of_ok (done : x m = .ok a m') (f : α → Eval β) :
    (x >>= f).value? m = (f a).value? m' := by
  rw [value?, bind_of_ok done]
  rfl

theorem afterwards_of_ok (done : x m = .ok a m') : x.afterwards later m = later m' := by
  rw [afterwards, done]

theorem afterwards_of_error (done : x m = .error failure m') : x.afterwards later m = .nil := by
  rw [afterwards, done]

end Outcome

end Eval

mutual

/-- What is done while an operand is evaluated. -/
def Expr.history (around : Surroundings) : Expr → Machine → History
  | .number _ _ | .word _ _ | .reference _ _ => fun _ => .nil
  | .quoted parts _ => Expr.joinHistory around parts
  | .substitution commands _ => Command.sequenceHistory around commands
  | .signed _ _ operand | .group operand => operand.history around
  | .binary left _ _ right => fun m =>
    (left.history around m).append ((left.eval around).afterwards (right.history around) m)

/-- What is done while operands are evaluated. -/
def Expr.joinHistory (around : Surroundings) : List Expr → Machine → History
  | [] => fun _ => .nil
  | first :: rest => fun m =>
    (first.history around m).append
      ((first.eval around).afterwards (Expr.joinHistory around rest) m)

/-- What is done inside a command. -/
def Command.inside (around : Surroundings) : Command → Machine → History
  | .set _ _ value | .puts _ value | .expr _ value => value.history around
  | .unset _ _ | .invoke _ _ _ => fun _ => .nil
  | .block _ _ program => fun m =>
    program.history { around with outer := .link m.bindings around.outer }
      { m with bindings := .empty }

/-- What is done while commands are carried out. -/
def Command.sequenceHistory (around : Surroundings) : List Command → Machine → History
  | [] => fun _ => .nil
  | first :: rest => fun m =>
    .cons first (first.inside around m) ((first.perform around).value? m)
      ((first.perform around).afterwards (Command.sequenceHistory around rest) m)

/-- What is done while a text is carried out. -/
def Program.history (around : Surroundings) : Program → Machine → History
  | .finish _ | .fault _ _ => fun _ => .nil
  | .step notes command rest => fun m =>
    .cons command (command.inside around (m.note notes))
      ((command.perform around).value? (m.note notes))
      ((command.perform around).afterwards (rest.history around) (m.note notes))

end

/-- All that a text delivers, carried out where `last` is the value so far. -/
def Program.evalFrom (around : Surroundings) (last : Value) (p : Program) : Eval Value := fun m =>
  (p.run around last m).result

/-! ### Histories follow what is written -/

namespace Eval

variable {α β : Type} {x : Eval α} {f : α → Eval β} {cs ds : List Command}
  {history later : Machine → History}

/-- The histories of something are of carrying these commands out, of all of them if it ends well. -/
def Covers (x : Eval α) (commands : List Command) (history : Machine → History) : Prop :=
  ∀ m, (history m).Covers commands (x.value? m).isSome

private theorem covers_nil (x : Eval α) : x.Covers [] fun _ => .nil := by
  intro m
  cases (x.value? m).isSome with
  | true => exact .all
  | false => exact .cut []

private theorem Covers.bind (h : x.Covers cs history) (next : ∀ a, (f a).Covers ds later) :
    (x >>= f).Covers (cs ++ ds) fun m => (history m).append (x.afterwards later m) := by
  intro m
  have first := h m
  dsimp only
  cases done : x m with
  | ok a m' =>
    rw [value?_of_ok done] at first
    rw [value?_bind_of_ok done, afterwards_of_ok done]
    exact first.append (next a m')
  | error failure m' =>
    rw [value?_of_error done] at first
    rw [value?_of_error (bind_of_error done), afterwards_of_error done, History.append_nil]
    exact first.append_of_failed ds

/-- Nothing is begun behind something. -/
theorem Covers.andThen (h : x.Covers cs history) (f : α → Eval β) :
    (x >>= f).Covers cs history := by
  intro m
  have whole := h.bind (fun a => covers_nil (f a)) m
  have none : x.afterwards (fun _ => .nil) m = .nil := by
    unfold afterwards
    split <;> rfl
  dsimp only at whole
  rwa [none, History.append_nil, List.append_nil] at whole

section CarryOut

variable {around : Surroundings} {c : Command} {act : Eval Value} {m m' : Machine}

theorem carryOut_plain (plain : around.tracing = false) (c : Command) (act : Eval Value) :
    carryOut around c act = mapDiagnostic (locate c) act := by
  rw [carryOut, plain]
  rfl

theorem carryOut_of_ok (plain : around.tracing = false) {v : Value} (done : act m = .ok v m') :
    carryOut around c act m = .ok v m' := by
  rw [carryOut_plain plain, mapDiagnostic, done]

theorem carryOut_of_error (plain : around.tracing = false) {failure : Failure}
    (done : act m = .error failure m') :
    carryOut around c act m = .error (failure.mapDiagnostic (locate c)) m' := by
  rw [carryOut_plain plain, mapDiagnostic, done]

end CarryOut

end Eval

/-- A text is carried out command by command. -/
theorem Program.evalFrom_step (notes : List Event) (command : Command) (rest : Program)
    (around : Surroundings) (last : Value) :
    (Program.step notes command rest).evalFrom around last = (do
      modify (·.note notes)
      let value ← Eval.carryOut around command (command.perform around)
      rest.evalFrom around value) := by
  funext m
  have noted : (modify (·.note notes) : Eval Unit) m = .ok () (m.note notes) := rfl
  rw [Eval.bind_of_ok noted]
  cases done : Eval.carryOut around command (command.perform around) (m.note notes) with
  | ok value m' =>
    rw [Eval.bind_of_ok done]
    simp only [evalFrom, run, done]
  | error failure m' =>
    rw [Eval.bind_of_error done]
    simp only [evalFrom, run, done, Progress.result]

mutual

/-- What is done while an operand is evaluated is to carry out the commands in it. -/
theorem Expr.covers {around : Surroundings} (plain : around.tracing = false) :
    (e : Expr) → (e.eval around).Covers e.nested (e.history around)
  | .number _ _ | .word _ _ | .reference _ _ => by
    unfold Expr.nested Expr.history
    exact Eval.covers_nil _
  | .quoted parts _ => by
    unfold Expr.eval Expr.nested Expr.history
    exact (Expr.joinCovers plain parts).andThen _
  | .substitution commands _ => by
    unfold Expr.eval Expr.nested Expr.history
    exact Command.sequenceCovers plain .empty commands
  | .signed _ _ operand => by
    unfold Expr.eval Expr.nested Expr.history
    exact (operand.covers plain).andThen _
  | .binary left _ _ right => by
    unfold Expr.eval Expr.nested Expr.history
    exact (left.covers plain).bind fun _ => (right.covers plain).andThen _
  | .group inner => by
    unfold Expr.eval Expr.nested Expr.history
    exact inner.covers plain

theorem Expr.joinCovers {around : Surroundings} (plain : around.tracing = false) :
    (es : List Expr) →
    (Expr.join around es).Covers (Expr.nested.joined es) (Expr.joinHistory around es)
  | [] => by
    unfold Expr.nested.joined Expr.joinHistory
    exact Eval.covers_nil _
  | first :: rest => by
    unfold Expr.join Expr.nested.joined Expr.joinHistory
    exact (first.covers plain).bind fun _ => (Expr.joinCovers plain rest).andThen _

theorem Command.covers {around : Surroundings} (plain : around.tracing = false) :
    (c : Command) → (c.perform around).Covers c.nested (c.inside around)
  | .set _ target value => by
    unfold Command.perform Command.nested Command.inside
    exact (value.covers plain).andThen _
  | .unset _ _ | .invoke _ _ _ => by
    unfold Command.nested Command.inside
    exact Eval.covers_nil _
  | .puts _ value => by
    unfold Command.perform Command.nested Command.inside
    exact (value.covers plain).andThen _
  | .expr _ operand => by
    unfold Command.perform Command.nested Command.inside
    exact (operand.covers plain).andThen _
  | .block _ _ program => by
    unfold Command.perform Command.nested Command.inside
    intro m
    have inner : { around with outer := Chain.link m.bindings around.outer }.tracing = false :=
      plain
    have done := Program.covers inner .empty program { m with bindings := .empty }
    unfold Eval.inChild Eval.value? Program.evalFrom at *
    dsimp only at done ⊢
    revert done
    cases (program.run { around with outer := .link m.bindings around.outer } .empty
      { m with bindings := .empty }).result <;> exact id

theorem Command.sequenceCovers {around : Surroundings} (plain : around.tracing = false)
    (last : Value) : (cs : List Command) →
    (Command.sequence around last cs).Covers cs (Command.sequenceHistory around cs)
  | [] => by
    unfold Command.sequenceHistory
    exact Eval.covers_nil _
  | first :: rest => by
    unfold Command.sequenceHistory
    intro m
    have here := Command.covers plain first m
    dsimp only
    cases done : first.perform around m with
    | ok v m' =>
      rw [Eval.value?_of_ok done] at here
      rw [Eval.value?_of_ok done, Eval.afterwards_of_ok done, Eval.value?,
        Command.sequence_cons_ok (Eval.carryOut_of_ok plain done)]
      exact .ended here (Command.sequenceCovers plain v rest m')
    | error failure m' =>
      rw [Eval.value?_of_error done] at here
      rw [Eval.value?_of_error done, Eval.afterwards_of_error done, Eval.value?,
        Command.sequence_cons_error (Eval.carryOut_of_error plain done)]
      exact .failed here

/-- What is done while a text is carried out is to carry out the commands it delivers. -/
theorem Program.covers {around : Surroundings} (plain : around.tracing = false) (last : Value) :
    (p : Program) → (p.evalFrom around last).Covers p.delivery.1 (p.history around)
  | .finish _ | .fault _ _ => by
    unfold Program.history
    exact Eval.covers_nil _
  | .step notes command rest => by
    rw [Program.evalFrom_step]
    unfold Program.history
    intro m
    have here := Command.covers plain command (m.note notes)
    have noted : (modify (·.note notes) : Eval Unit) m = .ok () (m.note notes) := rfl
    dsimp only
    rw [Eval.value?_bind_of_ok noted]
    cases done : command.perform around (m.note notes) with
    | ok v m' =>
      rw [Eval.value?_of_ok done] at here
      rw [Eval.value?_of_ok done, Eval.afterwards_of_ok done,
        Eval.value?_bind_of_ok (Eval.carryOut_of_ok plain done)]
      exact .ended here (Program.covers plain v rest m')
    | error failure m' =>
      rw [Eval.value?_of_error done] at here
      rw [Eval.value?_of_error done, Eval.afterwards_of_error done,
        Eval.value?_of_error (Eval.bind_of_error (Eval.carryOut_of_error plain done))]
      exact .failed here

end

end TinyTcl
