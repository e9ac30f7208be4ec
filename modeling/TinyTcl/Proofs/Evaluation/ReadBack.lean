import TinyTcl.Proofs.Evaluation.Batch
import TinyTcl.Proofs.Evaluation.Exact
import TinyTcl.Proofs.Program.Printed

/-! Integers that were printed are read back. A script is run wherever it may be: in a scope of any
content, with or without tracing (`Text.Yields`). What is read from the decimal form is an
expression over integers, so the exactness of integer arithmetic tells its value
(`Expr.value_of_ofInt`).

Main statement: the decimal form of an integer gives that integer as an expression, in braces, and
from a variable, except for the least integer, whose magnitude does not fit behind the sign of an
expression (`printed_integer`). -/
namespace TinyTcl

/-! ### Values -/

private theorem Integer.eq_of_val_eq {i j : Integer} (h : i.val = j.val) : i = j := by
  cases i
  cases j
  cases h
  rfl

private theorem Text.ofInt_natCast (n : Nat) : ofInt n = ofNat n := by
  have positive : ¬ (n : Int) < 0 := by omega
  rw [ofInt, if_neg positive, Int.natAbs_natCast]

private theorem Value.denotes_ofInt {n : Int} (short : (Text.ofNat n.natAbs).length ≤ maxDigits) :
    (Value.string (Text.ofInt n)).Denotes n := by
  obtain ⟨negative, digits, read, value, length⟩ := Numeral.ofText?_ofInt n
  have few : digits.length ≤ maxDigits := length ▸ short
  have denotes := Value.Denotes.numeral (Numeral.ofText?_eq_some_iff.mp read) few
  rwa [value] at denotes

namespace Expr

/-- As an expression, the decimal form of an integer has that integer as its exact value. It stays
in range unless the magnitude leaves it. -/
theorem value_of_ofInt {n : Integer} {e : Expr} (alike : (Expr.ofInt n.val).SameShape e)
    (scope : Chain) : e.Integral scope ∧ e.exact scope = some n.val ∧
      ¬ e.DividesByZero scope ∧ (e.InRange scope ↔ n.val ≠ -Integer.bound) := by
  have fits := n.fits
  have denotes : (Value.string (Text.ofNat n.val.natAbs)).Denotes n.val.natAbs := by
    rw [← Text.ofInt_natCast]
    exact Value.denotes_ofInt n.length_magnitude_le
  have magnitude (t : Token) : (number (Text.ofNat n.val.natAbs) t).exact scope =
      some (n.val.natAbs : Int) := denotes.integer?
  unfold Expr.ofInt at alike
  split at alike
  · next negative =>
    cases alike with
    | @signed _ _ _ _ q _ inner =>
      cases inner with
      | @number _ _ u _ =>
        have value : (signed .negative q (number (Text.ofNat n.val.natAbs) u)).exact scope =
            some n.val := by
          rw [exact, magnitude, Option.map_some, Sign.onInteger]
          congr 1
          omega
        refine ⟨⟨_, denotes⟩, value, ?_, ?_⟩
        · rw [dividesByZero_signed]
          exact not_dividesByZero_of_leaf rfl
        · rw [inRange_signed, inRange_of_leaf rfl, value, magnitude]
          simp only [Option.some.injEq, forall_eq']
          unfold Integer.Fits Integer.bound at *
          omega
  · next positive =>
    cases alike with
    | @number _ _ u _ =>
      have same : (n.val.natAbs : Int) = n.val := by omega
      refine ⟨⟨_, denotes⟩, (magnitude u).trans (congrArg some same),
        not_dividesByZero_of_leaf rfl, ?_⟩
      rw [inRange_of_leaf rfl, magnitude]
      simp only [Option.some.injEq, forall_eq']
      unfold Integer.Fits Integer.bound at *
      omega

end Expr

namespace Command

variable {around : Surroundings} {m : Machine} {p : Position} {e : Expr} {n : Integer}
  (ready : around.Traceable)

include ready

/-- What has an exact value, and stays in range, has this value. -/
theorem execute_of_exact (integral : e.Integral (m.scope around))
    (exact : e.exact (m.scope around) = some n.val) (range : e.InRange (m.scope around))
    (whole : ¬ e.DividesByZero (m.scope around)) :
    ∃ m', (expr p e).execute around m = .ok (.number (.integer n)) m' := by
  have computes := computes_execute (p := p) ready integral
  generalize (expr p e).execute around m = done at computes
  cases computes with
  | value same =>
    rw [Integer.eq_of_val_eq (Option.some.inj (same.symm.trans exact))]
    exact ⟨_, rfl⟩
  | overflow outside => exact absurd range outside
  | division zero => exact absurd zero whole

private theorem execute_of_ofInt (alike : (Expr.ofInt n.val).SameShape e)
    (other : n.val ≠ -Integer.bound) :
    ∃ m', (expr p e).execute around m = .ok (.number (.integer n)) m' := by
  obtain ⟨integral, exact, whole, range⟩ := Expr.value_of_ofInt alike (m.scope around)
  exact execute_of_exact ready integral exact (range.mpr other) whole

private theorem execute_of_least (alike : (Expr.ofInt n.val).SameShape e)
    (least : n.val = -Integer.bound) :
    ∃ d t m', (expr p e).execute around m = .error (.diagnostic d) m' ∧ d.cause = .overflow t := by
  obtain ⟨integral, _, whole, range⟩ := Expr.value_of_ofInt alike (m.scope around)
  have computes := computes_execute (p := p) ready integral
  generalize (expr p e).execute around m = done at computes
  cases computes with
  | value _ inside => exact absurd least (range.mp inside)
  | overflow _ cause => exact ⟨_, _, _, rfl, cause⟩
  | division zero => exact absurd zero whole

private theorem execute_set (name text : Text) (t : Token) :
    ∃ m', (set p name (.number text t)).execute around m = .ok (.string text) m' ∧
      m'.bindings = m.bindings.insert name (.string text) := by
  have performed : (set p name (.number text t)).perform around m =
      .ok (.string text) { m with bindings := m.bindings.insert name (.string text) } := by
    unfold perform Expr.eval
    rfl
  obtain ⟨m', executed, bindings, _⟩ := execute_of_perform ready performed
  exact ⟨m', executed, bindings⟩

/-- A variable that is bound to the decimal form of an integer has that integer as its value. -/
theorem execute_reference {name : Text} {q : Position}
    (bound : m.bindings.find? name = some (.string (Text.ofInt n.val))) :
    ∃ m', (expr p (.reference name q)).execute around m = .ok (.number (.integer n)) m' := by
  have denotes : (Value.string (Text.ofInt n.val)).Denotes n.val :=
    Value.denotes_ofInt n.length_magnitude_le
  have found : (m.scope around).lookup name = .ok (.string (Text.ofInt n.val)) :=
    Chain.lookup_link_of_find? bound
  have exact : (Expr.reference name q).exact (m.scope around) = some n.val := by
    simp only [Expr.exact, found, denotes.integer?]
  refine execute_of_exact ready ⟨_, _, found, denotes⟩ exact ?_ (Expr.not_dividesByZero_of_leaf rfl)
  rw [Expr.inRange_of_leaf rfl, exact]
  rintro z ⟨⟩
  exact n.fits

end Command

/-! ### Scripts -/

theorem Diagnostic.cause_inFile (d : Diagnostic) (filename : Option Text) :
    (d.inFile filename).cause = d.cause := by
  unfold inFile
  split <;> rfl

namespace Interpreter.Fresh

variable {i : Interpreter} {source : Text} {filename : Option Text} {commands : List Command}
  {s : Store} {value : Value} {failure : Failure} {m : Machine}

private theorem outcome (fresh : i.Fresh source filename)
    (read : (Grammar.program (.ofText source .start)).commands = .ok commands) :
    (i.run s).outcome =
      (i.execute s commands).outcome.mapError (·.mapDiagnostic (·.inFile filename)) := by
  have follows := follows_run fresh s
  have sound : (Reader.ofText source filename .start).program.commands = .ok commands := read
  rw [Program.delivery_of_commands sound] at follows
  exact follows.outcome.1

theorem outcome_of_ok (fresh : i.Fresh source filename)
    (read : (Grammar.program (.ofText source .start)).commands = .ok commands)
    (ran : Command.sequence (i.surroundings s i.scope) .empty commands (i.machine s i.scope) =
      .ok value m) : (i.run s).outcome = .ok value := by
  rw [fresh.outcome read, execute_of_ok ran]
  rfl

theorem outcome_of_error (fresh : i.Fresh source filename)
    (read : (Grammar.program (.ofText source .start)).commands = .ok commands)
    (ran : Command.sequence (i.surroundings s i.scope) .empty commands (i.machine s i.scope) =
      .error failure m) :
    (i.run s).outcome = .error (failure.mapDiagnostic (·.inFile filename)) := by
  rw [fresh.outcome read, execute_of_error ran]
  rfl

end Interpreter.Fresh

namespace Text

/-- Wherever a script is run, its value is this one. Where commands are traced, the scopes around
must be there. -/
def Yields (source : Text) (value : Value) : Prop :=
  ∀ (i : Interpreter) (filename : Option Text) (s : Store), i.Fresh source filename →
    (i.surroundings s i.scope).Traceable → (i.run s).outcome = .ok value

/-- Wherever a script is run, it fails because some integer does not fit into 64 bits. -/
def Overflows (source : Text) : Prop :=
  ∀ (i : Interpreter) (filename : Option Text) (s : Store), i.Fresh source filename →
    (i.surroundings s i.scope).Traceable →
      ∃ d t, (i.run s).outcome = .error (.diagnostic d) ∧ d.cause = .overflow t

private theorem yields_of_command {source : Text} {value : Value} {c : Command}
    (read : (Grammar.program (.ofText source .start)).commands = .ok [c])
    (ends : ∀ around m, around.Traceable → ∃ m', c.execute around m = .ok value m') :
    source.Yields value := by
  intro i filename s fresh ready
  obtain ⟨m', done⟩ := ends _ (i.machine s i.scope) ready
  refine fresh.outcome_of_ok read (m := m') ?_
  rw [Command.sequence_cons_ok done, Command.sequence]
  rfl

private theorem overflows_of_command {source : Text} {c : Command}
    (read : (Grammar.program (.ofText source .start)).commands = .ok [c])
    (ends : ∀ around m, around.Traceable →
      ∃ d t m', c.execute around m = .error (.diagnostic d) m' ∧ d.cause = .overflow t) :
    source.Overflows := by
  intro i filename s fresh ready
  obtain ⟨d, t, m', fails, cause⟩ := ends _ (i.machine s i.scope) ready
  exact ⟨_, t, fresh.outcome_of_error read (Command.sequence_cons_error fails),
    (Diagnostic.cause_inFile d filename).trans cause⟩

/-- What overflows has no value. -/
theorem Overflows.not_yields {source : Text} (h : source.Overflows) (value : Value) :
    ¬ source.Yields value := by
  intro yields
  have fresh := Interpreter.fresh_ofScope source none 0 false defaultBanner
  obtain ⟨d, t, fails, _⟩ := h _ none .empty fresh nofun
  cases (yields _ none .empty fresh nofun).symm.trans fails

section Printed

variable (n : Integer)

private theorem yields_ofInt (other : n.val ≠ -Integer.bound) :
    Yields ("expr ".toList ++ (Number.integer n).text) (.number (.integer n)) ∧
      Yields ("expr \x7b".toList ++ (Number.integer n).text ++ ['}']) (.number (.integer n)) := by
  obtain ⟨p, e, plain, alike⟩ := Grammar.commands_of_ofInt n.val .start
  obtain ⟨q, f, braced, alike'⟩ := Grammar.commands_of_bracedInt n.val .start
  exact ⟨yields_of_command plain fun _ _ ready => Command.execute_of_ofInt ready alike other,
    yields_of_command braced fun _ _ ready => Command.execute_of_ofInt ready alike' other⟩

private theorem overflows_least (least : n.val = -Integer.bound) :
    Overflows ("expr ".toList ++ (Number.integer n).text) ∧
      Overflows ("expr \x7b".toList ++ (Number.integer n).text ++ ['}']) := by
  obtain ⟨p, e, plain, alike⟩ := Grammar.commands_of_ofInt n.val .start
  obtain ⟨q, f, braced, alike'⟩ := Grammar.commands_of_bracedInt n.val .start
  exact ⟨overflows_of_command plain fun _ _ ready => Command.execute_of_least ready alike least,
    overflows_of_command braced fun _ _ ready => Command.execute_of_least ready alike' least⟩

private theorem yields_assigned {name : Text} (bare : BareWord name) {separator : Char}
    (separates : separator = ';' ∨ separator = '\n') :
    Yields ("set ".toList ++ name ++ ' ' :: (Number.integer n).text ++
      separator :: ("expr $".toList ++ name)) (.number (.integer n)) := by
  obtain ⟨p, t, q, r, read⟩ := Grammar.commands_of_assignedInt n.val .start bare separates
  intro i filename s fresh ready
  obtain ⟨m', assigned, bindings⟩ :=
    Command.execute_set (p := p) (m := i.machine s i.scope) ready name (Text.ofInt n.val) t
  have bound : m'.bindings.find? name = some (.string (Text.ofInt n.val)) := by
    rw [bindings, Table.find?_insert, if_pos rfl]
  obtain ⟨m'', done⟩ := Command.execute_reference (p := q) (q := r) ready bound
  refine fresh.outcome_of_ok read (m := m'') ?_
  rw [Command.sequence_cons_ok assigned, Command.sequence_cons_ok done, Command.sequence]
  rfl

end Printed

/-- **Printed integers are read back.** The decimal form of an integer, as the text of an expression
with braces or without, has that integer as its value, and so has a variable that it is set to. But
a sign in an expression is an operator of its own: the least integer has a magnitude that does not
fit, so its decimal form is read back from a variable alone. -/
theorem printed_integer (n : Integer) :
    (n.val ≠ -Integer.bound →
      Yields ("expr ".toList ++ (Number.integer n).text) (.number (.integer n)) ∧
        Yields ("expr \x7b".toList ++ (Number.integer n).text ++ ['}']) (.number (.integer n))) ∧
    (∀ name separator, BareWord name → separator = ';' ∨ separator = '\n' →
      Yields ("set ".toList ++ name ++ ' ' :: (Number.integer n).text ++
        separator :: ("expr $".toList ++ name)) (.number (.integer n))) ∧
    (n.val = -Integer.bound →
      Overflows ("expr ".toList ++ (Number.integer n).text) ∧
        Overflows ("expr \x7b".toList ++ (Number.integer n).text ++ ['}'])) :=
  ⟨yields_ofInt n, fun _ _ bare separates => yields_assigned n bare separates, overflows_least n⟩

theorem printed_integer_of_minusSeven :
    Yields "expr -7".toList (.number (.integer ⟨-7, by decide⟩)) ∧
      Yields "expr \x7b-7\x7d".toList (.number (.integer ⟨-7, by decide⟩)) ∧
      Yields "set v -7\nexpr $v".toList (.number (.integer ⟨-7, by decide⟩)) := by
  have text : (Number.integer ⟨-7, by decide⟩).text = ['-', '7'] := by decide +kernel
  obtain ⟨other, assigned, -⟩ := printed_integer ⟨-7, by decide⟩
  obtain ⟨plain, braced⟩ := other (by decide)
  have stored := assigned ['v'] '\n' (.name (by decide +kernel) (by simp)) (.inr rfl)
  rw [text] at plain braced stored
  exact ⟨plain, braced, stored⟩

/-- The least integer is not read back from an expression. -/
theorem printed_integer_of_least :
    ¬ Yields "expr -9223372036854775808".toList
        (.number (.integer ⟨-Integer.bound, by decide⟩)) ∧
      ¬ Yields "expr \x7b-9223372036854775808\x7d".toList
        (.number (.integer ⟨-Integer.bound, by decide⟩)) := by
  have text : (Number.integer ⟨-Integer.bound, by decide⟩).text =
      "-9223372036854775808".toList := by decide +kernel
  obtain ⟨plain, braced⟩ := overflows_least ⟨-Integer.bound, by decide⟩ rfl
  rw [text] at plain braced
  exact ⟨plain.not_yields _, braced.not_yields _⟩

end Text

end TinyTcl
