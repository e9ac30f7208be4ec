import TinyTcl.Proofs.Evaluation.Tracing
import TinyTcl.Proofs.Program.Placed

/-! Diagnostics point at the culprit. Every fault of a run carries the name of the script and a
place in it. The place is where the fault arose: at a dollar sign for a variable that is not bound,
at the name of an unknown command, at the operator or the `expr` that wanted a number. Reading
leaves these places in the commands (`placed_program`); evaluating only passes them on
(`Command.blames_perform` and its companions, by one induction along the trees). Main statement:
`Interpreter.run_blames`. -/
namespace TinyTcl

/-- What may stand at the place of a fault, by its cause. -/
def Cause.marks : Cause → List Text
  | unboundVariable _ => [['$']]
  | divisionByZero => [['/']]
  | unknownCommand name => [name]
  | notNumeric _ | overflow _ => [['+'], ['-'], ['*'], ['/'], "expr".toList]
  | _ => [[]]

/-- Whether a cause is that something cannot be used as a number. -/
def Cause.IsNumeric : Cause → Prop
  | notNumeric _ | overflow _ => True
  | _ => False

private theorem Cause.IsNumeric.marks_eq {cause : Cause} (h : cause.IsNumeric) :
    cause.marks = [['+'], ['-'], ['*'], ['/'], "expr".toList] := by
  cases cause with
  | notNumeric | overflow => rfl
  | _ => exact h.elim

/-- A diagnostic at a place where the script shows what the cause says. If it names a script, it is
this one. -/
structure Diagnostic.Blames (shows : Position → Text → Prop) (filename : Option Text)
    (d : Diagnostic) : Prop where
  file : d.filename = none ∨ d.filename = filename
  place : ∃ p, d.StandsAt p ∧ ∃ mark ∈ d.cause.marks, shows p mark

variable {shows : Position → Text → Prop} {filename : Option Text}

private theorem Diagnostic.filename_inFile {d : Diagnostic} (unnamed : d.filename = none) :
    (d.inFile filename).filename = none ∨ (d.inFile filename).filename = filename := by
  unfold inFile
  split
  · exact .inr rfl
  · exact .inr rfl
  · exact .inl unnamed

/-- A diagnostic that names no other script gets the name. -/
theorem Diagnostic.inFile_eq {d : Diagnostic} {name : Text} (named : name ≠ [])
    (file : d.filename = none ∨ d.filename = some name) :
    d.inFile (some name) = { d with filename := some name } := by
  obtain ⟨c, rest, rfl⟩ := List.exists_cons_of_ne_nil named
  obtain ⟨cause, line, column, known⟩ := d
  rcases file with rfl | rfl
  · rfl
  · rfl

/-- A fault in reading is found at some place, and is one of the script that is read. -/
theorem Diagnostic.Located.blames {d : Diagnostic} (h : d.Located shows) :
    (Reader.inScript filename d).Blames shows filename := by
  obtain ⟨name, same⟩ := Reader.exists_inScript_eq filename d
  cases h with
  | @lexical f p fault here =>
    have named : Reader.inScript filename d = d.inFile filename := by
      rw [fault]
      rfl
    have unnamed : d.filename = none := by rw [fault]; rfl
    refine ⟨named ▸ filename_inFile unnamed, p, ?_⟩
    rw [same, fault]
    exact ⟨⟨rfl, rfl⟩, [], List.mem_singleton_self [], here⟩
  | @grammar f p cause place here =>
    have named : Reader.inScript filename d = { d with filename } := by
      simp only [Reader.inScript, cause, Cause.family]
    have marks : d.cause.marks = [[]] := by rw [cause]; rfl
    rw [named]
    exact ⟨.inr rfl, p, place, [], marks ▸ List.mem_singleton_self [], here⟩

/-! ### Faults of values -/

/-- An operation at a place has no faults but these, and reports them there. -/
def FaultsAt {α : Type} (p : Position) (may : Cause → Prop) (r : Except Failure α) : Prop :=
  ∀ d, r = .error (.diagnostic d) → d.filename = none ∧ d.StandsAt p ∧ may d.cause

section FaultsAt

variable {α β : Type} {p : Position} {may : Cause → Prop}

private theorem FaultsAt.ok (a : α) : FaultsAt p may (.ok a) := by
  intro d fails
  cases fails

private theorem FaultsAt.fail {cause : Cause} (h : may cause) :
    FaultsAt p may (.error ((Place.ofPosition p).fail cause) : Except Failure α) := by
  rintro _ ⟨⟩
  exact ⟨rfl, ⟨rfl, rfl⟩, h⟩

private theorem FaultsAt.bind {r : Except Failure α} {next : α → Except Failure β}
    (h : FaultsAt p may r) (later : ∀ a, FaultsAt p may (next a)) :
    FaultsAt p may (r >>= next) := by
  cases r with
  | ok a => exact later a
  | error failure =>
    rintro d same
    cases same
    exact h d rfl

private theorem FaultsAt.imp {may' : Cause → Prop} {r : Except Failure α} (h : FaultsAt p may r)
    (follows : ∀ cause, may cause → may' cause) : FaultsAt p may' r := by
  intro d fails
  obtain ⟨unnamed, place, cause⟩ := h d fails
  exact ⟨unnamed, place, follows d.cause cause⟩

private theorem Number.faultsAt_ofInt (n : Int) :
    FaultsAt p Cause.IsNumeric (ofInt n (.ofPosition p)) := by
  unfold ofInt
  split
  · exact .ok _
  · split
    · exact nofun
    · exact .fail trivial

/-- A numeral that is too large is reported without a place. -/
theorem Number.ofText?_eq_diagnostic {t : Text} {d : Diagnostic}
    (h : Number.ofText? t = .error (.diagnostic d)) :
    ∃ digits, d = { cause := .overflow digits } := by
  unfold Number.ofText? at h
  split at h
  · cases h
  · next numeral _ =>
    cases numeral with
    | real => cases h
    | integer negative digits =>
      simp only [Numeral.toNumber] at h
      split at h
      · cases h
      · unfold Number.ofInt at h
        split at h
        · cases h
        · split at h
          · cases h
          · cases h
            exact ⟨_, rfl⟩

private theorem Value.faultsAt_toNumber (v : Value) :
    FaultsAt p Cause.IsNumeric (v.toNumber (.ofPosition p)) := by
  cases v with
  | number n => exact .ok n
  | string t =>
    simp only [toNumber]
    split
    · exact .ok _
    · exact .fail trivial
    · next failure fails =>
      cases failure with
      | diagnostic d =>
        obtain ⟨digits, rfl⟩ := Number.ofText?_eq_diagnostic fails
        have numeric : Cause.IsNumeric (.overflow digits) := trivial
        exact .fail numeric
      | _ =>
        intro d same
        cases same

private theorem Value.faultsAt_toNumberValue (v : Value) :
    FaultsAt p Cause.IsNumeric (v.toNumberValue (.ofPosition p)) := by
  have read : FaultsAt p Cause.IsNumeric (v.toNumber (.ofPosition p)) := v.faultsAt_toNumber
  unfold toNumberValue
  cases same : v.toNumber (.ofPosition p) with
  | ok n => exact .ok (Value.number n)
  | error failure =>
    rw [same] at read
    rintro d ⟨⟩
    exact read d rfl

/-- What an operator may report: a value that is no number, a result that does not fit, and a
division by zero. -/
def Operator.MayReport (operator : Operator) (cause : Cause) : Prop :=
  cause.IsNumeric ∨ operator = .divide ∧ cause = .divisionByZero

private theorem Number.faultsAt_apply (operator : Operator) (a b : Number) :
    FaultsAt p operator.MayReport (a.apply operator b (.ofPosition p)) := by
  unfold Number.apply
  split
  · next zero => exact .fail (.inr ⟨zero.1, rfl⟩)
  · split
    · exact (Number.faultsAt_ofInt _).imp fun _ => .inl
    · exact .ok _

private theorem Value.faultsAt_withSign (sign : Sign) (v : Value) :
    FaultsAt p Cause.IsNumeric (v.withSign sign (.ofPosition p)) := by
  cases sign with
  | positive => exact v.faultsAt_toNumberValue
  | negative =>
    refine v.faultsAt_toNumber.bind fun n => FaultsAt.bind ?_ fun m => .ok (Value.number m)
    cases n with
    | integer n => exact Number.faultsAt_ofInt _
    | real x => exact .ok _

private theorem Value.faultsAt_apply (operator : Operator) (a b : Value) :
    FaultsAt p operator.MayReport (Value.apply operator a b (.ofPosition p)) := by
  have numeric {v : Value} : FaultsAt p operator.MayReport (v.toNumber (.ofPosition p)) :=
    v.faultsAt_toNumber.imp fun _ => .inl
  refine numeric.bind fun m => numeric.bind fun n => FaultsAt.bind ?_ fun r => .ok (Value.number r)
  exact m.faultsAt_apply operator n

end FaultsAt

/-- What an operator reports is blamed on it. -/
theorem Operator.MayReport.text_mem {operator : Operator} {cause : Cause}
    (h : operator.MayReport cause) : operator.symbol.text ∈ cause.marks := by
  rcases h with numeric | ⟨rfl, rfl⟩
  · rw [numeric.marks_eq]
    cases operator <;> simp [symbol, Symbol.text]
  · exact List.mem_singleton_self _

private theorem Cause.IsNumeric.sign_mem {cause : Cause} (h : cause.IsNumeric) (sign : Sign) :
    sign.symbol.text ∈ cause.marks := by
  rw [h.marks_eq]
  cases sign <;> simp [Sign.symbol, Symbol.text]

private theorem Cause.IsNumeric.expr_mem {cause : Cause} (h : cause.IsNumeric) :
    Symbol.expr.text ∈ cause.marks := by
  rw [h.marks_eq]
  simp [Symbol.text]

/-! ### Faults of an evaluation -/

namespace Eval

/-- All diagnostics that something fails with satisfy `P`. -/
def FailsWith {α : Type} (P : Diagnostic → Prop) (x : Eval α) : Prop :=
  ∀ m d m', x m = .error (.diagnostic d) m' → P d

section FailsWith

variable {α β : Type} {P : Diagnostic → Prop} {x : Eval α}

private theorem FailsWith.pure (a : α) : FailsWith P (pure a : Eval α) := by
  intro m d m' fails
  cases fails

private theorem FailsWith.modify (change : Machine → Machine) :
    FailsWith P (modify change : Eval Unit) := by
  intro m d m' fails
  cases fails

private theorem FailsWith.bind {f : α → Eval β} (h : FailsWith P x)
    (later : ∀ a, FailsWith P (f a)) :
    FailsWith P (x >>= f) := by
  intro m d m' fails
  change EStateM.bind x f m = _ at fails
  unfold EStateM.bind at fails
  cases first : x m with
  | ok a n =>
    rw [first] at fails
    exact later a n d m' fails
  | error failure n =>
    rw [first] at fails
    cases fails
    exact h m d m' first

private theorem FailsWith.ofExcept {r : Except Failure α}
    (h : ∀ d, r = .error (.diagnostic d) → P d) :
    FailsWith P (ofExcept r) := by
  intro m d m' fails
  cases r with
  | ok a => cases fails
  | error failure =>
    cases fails
    exact h d rfl

private theorem FailsWith.mapDiagnostic {change : Diagnostic → Diagnostic}
    (h : FailsWith (fun d => P (change d)) x) : FailsWith P (mapDiagnostic change x) := by
  intro m d m' fails
  unfold Eval.mapDiagnostic at fails
  cases first : x m with
  | ok a n =>
    rw [first] at fails
    cases fails
  | error failure n =>
    rw [first] at fails
    cases failure with
    | diagnostic e =>
      cases fails
      exact h m e _ first
    | _ => cases fails

private theorem FailsWith.inChild {around : Surroundings} {act : Surroundings → Eval α}
    (h : ∀ inside : Surroundings, inside.filename = around.filename → FailsWith P (act inside)) :
    FailsWith P (inChild around act) := by
  intro m d m' fails
  unfold Eval.inChild at fails
  dsimp only at fails
  split at fails
  · cases fails
  · next failure n within =>
    cases fails
    exact h { around with outer := .link m.bindings around.outer } rfl _ d _ within

/-- Reading how deep a scope lies gives no diagnostic. -/
theorem FailsWith.depth (chain : Chain) : FailsWith P (Eval.ofExcept chain.depth) := by
  apply FailsWith.ofExcept
  intro d fails
  induction chain with
  | root => cases fails
  | lost => cases fails
  | link bindings outer ih =>
    cases known : outer.depth with
    | ok n =>
      rw [Chain.depth, known] at fails
      cases fails
    | error failure =>
      rw [Chain.depth, known] at fails
      cases fails
      exact ih known

private theorem FailsWith.remove (around : Surroundings) (name : Text) :
    FailsWith P (remove around name) := by
  have noted : FailsWith P (do note (.removed name (← Eval.ofExcept around.outer.depth))) :=
    (FailsWith.depth around.outer).bind fun _ => .modify _
  have gone := (FailsWith.modify fun m => { m with bindings := m.bindings.erase name }).bind
    fun _ => noted
  intro m d m' fails
  change (if m.bindings.contains name then _ else _ : Eval Unit) m = _ at fails
  split at fails
  · exact gone m d m' fails
  · cases fails

private theorem lookup_eq_diagnostic {name : Text} {chain : Chain} {d : Diagnostic}
    (h : chain.lookup name = .error (.diagnostic d)) : d = { cause := .unboundVariable name } := by
  induction chain with
  | root =>
    cases h
    rfl
  | lost => cases h
  | link bindings outer ih =>
    unfold Chain.lookup at h
    split at h
    · cases h
    · exact ih h

end FailsWith

end Eval

private theorem Progress.failure_of_result {p : Progress} {failure : Failure} {m : Machine}
    (h : p.result = .error failure m) : p.failure = some failure := by
  unfold Progress.result at h
  split at h
  · cases h
  · next found =>
    cases h
    exact found

section Blames

private theorem Diagnostic.blames_of_faultsAt {α : Type} {p : Position} {may : Cause → Prop}
    {r : Except Failure α} (faults : FaultsAt p may r)
    {mark : Text} (here : shows p mark) (blamed : ∀ cause, may cause → mark ∈ cause.marks) :
    Eval.FailsWith (Diagnostic.Blames shows filename) (Eval.ofExcept r) := by
  apply Eval.FailsWith.ofExcept
  intro d fails
  obtain ⟨unnamed, place, cause⟩ := faults d fails
  exact ⟨.inl unnamed, p, place, mark, blamed d.cause cause, here⟩

/-- A diagnostic with a place keeps it. -/
theorem Eval.locate_of_standsAt {d : Diagnostic} {p : Position} (h : d.StandsAt p) (c : Command) :
    locate c d = d := by
  unfold locate Diagnostic.place
  rw [h.1]
  exact ite_id _

private theorem Diagnostic.Blames.locate {d : Diagnostic} (h : d.Blames shows filename)
    (c : Command) :
    (Eval.locate c d).Blames shows filename := by
  obtain ⟨p, place, _⟩ := h.place
  rwa [Eval.locate_of_standsAt place]

private theorem blames_carryOut {around : Surroundings} {c : Command} {act : Eval Value}
    (h : Eval.FailsWith (Diagnostic.Blames shows filename) act) :
    Eval.FailsWith (Diagnostic.Blames shows filename) (Eval.carryOut around c act) := by
  have acts : Eval.FailsWith (Diagnostic.Blames shows filename)
      (Eval.mapDiagnostic (Eval.locate c) act) :=
    .mapDiagnostic fun m d m' fails => (h m d m' fails).locate c
  unfold Eval.carryOut
  split
  · exact (Eval.FailsWith.depth _).bind fun _ => (Eval.FailsWith.modify _).bind fun _ =>
      acts.bind fun _ => (Eval.FailsWith.modify _).bind fun _ => .pure _
  · exact acts

private theorem blames_lookup (around : Surroundings) {name : Text} {p : Position}
    (here : shows p ['$']) :
    Eval.FailsWith (Diagnostic.Blames shows filename)
      (Eval.mapDiagnostic (·.place (some p.line) (some p.column)) (Eval.lookup around name)) := by
  apply Eval.FailsWith.mapDiagnostic
  intro m d m' fails
  change Eval.ofExcept ((Chain.link m.bindings around.outer).lookup name) m = _ at fails
  cases found : (Chain.link m.bindings around.outer).lookup name with
  | ok value =>
    rw [found] at fails
    cases fails
  | error failure =>
    rw [found] at fails
    cases fails
    obtain rfl := Eval.lookup_eq_diagnostic found
    exact ⟨.inl rfl, p, ⟨rfl, rfl⟩, ['$'], List.mem_singleton_self ['$'], here⟩

mutual

/-- Operands that are placed blame their parts. -/
theorem Expr.blames_eval {around : Surroundings} (named : around.filename = filename) :
    (e : Expr) → e.Placed shows →
    Eval.FailsWith (Diagnostic.Blames shows filename) (e.eval around)
  | .number _ _, _ | .word _ _, _ => by
    unfold Expr.eval
    exact .pure _
  | .reference name p, placed => by
    unfold Expr.eval
    exact blames_lookup around placed
  | .quoted parts _, placed => by
    unfold Expr.eval
    exact (Expr.blames_join named parts placed).bind fun _ => .pure _
  | .substitution commands _, placed => by
    unfold Expr.eval
    exact Command.blames_sequence named .empty commands placed
  | .signed sign p operand, placed => by
    unfold Expr.eval
    refine (operand.blames_eval named placed.2).bind fun value => ?_
    exact Diagnostic.blames_of_faultsAt (value.faultsAt_withSign sign) placed.1
      fun _ numeric => numeric.sign_mem sign
  | .binary left operator p right, placed => by
    unfold Expr.eval
    refine (left.blames_eval named placed.1).bind fun a => ?_
    refine (right.blames_eval named placed.2.2).bind fun b => ?_
    exact Diagnostic.blames_of_faultsAt (Value.faultsAt_apply operator a b) placed.2.1
      fun _ reported => reported.text_mem
  | .group inner, placed => by
    unfold Expr.eval
    exact inner.blames_eval named placed

theorem Expr.blames_join {around : Surroundings} (named : around.filename = filename) :
    (es : List Expr) → Expr.AllPlaced shows es →
    Eval.FailsWith (Diagnostic.Blames shows filename) (Expr.join around es)
  | [], _ => by
    unfold Expr.join
    exact .pure _
  | first :: rest, placed => by
    unfold Expr.join
    exact (first.blames_eval named placed.1).bind fun _ =>
      (Expr.blames_join named rest placed.2).bind fun _ => .pure _

/-- Commands that are placed blame their parts, or themselves. -/
theorem Command.blames_perform {around : Surroundings} (named : around.filename = filename) :
    (c : Command) → c.Placed shows →
    Eval.FailsWith (Diagnostic.Blames shows filename) (c.perform around)
  | .set _ target value, placed => by
    unfold Command.perform
    exact (value.blames_eval named placed).bind fun _ =>
      (Eval.FailsWith.modify _).bind fun _ => .pure _
  | .unset _ target, _ => by
    unfold Command.perform
    exact (Eval.FailsWith.remove around target).bind fun _ => .pure _
  | .puts _ value, placed => by
    unfold Command.perform
    exact (value.blames_eval named placed).bind fun _ =>
      (Eval.FailsWith.modify _).bind fun _ => .pure _
  | .expr p operand, placed => by
    unfold Command.perform
    refine (operand.blames_eval named placed.2).bind fun value => ?_
    exact Diagnostic.blames_of_faultsAt value.faultsAt_toNumberValue placed.1
      fun _ numeric => numeric.expr_mem
  | .block _ _ program, placed => by
    unfold Command.perform
    apply Eval.FailsWith.inChild
    intro inside same m d m' fails
    exact program.blames_run (same.trans named) .empty placed m d
      (Progress.failure_of_result fails)
  | .invoke p name _, placed => by
    unfold Command.perform
    rintro m d m' ⟨⟩
    exact ⟨.inl rfl, p, ⟨rfl, rfl⟩, name, List.mem_singleton_self name, placed⟩

theorem Command.blames_sequence {around : Surroundings} (named : around.filename = filename)
    (last : Value) :
    (cs : List Command) → Command.AllPlaced shows cs →
    Eval.FailsWith (Diagnostic.Blames shows filename) (Command.sequence around last cs)
  | [], _ => by
    unfold Command.sequence
    exact .pure _
  | first :: rest, placed => by
    unfold Command.sequence
    exact (blames_carryOut (first.blames_perform named placed.1)).bind fun value =>
      Command.blames_sequence named value rest placed.2

/-- What stops a text that is placed blames a part of it. -/
theorem Program.blames_run {around : Surroundings} (named : around.filename = filename)
    (last : Value) : (p : Program) → p.Placed shows → ∀ m d,
    (p.run around last m).failure = some (.diagnostic d) → d.Blames shows filename
  | .finish notes, _, m, d, fails => by
    unfold Program.run at fails
    cases fails
  | .fault notes e, placed, m, d, fails => by
    unfold Program.run at fails
    cases fails
    rw [named]
    exact placed.blames
  | .step notes command rest, placed, m, d, fails => by
    have first : Eval.FailsWith (Diagnostic.Blames shows filename)
        (Eval.carryOut around command (command.perform around)) :=
      blames_carryOut (command.blames_perform named placed.1)
    simp only [Program.run] at fails
    split at fails
    · exact Program.blames_run named _ rest placed.2 _ d fails
    · next failure n stopped =>
      cases fails
      exact first _ d n stopped

end

end Blames

/-- The diagnostic that a turn failed with, if it did. -/
def Turn.diagnostic? {α : Type} (t : Turn α) : Option Diagnostic :=
  match t.outcome with
  | .error (.diagnostic d) => some d
  | _ => none

private theorem Turn.diagnostic?_eq_some_iff {α : Type} {t : Turn α} {d : Diagnostic} :
    t.diagnostic? = some d ↔ t.outcome = .error (.diagnostic d) := by
  unfold diagnostic?
  constructor
  · intro found
    split at found
    · next e fails =>
      cases found
      exact fails
    · cases found
  · intro fails
    rw [fails]

namespace Interpreter

/-- A run fails with the diagnostic that stopped its script, as one of the script. -/
theorem failure_of_run {i : Interpreter} {reader : Reader} {s : Store} {d : Diagnostic}
    (ready : i.stage = .ready) (reads : i.reader = some reader)
    (fails : (i.run s).outcome = .error (.diagnostic d)) :
    ∃ m e, (reader.program.run (i.surroundings s i.scope) i.result m).failure =
      some (.diagnostic e) ∧ d = e.inFile reader.filename := by
  obtain ⟨notes, ends⟩ := ending_run s ready reads
  have named : i.filename = reader.filename := by
    rw [Interpreter.filename, reads]
    rfl
  rw [ends] at fails
  refine ⟨(i.machine s i.scope).note [.started (scriptName i.filename)], ?_⟩
  generalize reader.program.run (i.surroundings s i.scope) i.result
    ((i.machine s i.scope).note [.started (scriptName i.filename)]) = p at fails ⊢
  obtain ⟨_ | failure, value, m⟩ := p
  · cases fails
  · cases failure with
    | diagnostic e =>
      cases fails
      exact ⟨e, rfl, by rw [named]⟩
    | _ => cases fails

/-- **Diagnostics point at the culprit.** A diagnostic of a run names the script and a place in it,
however deep in blocks, braces, strings and substitutions the fault arose. What stands there is what
the cause says: the dollar sign of a variable that is not bound, the name of an unknown command, the
sign of a division by zero, and for what is no number or does not fit, the operator or the `expr`.
-/
theorem run_blames {i : Interpreter} {source name : Text} (ready : i.stage = .ready)
    (reads : i.reader = some (Reader.ofText source (some name) .start)) (named : name ≠ [])
    (s : Store) {d : Diagnostic} (fails : (i.run s).outcome = .error (.diagnostic d)) :
    d.filename = some name ∧ ∃ before mark behind, source = before ++ (mark ++ behind) ∧
      mark ∈ d.cause.marks ∧ d.StandsAt (Position.start.after before) := by
  have script : i.filename = some name := by
    rw [Interpreter.filename, reads]
    rfl
  obtain ⟨m, e, stopped, rfl⟩ := failure_of_run ready reads fails
  have blames : e.Blames (source.Shows .start) (some name) :=
    Program.blames_run script i.result _ (placed_program source .start) m e stopped
  obtain ⟨p, place, mark, blamed, before, behind, whole, rfl⟩ := blames.place
  rw [Reader.ofText, Diagnostic.inFile_eq named blames.file]
  exact ⟨rfl, before, mark, behind, whole, blamed, place⟩

/-- A division by zero in the braces of an expression, in a string, in a block. -/
theorem run_blames_quotient :
    ∃ d before behind,
      ((ofScope (some (Reader.ofText "\x7b\n puts \"[expr \x7b1 / 0\x7d]\" \x7d".toList
        (some "a.tcl".toList) .start)) 0 false defaultBanner).run
          (Store.empty.add none).2).outcome = .error (.diagnostic d) ∧
      d.cause = .divisionByZero ∧ d.filename = some "a.tcl".toList ∧
      "\x7b\n puts \"[expr \x7b1 / 0\x7d]\" \x7d".toList = before ++ ('/' :: behind) ∧
      d.StandsAt (Position.start.after before) := by
  have known : ((ofScope (some (Reader.ofText
      "\x7b\n puts \"[expr \x7b1 / 0\x7d]\" \x7d".toList (some "a.tcl".toList) .start)) 0 false
        defaultBanner).run (Store.empty.add none).2).diagnostic?.map Diagnostic.cause =
      some .divisionByZero := by
    decide +kernel
  obtain ⟨d, found, cause⟩ := Option.map_eq_some_iff.mp known
  have fails := Turn.diagnostic?_eq_some_iff.mp found
  obtain ⟨file, before, mark, behind, whole, blamed, place⟩ :=
    run_blames rfl rfl (by decide) (Store.empty.add none).2 fails
  rw [cause] at blamed
  obtain rfl := List.mem_singleton.mp blamed
  exact ⟨d, before, behind, fails, cause, file, whole, place⟩

end Interpreter

end TinyTcl
