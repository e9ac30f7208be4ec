import TinyTcl.Proofs.Evaluation.Unobserved
import TinyTcl.Proofs.Program.Names

/-! A variable has one name. What `set` binds is what `puts $name` prints, what `unset` removes, and
what `puts "$name"` prints if the name starts with a letter or an underscore; between quotes a dollar
sign in front of a digit is literal. The texts are read by themselves, wherever they start, and
carried out in any surroundings. Main statement: `name_everywhere`. -/
namespace TinyTcl

/-- What a text does that starts at a place, where its commands find `around`. -/
def Text.eval (t : Text) (start : Position) (around : Surroundings) : Eval Value :=
  (Reader.ofText t around.filename start).program.eval around

/-! ### A text of one command -/

private theorem Program.eq_of_commands {p : Program} {c : Command} (h : p.commands = .ok [c]) :
    ∃ before behind, p = .step before c (.finish behind) := by
  cases p with
  | finish notes => cases h
  | fault notes d => cases h
  | step before first rest =>
    obtain ⟨rfl, none⟩ := Program.commands_step_eq_ok.mp h
    cases rest with
    | finish behind => exact ⟨before, behind, rfl⟩
    | fault notes d => cases none
    | step notes second others => exact absurd none Program.commands_step_ne_nil

/-- Under tracing, all scopes around the one in use are there. -/
def Surroundings.Traceable (around : Surroundings) : Prop :=
  around.tracing = true → around.outer.isWhole = true

namespace Eval

variable {around : Surroundings} {c : Command}

/-- Where commands can be traced, tracing adds to log and trace alone. -/
theorem likeResult_carryOut (ready : around.Traceable) {m m' : Machine} (same : m.Like False m') :
    LikeResult False (mapDiagnostic (locate c) (c.perform around) m)
      (carryOut around c (c.perform around) m') := by
  have alike : Surroundings.Like False { around with tracing := false } around := by
    refine ⟨rfl, rfl, ?_⟩
    cases traced : around.tracing with
    | false => exact .inl rfl
    | true => exact .inr ⟨id, ready traced⟩
  exact like_carryOut alike c (Command.like_perform (.refl around) c) m m' same

/-- What is carried out under tracing can be traced. -/
theorem traceable_of_carryOut {act : Eval Value} {m m' : Machine} {value : Value}
    (h : carryOut around c act m = .ok value m') : around.Traceable := by
  intro traced
  rw [← Chain.depth_isOk_iff]
  cases known : around.outer.depth with
  | ok n => exact ⟨n, rfl⟩
  | error failure =>
    unfold carryOut at h
    rw [if_pos traced, known] at h
    cases h

end Eval

section Single

variable {around : Surroundings} {t : Text} {start : Position} {c : Command} {m m' : Machine}
  {value : Value}

/-- A text of one command does what the command does. -/
theorem Text.likeResult_eval
    (read : (Reader.ofText t around.filename start).program.commands = .ok [c])
    (ready : around.Traceable) (m : Machine) :
    Eval.LikeResult False (Eval.mapDiagnostic (Eval.locate c) (c.perform around) m)
      (t.eval start around m) := by
  obtain ⟨before, behind, same⟩ := Program.eq_of_commands read
  have done := Eval.likeResult_carryOut (c := c) ready
    (show m.Like False (m.note before) from ⟨rfl, rfl, fun _ => rfl⟩)
  simp only [Text.eval, Program.eval, same, Program.run]
  revert done
  cases Eval.mapDiagnostic (Eval.locate c) (c.perform around) m <;>
    cases Eval.carryOut around c (c.perform around) (m.note before) <;> intro done
  case ok.ok => exact ⟨done.1, done.2.bindings, done.2.output, fun compared => compared.elim⟩
  case error.error => exact done
  all_goals exact done.elim

private theorem Text.traceable_of_eval
    (read : (Reader.ofText t around.filename start).program.commands = .ok [c])
    (h : t.eval start around m = .ok value m') : around.Traceable := by
  obtain ⟨before, behind, same⟩ := Program.eq_of_commands read
  simp only [Text.eval, Program.eval, same, Program.run] at h
  cases done : Eval.carryOut around c (c.perform around) (m.note before) with
  | ok value n => exact Eval.traceable_of_carryOut done
  | error failure n =>
    rw [done] at h
    cases h

private theorem Text.eval_of_perform
    (read : (Reader.ofText t around.filename start).program.commands = .ok [c])
    (ready : around.Traceable) (h : c.perform around m = .ok value m') :
    ∃ n, t.eval start around m = .ok value n ∧ n.bindings = m'.bindings ∧ n.output = m'.output := by
  have alike := Text.likeResult_eval read ready m
  simp only [Eval.mapDiagnostic, h] at alike
  cases done : t.eval start around m with
  | ok v n =>
    rw [done] at alike
    obtain ⟨rfl, same⟩ := alike
    exact ⟨n, rfl, same.bindings, same.output⟩
  | error failure n =>
    rw [done] at alike
    exact alike.elim

private theorem Text.eval_of_perform_error {failure : Failure}
    (read : (Reader.ofText t around.filename start).program.commands = .ok [c])
    (ready : around.Traceable) (h : c.perform around m = .error failure m') :
    ∃ n, t.eval start around m = .error (failure.mapDiagnostic (Eval.locate c)) n ∧
      n.bindings = m'.bindings ∧ n.output = m'.output := by
  have alike := Text.likeResult_eval read ready m
  simp only [Eval.mapDiagnostic, h] at alike
  cases done : t.eval start around m with
  | ok v n =>
    rw [done] at alike
    exact alike.elim
  | error other n =>
    rw [done] at alike
    obtain ⟨rfl, same⟩ := alike
    exact ⟨n, rfl, same.bindings, same.output⟩

end Single

/-! ### Commands that name a variable -/

/-- Whether a text prints what the scope in use binds a name to, whatever else is bound around it, and
changes no binding. -/
def Text.Prints (t : Text) (around : Surroundings) (name : Text) : Prop :=
  ∀ (start : Position) (m : Machine) (value : Value), m.bindings.find? name = some value →
    ∃ m', t.eval start around m = .ok .empty m' ∧ m'.output = m.output ++ value.text ++ ['\n'] ∧
      m'.bindings = m.bindings

/-- Whether a text fails, and prints nothing, where the scope in use does not bind a name. -/
def Text.Misses (t : Text) (around : Surroundings) (name : Text) : Prop :=
  ∀ (start : Position) (m : Machine), m.bindings.find? name = none →
    ∃ d m', t.eval start around m = .error (.diagnostic d) m' ∧
      d.cause = .unboundVariable name ∧ m'.output = m.output

/-- Whether a text removes a name from the scope in use, and nothing else. -/
def Text.Unbinds (t : Text) (around : Surroundings) (name : Text) : Prop :=
  ∀ (start : Position) (m : Machine), ∃ m', t.eval start around m = .ok .empty m' ∧
    m'.bindings = m.bindings.erase name ∧ m'.output = m.output

section Perform

variable {around : Surroundings} {name : Text} {m m' : Machine} {value : Value} {p q r : Position}

private theorem Chain.isWhole_of_contains {chain : Chain} (h : chain.contains name = .ok false) :
    chain.isWhole = true ∧
      chain.lookup name = .error (.diagnostic { cause := .unboundVariable name }) := by
  induction chain with
  | root => exact ⟨rfl, rfl⟩
  | lost => cases h
  | link bindings outer ih =>
    rw [contains] at h
    split at h
    · cases h
    · next unbound =>
      obtain ⟨whole, missing⟩ := ih h
      refine ⟨whole, ?_⟩
      rw [lookup_link_of_unbound (by simpa [Table.contains] using unbound), missing]

theorem Eval.lookup_eq (around : Surroundings) (name : Text) (m : Machine) :
    lookup around name m = ofExcept ((Chain.link m.bindings around.outer).lookup name) m := rfl

private theorem Expr.eval_reference (bound : m.bindings.find? name = some value) :
    (Expr.reference name p).eval around m = .ok value m := by
  unfold Expr.eval Eval.mapDiagnostic
  rw [Eval.lookup_eq, Chain.lookup_link_of_find? bound]
  rfl

private theorem Expr.eval_reference_unbound (unbound : m.bindings.find? name = none)
    (alone : around.outer.contains name = .ok false) :
    ∃ d, (Expr.reference name p).eval around m = .error (.diagnostic d) m ∧
      d.cause = .unboundVariable name := by
  unfold Expr.eval Eval.mapDiagnostic
  rw [Eval.lookup_eq, Chain.lookup_link_of_unbound unbound, (Chain.isWhole_of_contains alone).2]
  exact ⟨_, rfl, rfl⟩

private theorem Command.perform_puts {e : Expr} (h : e.eval around m = .ok value m') :
    (Command.puts p e).perform around m =
      .ok .empty { m' with output := m'.output ++ (value.text ++ ['\n']) } := by
  unfold Command.perform
  rw [Eval.bind_of_ok h]
  rfl

private theorem Command.perform_puts_error {e : Expr} {failure : Failure}
    (h : e.eval around m = .error failure m') :
    (Command.puts p e).perform around m = .error failure m' := by
  unfold Command.perform
  rw [Eval.bind_of_error h]

theorem Expr.join_nil : Expr.join around [] m = .ok [] m := by
  unfold Expr.join
  rfl

theorem Expr.join_cons {e : Expr} {es : List Expr} {t : Text} {m'' : Machine}
    (first : e.eval around m = .ok value m') (rest : Expr.join around es m' = .ok t m'') :
    Expr.join around (e :: es) m = .ok (value.text ++ t) m'' := by
  unfold Expr.join
  rw [Eval.bind_of_ok first, Eval.bind_of_ok rest]
  rfl

theorem Expr.eval_quoted_of_join {es : List Expr} {t : Text}
    (joined : Expr.join around es m = .ok t m') :
    (Expr.quoted es p).eval around m = .ok (.string t) m' := by
  unfold Expr.eval
  rw [Eval.bind_of_ok joined]
  rfl

theorem Expr.eval_quoted {e : Expr} (h : e.eval around m = .ok value m') :
    (Expr.quoted [e] p).eval around m = .ok (.string value.text) m' := by
  have joined := Expr.join_cons h Expr.join_nil
  rw [List.append_nil] at joined
  exact Expr.eval_quoted_of_join joined

private theorem Expr.eval_quoted_error {e : Expr} {failure : Failure}
    (h : e.eval around m = .error failure m') :
    (Expr.quoted [e] p).eval around m = .error failure m' := by
  have joined : Expr.join around [e] m = .error failure m' := by
    unfold Expr.join
    rw [Eval.bind_of_error h]
  unfold Expr.eval
  rw [Eval.bind_of_error joined]

private theorem Command.perform_unset (known : around.outer.isWhole = true) (name : Text)
    (m : Machine) :
    ∃ n, (Command.unset p name).perform around m = .ok .empty n ∧
      n.bindings = m.bindings.erase name ∧ n.output = m.output := by
  obtain ⟨depth, depth_eq⟩ := (Chain.depth_isOk_iff _).mpr known
  unfold Command.perform Eval.remove
  have got : (EStateM.get : Eval Machine) m = .ok m m := rfl
  change ∃ n, EStateM.bind (EStateM.bind EStateM.get _) _ m = _ ∧ _
  simp only [EStateM.bind, got, depth_eq]
  by_cases bound : m.bindings.contains name = true
  · rw [if_pos bound]
    exact ⟨_, rfl, rfl, rfl⟩
  · rw [if_neg bound]
    exact ⟨_, rfl, (Table.erase_of_unbound (by simpa using bound)).symm, rfl⟩

/-- What `set` gives is what it binds. -/
theorem Command.bound_of_perform {e : Expr}
    (h : (Command.set p name e).perform around m = .ok value m') :
    m'.bindings.find? name = some value := by
  unfold Command.perform at h
  cases given : e.eval around m with
  | error failure n =>
    rw [Eval.bind_of_error given] at h
    cases h
  | ok v n =>
    rw [Eval.bind_of_ok given] at h
    cases h
    exact (Table.find?_insert _ _ _ _).trans (if_pos rfl)

end Perform

section Texts

variable {around : Surroundings} {n : Text}

theorem Eval.cause_locate (c : Command) (d : Diagnostic) : (locate c d).cause = d.cause := by
  unfold locate Diagnostic.place
  repeat' split
  all_goals rfl

private theorem Text.prints_dollar (bare : BareWord n) (ready : around.Traceable) :
    Text.Prints ("puts $".toList ++ n) around n := by
  intro start m value bound
  obtain ⟨p, q, read⟩ := Grammar.commands_of_dollar start bare
  obtain ⟨m', done, bindings, output⟩ := Text.eval_of_perform read ready
    (Command.perform_puts (Expr.eval_reference bound))
  exact ⟨m', done, by simpa using output, bindings⟩

private theorem Text.misses_dollar (bare : BareWord n) (ready : around.Traceable)
    (alone : around.outer.contains n = .ok false) :
    Text.Misses ("puts $".toList ++ n) around n := by
  intro start m unbound
  obtain ⟨p, q, read⟩ := Grammar.commands_of_dollar start bare
  obtain ⟨d, fails, cause⟩ := Expr.eval_reference_unbound unbound alone
  obtain ⟨m', done, _, output⟩ := Text.eval_of_perform_error read ready
    (Command.perform_puts_error fails)
  exact ⟨_, m', done, (Eval.cause_locate _ d).trans cause, output⟩

private theorem Text.unbinds_unset (bare : BareWord n) (ready : around.Traceable)
    (whole : around.outer.isWhole = true) : Text.Unbinds ("unset ".toList ++ n) around n := by
  intro start m
  obtain ⟨p, read⟩ := Grammar.commands_of_unset start bare
  obtain ⟨m', done, bindings, output⟩ := Command.perform_unset whole n m
  obtain ⟨m'', done, bindings', output'⟩ := Text.eval_of_perform read ready done
  exact ⟨m'', done, bindings'.trans bindings, output'.trans output⟩

section Letter

variable {c : Char} {t : Text} (letter : startsName c = true)
  (others : ∀ d ∈ t, continuesName d = true) (ready : around.Traceable)

include letter others ready

private theorem Text.prints_quotedDollar :
    Text.Prints ("puts \"$".toList ++ (c :: t) ++ ['"']) around (c :: t) := by
  intro start m value bound
  obtain ⟨p, q, r, read⟩ := Grammar.commands_of_quotedDollar start letter others
  obtain ⟨m', done, bindings, output⟩ := Text.eval_of_perform read ready
    (Command.perform_puts (Expr.eval_quoted (Expr.eval_reference bound)))
  exact ⟨m', done, by simpa [Value.text] using output, bindings⟩

private theorem Text.misses_quotedDollar (alone : around.outer.contains (c :: t) = .ok false) :
    Text.Misses ("puts \"$".toList ++ (c :: t) ++ ['"']) around (c :: t) := by
  intro start m unbound
  obtain ⟨p, q, r, read⟩ := Grammar.commands_of_quotedDollar start letter others
  obtain ⟨d, fails, cause⟩ := Expr.eval_reference_unbound unbound alone
  obtain ⟨m', done, _, output⟩ := Text.eval_of_perform_error read ready
    (Command.perform_puts_error (Expr.eval_quoted_error fails))
  exact ⟨_, m', done, (Eval.cause_locate _ d).trans cause, output⟩

end Letter

/-- Behind a `set` command the name is bound to the value that the command gave. -/
theorem Text.bound_of_eval {t : Text} {start p : Position} {e : Expr} {m m' : Machine}
    {value : Value}
    (read : (Reader.ofText t around.filename start).program.commands = .ok [.set p n e])
    (h : t.eval start around m = .ok value m') : m'.bindings.find? n = some value := by
  have alike := Text.likeResult_eval read (Text.traceable_of_eval read h) m
  rw [h] at alike
  unfold Eval.mapDiagnostic at alike
  cases done : (Command.set p n e).perform around m with
  | error failure k =>
    rw [done] at alike
    exact alike.elim
  | ok v k =>
    rw [done] at alike
    obtain ⟨rfl, same⟩ := alike
    rw [same.bindings]
    exact Command.bound_of_perform done

/-- Between quotes a name that starts with a digit is printed itself, behind a dollar sign. -/
theorem Text.eval_quotedDigit {c : Char} {t : Text} (bare : BareWord (c :: t))
    (digit : isDigit c = true) (ready : around.Traceable) (start : Position) (m : Machine) :
    ∃ m', Text.eval ("puts \"$".toList ++ (c :: t) ++ ['"']) start around m = .ok .empty m' ∧
      m'.output = m.output ++ '$' :: c :: t ++ ['\n'] ∧ m'.bindings = m.bindings := by
  obtain ⟨p, q, r, read⟩ := Grammar.commands_of_quotedDigit start bare digit
  have word : (Expr.word ('$' :: c :: t) q).eval around m =
      .ok (.string ('$' :: c :: t)) m := by
    unfold Expr.eval
    rfl
  obtain ⟨m', done, bindings, output⟩ := Text.eval_of_perform read ready
    (Command.perform_puts (Expr.eval_quoted word))
  exact ⟨m', done, by simpa [Value.text] using output, bindings⟩

end Texts

/-- Whether a text starts with a letter or an underscore. -/
def Text.startsAsName (t : Text) : Bool := t.head?.any startsName

/-- A bare word starts with what a name starts with, or with a digit. -/
theorem BareWord.cases_first {n : Text} (bare : BareWord n) :
    (∃ c t, n = c :: t ∧ startsName c = true ∧ (∀ d ∈ t, continuesName d = true) ∧
      n.startsAsName = true) ∨
    ∃ c t, n = c :: t ∧ isDigit c = true ∧ n.startsAsName = false := by
  cases bare with
  | @name c t first others => exact .inl ⟨c, t, rfl, first, others, by simpa [Text.startsAsName]⟩
  | @numbered c t tail first cut more others =>
    have other : Text.startsAsName (c :: (t ++ tail)) = false := startsName_of_isDigit first
    exact .inr ⟨c, t ++ tail, rfl, first, other⟩

/-- Whether a `set` command of a name is all of a script. -/
def Reader.assigns (r : Reader) (name : Text) : Bool :=
  match r.commands with
  | .ok [.set _ target _] => target == name
  | _ => false

private theorem Reader.exists_of_assigns {r : Reader} {name : Text} (h : r.assigns name = true) :
    ∃ p e, r.commands = .ok [.set p name e] := by
  unfold assigns at h
  split at h
  · next p target e same => exact ⟨p, e, by rw [same, beq_iff_eq.mp h]⟩
  · cases h

/-- Whether a text comes to its end with a value of this text. -/
def Text.gives (t : Text) (around : Surroundings) (m : Machine) (expected : Text) : Bool :=
  match t.eval .start around m with
  | .ok value _ => value.text == expected
  | .error _ _ => false

private theorem Text.exists_of_gives {t expected : Text} {around : Surroundings} {m : Machine}
    (h : t.gives around m expected = true) :
    ∃ value m', t.eval .start around m = .ok value m' ∧ value.text = expected := by
  unfold gives at h
  split at h
  · next value m' done => exact ⟨value, m', done, beq_iff_eq.mp h⟩
  · cases h

/-- **A variable has one name.** Whatever word `set` takes as a name and whatever value it binds to
it, `puts $name` prints that value as long as it is bound, and so does `puts "$name"` if the word
starts with a letter or an underscore. Behind `unset name`, where no scope around binds the name,
both fail because the variable is unbound. If the word starts with a digit, the dollar sign between
quotes is literal, and `puts "$name"` prints what stands between the quotes. -/
theorem name_everywhere {n v : Text} {around : Surroundings} {start p : Position} {e : Expr}
    (accepted : (Reader.ofText ("set ".toList ++ n ++ ' ' :: v) around.filename start).commands =
      .ok [.set p n e])
    {m m' : Machine} {value : Value}
    (stored : Text.eval ("set ".toList ++ n ++ ' ' :: v) start around m = .ok value m') :
    m'.bindings.find? n = some value ∧
    Text.Prints ("puts $".toList ++ n) around n ∧
    (n.startsAsName = true → Text.Prints ("puts \"$".toList ++ n ++ ['"']) around n) ∧
    (around.outer.contains n = .ok false →
      Text.Unbinds ("unset ".toList ++ n) around n ∧ Text.Misses ("puts $".toList ++ n) around n ∧
      (n.startsAsName = true → Text.Misses ("puts \"$".toList ++ n ++ ['"']) around n)) ∧
    (n.startsAsName = false → ∀ (start : Position) (m : Machine), ∃ m',
      Text.eval ("puts \"$".toList ++ n ++ ['"']) start around m = .ok .empty m' ∧
        m'.output = m.output ++ '$' :: n ++ ['\n'] ∧ m'.bindings = m.bindings) := by
  have read := Reader.commands_eq_ok.mp accepted
  have bare : BareWord n := by
    rw [List.append_assoc] at read
    exact Grammar.bareWord_of_commands read
  have ready := Text.traceable_of_eval read stored
  refine ⟨Text.bound_of_eval read stored, Text.prints_dollar bare ready, ?_,
    fun alone => ⟨?_, ?_, ?_⟩, ?_⟩
  · intro named
    rcases bare.cases_first with ⟨c, t, rfl, letter, others, _⟩ | ⟨c, t, rfl, _, other⟩
    · exact Text.prints_quotedDollar letter others ready
    · cases other.symm.trans named
  · exact Text.unbinds_unset bare ready (Chain.isWhole_of_contains alone).1
  · exact Text.misses_dollar bare ready alone
  · intro named
    rcases bare.cases_first with ⟨c, t, rfl, letter, others, _⟩ | ⟨c, t, rfl, _, other⟩
    · exact Text.misses_quotedDollar letter others ready alone
    · cases other.symm.trans named
  · intro other
    rcases bare.cases_first with ⟨c, t, rfl, _, _, named⟩ | ⟨c, t, rfl, digit, _⟩
    · cases other.symm.trans named
    · exact Text.eval_quotedDigit bare digit ready

/-- A name that is a keyword, under tracing, and a value with a blank in it. -/
theorem name_everywhere_keyword :
    let name : Text := "puts".toList
    let source : Text := "set ".toList ++ name ++ ' ' :: "\"a b\"".toList
    let around : Surroundings := ⟨true, some "a.tcl".toList, .root⟩
    ∃ p e value m', (Reader.ofText source around.filename .start).commands = .ok [.set p name e] ∧
      source.eval .start around ⟨.empty, [], [], []⟩ = .ok value m' ∧ value.text = "a b".toList ∧
      m'.bindings.find? name = some value ∧ Text.Prints "puts $puts".toList around name ∧
      Text.Prints "puts \"$puts\"".toList around name ∧
      around.outer.contains name = .ok false ∧ Text.Unbinds "unset puts".toList around name ∧
      Text.Misses "puts $puts".toList around name ∧
      Text.Misses "puts \"$puts\"".toList around name := by
  intro name source around
  have assigns : (Reader.ofText source around.filename .start).assigns name = true := by
    decide +kernel
  have gives : source.gives around ⟨.empty, [], [], []⟩ "a b".toList = true := by decide +kernel
  obtain ⟨p, e, accepted⟩ := Reader.exists_of_assigns assigns
  obtain ⟨value, m', stored, text⟩ := Text.exists_of_gives gives
  have letter : name.startsAsName = true := by decide +kernel
  obtain ⟨bound, plain, quoted, unset, _⟩ :=
    name_everywhere (n := name) (v := "\"a b\"".toList) accepted stored
  obtain ⟨unbinds, misses, misses'⟩ := unset rfl
  exact ⟨p, e, value, m', accepted, stored, text, bound, plain, quoted letter, rfl, unbinds, misses,
    misses' letter⟩

/-- A name that starts with a digit is bound and printed, but not between quotes. -/
theorem name_between_quotes_differs :
    let around : Surroundings := ⟨false, none, .root⟩
    let name : Text := "1a".toList
    ∃ p e value m',
      (Reader.ofText "set 1a x".toList none .start).commands = .ok [.set p name e] ∧
      Text.eval "set 1a x".toList .start around ⟨.empty, [], [], []⟩ = .ok value m' ∧
      value.text = ['x'] ∧ Text.Prints "puts $1a".toList around name ∧
      ¬ Text.Prints "puts \"$1a\"".toList around name := by
  intro around name
  have assigns : (Reader.ofText "set 1a x".toList none .start).assigns name = true := by
    decide +kernel
  have gives : Text.gives "set 1a x".toList around ⟨.empty, [], [], []⟩ ['x'] = true := by
    decide +kernel
  obtain ⟨p, e, accepted⟩ := Reader.exists_of_assigns assigns
  obtain ⟨value, m', stored, text⟩ := Text.exists_of_gives gives
  have read := Reader.commands_eq_ok.mp accepted
  have bare : BareWord name := Grammar.bareWord_of_commands (t := "1a x".toList) read
  have ready := Text.traceable_of_eval read stored
  have digit : isDigit '1' = true := by decide +kernel
  refine ⟨p, e, value, m', accepted, stored, text, Text.prints_dollar bare ready, fun prints => ?_⟩
  -- Between the quotes the text is printed as it stands, which is not the value.
  obtain ⟨n, done, output, _⟩ := prints .start m' value (Text.bound_of_eval read stored)
  obtain ⟨n', done', output', _⟩ := Text.eval_quotedDigit bare digit ready .start m'
  cases done.symm.trans done'
  rw [output', text] at output
  simp at output

end TinyTcl
