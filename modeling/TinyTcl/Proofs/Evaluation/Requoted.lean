import TinyTcl.Proofs.Evaluation.Single
import TinyTcl.Proofs.Number.Printed

/-! Numbers of variables between quotes. An expression takes the value of `$name` as the number that
it is, and the text of `"$name"` as the number that it reads as. Both are numbers, or the text is
that of a real that is not finite.

Main statement: what a script computes can be used between quotes wherever it can be used without
them, if and only if it is finite (`Value.requoted`). -/
namespace TinyTcl

namespace Grammar

section Operand

variable {c rest behind : Cursor} {p : Position} {depth : Nat} {es : List Expr}
  {within : behind.workload < rest.workload}

private theorem operand_of_parts (quote : c.Reads ⟨.symbol .leftQuote, p⟩ rest)
    (read : parts depth rest = .ok es behind within) :
    operand depth c = .ok (.quoted es p) behind (Nat.lt_trans within quote.shorter) := by
  obtain ⟨_, _, view⟩ := quote.view
  rw [operand, view]
  simp only [read, Reply.map]

/-- A variable between quotes is an operand. -/
theorem readFrom_quotedDollar (n : Text) (p : Position) : (Expr.quoted [.reference n p] p).ReadFrom
    [.symbol .leftQuote, .symbol .dollar, .name n, .symbol .rightQuote] := by
  obtain ⟨_, opens, tokens, _⟩ := Cursor.exists_reads_of_tokens
    (c := .ofTokens [.ofSymbol .leftQuote p, .ofSymbol .dollar p, ⟨.name n, p⟩,
      .ofSymbol .rightQuote p]) rfl (by simp)
  obtain ⟨_, dollar, tokens, _⟩ := Cursor.exists_reads_of_tokens tokens (by simp)
  obtain ⟨_, name, tokens, _⟩ := Cursor.exists_reads_of_tokens tokens (by simp)
  obtain ⟨rest, closes, none, _⟩ := Cursor.exists_reads_of_tokens tokens (by simp)
  have inner : parts 0 _ = .ok [.reference n p] _ _ :=
    parts_of_dollar dollar name (parts_of_rightQuote closes)
  refine ⟨0, _, _, rest, _, [.ofSymbol .leftQuote p, .ofSymbol .dollar p, ⟨.name n, p⟩,
    .ofSymbol .rightQuote p], operand_of_parts opens inner, ?_, rfl, ?_⟩
  · rw [none]
    rfl
  · exact .quoted (.cons (.reference n trivial) .nil) trivial

end Operand

section Scripts

variable (start : Position)

/-- A text that is cut into the lexemes of an expression is read as the expression. -/
theorem commands_of_cuts {e : Expr} {t : Text} {ls : List Lexeme} (flat : e.Flat ls)
    (normal : e.Normal) (bare : ∀ ms, ls ≠ .symbol .leftBrace :: ms) (cut : Text.Cuts t ls []) :
    ∃ p e', (program (.ofText ("expr ".toList ++ t) start)).commands = .ok [.expr p e'] ∧
      e.SameShape e' := by
  have whole : Text.Cuts ("expr ".toList ++ t) (.symbol .expr :: ls) [] :=
    .append (.keyword (s := .expr) rfl) cut
  exact commands_of_flat flat normal bare (whole.lexemes_ofText start)

private theorem commands_of_exprDollar {n : Text} (bare : BareWord n) :
    ∃ p q, (program (.ofText ("expr $".toList ++ n) start)).commands =
      .ok [.expr p (.reference n q)] := by
  obtain ⟨p, e, read, alike⟩ :=
    commands_of_cuts start (.reference n .start) trivial (by simp) (.dollar bare)
  cases alike with
  | @reference _ _ q => exact ⟨p, q, read⟩

private theorem commands_of_exprQuotedDollar {c : Char} {t : Text} (letter : startsName c = true)
    (others : ∀ d ∈ t, continuesName d = true) :
    ∃ p q r, (program (.ofText ("expr \"$".toList ++ (c :: t) ++ ['"']) start)).commands =
      .ok [.expr p (.quoted [.reference (c :: t) q] r)] := by
  obtain ⟨p, e, read, alike⟩ := commands_of_cuts start
    (.unit rfl (readFrom_quotedDollar (c :: t) .start)) trivial (by simp)
    (.of_scan (scan_quotedDollar letter others))
  cases alike with
  | @quoted _ _ _ r inner =>
    cases inner with
    | cons part none =>
      cases none
      cases part with
      | @reference _ _ q => exact ⟨p, q, r, read⟩

end Scripts

end Grammar

namespace Command

variable {around : Surroundings} {m m' : Machine} {p : Position} {e : Expr} {value : Value}

private theorem perform_expr {n : Number} (h : e.eval around m = .ok value m')
    (number : value.toNumber (.ofPosition p) = .ok n) :
    (expr p e).perform around m = .ok (.number n) m' := by
  unfold perform
  rw [Eval.bind_of_ok h, Value.toNumberValue, number]
  rfl

private theorem perform_expr_error {failure : Failure} (h : e.eval around m = .ok value m')
    (refused : value.toNumber (.ofPosition p) = .error failure) :
    (expr p e).perform around m = .error failure m' := by
  unfold perform
  rw [Eval.bind_of_ok h, Value.toNumberValue, refused]
  rfl

end Command

namespace Interpreter.Begins

variable {i : Interpreter} {s : Store} {name : Text} {n : Number}

/-- Without quotes a number is used as it is. -/
theorem run_exprDollar (begins : i.Begins s ("expr $".toList ++ name)) (bare : BareWord name)
    (held : (s.chain i.scope).lookup name = .ok (.number n)) :
    (i.run s).outcome = .ok (.number n) := by
  obtain ⟨p, q, read⟩ := Grammar.commands_of_exprDollar .start bare
  have evaluated := Expr.eval_of_lookup (p := q) (begins.scope_eq ▸ held)
  exact (begins.run_of_perform read (Command.perform_expr evaluated rfl)).1

section Quoted

variable (begins : i.Begins s ("expr \"$".toList ++ name ++ ['"'])) (bare : BareWord name)
  (named : name.startsAsName = true) (held : (s.chain i.scope).lookup name = .ok (.number n))

include begins bare named held

/-- Between quotes its text is. -/
theorem exists_quoted : ∃ p e,
    (Grammar.program (.ofText ("expr \"$".toList ++ name ++ ['"']) .start)).commands =
      .ok [.expr p e] ∧
    e.eval (i.surroundings s i.scope) (i.machine s i.scope) =
      .ok (.string n.text) (i.machine s i.scope) := by
  rcases bare.cases_first with ⟨c, t, rfl, letter, others, _⟩ | ⟨c, t, rfl, _, other⟩
  · obtain ⟨p, q, r, read⟩ := Grammar.commands_of_exprQuotedDollar .start letter others
    have evaluated := Expr.eval_of_lookup (p := q) (begins.scope_eq ▸ held)
    exact ⟨p, _, read, Expr.eval_quoted evaluated⟩
  · cases other.symm.trans named

private theorem run_exprQuoted_of_isFinite (finite : n.isFinite = true) :
    ∃ m, (i.run s).outcome = .ok (.number m) ∧ n.Survives m := by
  obtain ⟨p, e, read, evaluated⟩ := begins.exists_quoted bare named held
  obtain ⟨m, number, survives⟩ := n.exists_survives finite (.ofPosition p)
  exact ⟨m, (begins.run_of_perform read (Command.perform_expr evaluated number)).1, survives⟩

private theorem run_exprQuoted_of_not_isFinite (infinite : n.isFinite = false) :
    ∃ d, (i.run s).outcome = .error (.diagnostic d) ∧ d.cause = .notNumeric n.text := by
  obtain ⟨p, e, read, evaluated⟩ := begins.exists_quoted bare named held
  have none : Numeral.ofText? n.text = none := by
    have numeric := n.isNumeric_text
    rwa [infinite, Value.isNumeric_eq, Option.isSome_eq_false_iff, Option.isNone_iff_eq_none]
      at numeric
  have refused := Value.toNumber_of_none (.ofPosition p) none
  exact begins.outcome_of_perform_error read (Command.perform_expr_error evaluated refused)

end Quoted

end Interpreter.Begins

/-- **Numbers between quotes.** Every value that is made of a number, or that arithmetic gives, is a
number, and its text is a numeral if and only if the number is finite. A variable that holds it can
be used in an expression, and so can the variable between quotes if the number is finite: an integer
is found again as it was, a real as a real. The text of a number that is not finite is refused. -/
theorem Value.requoted {v : Value} (computed : v.Computed) : ∃ n, v = number n ∧
    ((string v.text).isNumeric = true ↔ n.isFinite = true) ∧
    (n.isFinite = true → ∀ place, ∃ m, (string v.text).toNumber place = .ok m ∧ n.Survives m) ∧
    (n.isFinite = false → v.text ∈ ["inf".toList, "-inf".toList, "nan".toList]) ∧
    ∀ (name : Text) (i : Interpreter) (s : Store), BareWord name →
      (s.chain i.scope).lookup name = .ok v →
      (i.Begins s ("expr $".toList ++ name) → (i.run s).outcome = .ok v) ∧
      (name.startsAsName = true → i.Begins s ("expr \"$".toList ++ name ++ ['"']) →
        (n.isFinite = true → ∃ m, (i.run s).outcome = .ok (number m) ∧ n.Survives m) ∧
        (n.isFinite = false →
          ∃ d, (i.run s).outcome = .error (.diagnostic d) ∧ d.cause = .notNumeric v.text)) := by
  obtain ⟨n, rfl⟩ := computed.exists_number
  refine ⟨n, rfl, ?numeric, n.exists_survives, ?texts, ?scripts⟩
  case numeric =>
    rw [text, n.isNumeric_text]
  case texts =>
    intro infinite
    cases n with
    | integer n => cases infinite
    | real x => exact Number.text_of_not_isFinite infinite
  case scripts =>
    intro name i s bare held
    constructor
    · intro begins
      exact begins.run_exprDollar bare held
    · intro named begins
      exact ⟨begins.run_exprQuoted_of_isFinite bare named held,
        begins.run_exprQuoted_of_not_isFinite bare named held⟩

/-- A tenth with the other sign is found again between quotes. -/
theorem Value.requoted_of_tenth :
    let v : Value := number (.real (-0.1))
    let s : Store := (Store.empty.add none).2.setBindings 0 (Table.empty.insert ['x'] v)
    let i := Interpreter.ofScope (some (Reader.ofText "expr \"$x\"".toList none .start)) 0 false
      defaultBanner
    negate (number (.real 0.1)) .unknown = .ok v ∧ (string v.text).isNumeric = true ∧
      ∃ y, (i.run s).outcome = .ok (number (.real y)) := by
  intro v s i
  have computed : v.Computed := @Computed.negated (number (.real 0.1)) v .unknown rfl
  obtain ⟨n, same, numeric, -, -, scripts⟩ := requoted computed
  obtain rfl : .real (-0.1) = n := Value.number.inj same
  have finite : Number.isFinite (.real (-0.1)) = true := by decide +kernel
  have bare : BareWord ['x'] := .name (by decide +kernel) (by simp)
  have orderly : s.Orderly := (Store.orderly_empty.add (by simp)).setBindings 0 _
  have has : s.Has 0 := Store.has_setBindings.mpr (Store.has_add none)
  have begins : i.Begins s ("expr \"$".toList ++ ['x'] ++ ['"']) :=
    Interpreter.begins_ofScope orderly has _ none defaultBanner
  obtain ⟨-, quoted⟩ := scripts ['x'] i s bare rfl
  obtain ⟨m, outcome, survives⟩ := (quoted (by decide +kernel) begins).1 finite
  cases survives with
  | real _ y => exact ⟨rfl, numeric.mpr finite, y, outcome⟩

/-- Ten times a large real is not. -/
theorem Value.requoted_of_infinity :
    let v : Value := number (.real (1e308 * Number.realOfInt 10))
    applyNamed ['*'] (number (.real 1e308)) (number (.integer ⟨10, by decide⟩)) .unknown =
      .ok v ∧ v.text = "inf".toList ∧ (string v.text).isNumeric = false := by
  intro v
  have infinite : Number.isFinite (.real (1e308 * Number.realOfInt 10)) = false := by
    decide +kernel
  refine ⟨rfl, by decide +kernel, ?_⟩
  rw [text, Number.isNumeric_text, infinite]

end TinyTcl
