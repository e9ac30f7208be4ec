import TinyTcl.Proofs.Program.Priority
import TinyTcl.Proofs.Program.Written
import TinyTcl.Proofs.Token.Balance

/-! Cursors on well nested tokens, and what a reader may make of them. A sound reply (`Reply.Sound`)
has read the tokens that its result is written with and leaves the rest as it was, or its failure is
not about the partner of a delimiter or the body of a block, since the scan has seen to these.
Replies one behind the other are sound if each of them is. -/
namespace TinyTcl

/-- Whether a grammar fault says that something that was opened is not complete. -/
def GrammarFault.isStructural : GrammarFault → Bool
  | openString | openSubstitution | noBody | openBlock => true
  | _ => false

/-- Whether a diagnostic says that something that was opened is not complete. -/
def Diagnostic.IsStructural (d : Diagnostic) : Prop :=
  ∃ f, d.cause = .grammar f ∧ f.isStructural = true

/-- The tokens at a cursor are well nested behind a phase, between some delimiters, and the fault
behind them, if there is one, is a lexical one. -/
structure Cursor.Nested (phase : Phase) (around : List Delimiter) (c : Cursor) : Prop where
  tokens : WellNested (c.fault ≠ none) phase around (lexemes c.tokens)
  fault {d : Diagnostic} : c.fault = some d → ∃ f, d.cause = .lexical f

/-- A reply at a cursor is sound: what was read is written with the tokens read, which leave the
delimiters around them as `around` says, or the failure is not about something incomplete. -/
def Reply.Sound {α : Type} {n : Nat} (c : Cursor) (around : List Delimiter)
    (Writes : α → List Token → Prop) : Reply α n → Prop
  | .ok a rest _ => ∃ ts, c.tokens = ts ++ rest.tokens ∧ Writes a ts ∧ rest.fault = c.fault ∧
      rest.Nested .whole around
  | .fail d _ => ¬ d.IsStructural

namespace Cursor.Nested

variable {phase : Phase} {around : List Delimiter} {c rest here : Cursor} {t : Token}
  {d : Diagnostic}

theorem of_same (h : c.Nested phase around) (tokens : here.tokens = c.tokens)
    (fault : here.fault = c.fault) : here.Nested phase around :=
  ⟨by rw [tokens, fault]; exact h.tokens, fun same => h.fault (fault ▸ same)⟩

theorem reads (h : c.Nested phase around) (k : c.Reads t rest) :
    ∃ next, phase.next around t.lexeme = some next ∧
      rest.Nested next (t.lexeme.enclose around) := by
  obtain ⟨tokens, other, same⟩ := reads_iff.mp k
  have fault : rest.fault = c.fault := by rw [same]; rfl
  have nested := h.tokens
  rw [tokens, lexemes_cons] at nested
  rcases nested with ⟨last, _⟩ | ⟨next, leads, later⟩
  · exact absurd last other
  · exact ⟨next, leads, fault ▸ later, fun broken => h.fault (fault ▸ broken)⟩

/-- The end stands only where nothing is open. -/
theorem ends (h : c.Nested phase around) (k : c.Ends t here) :
    around = [] ∧ phase.IsReady ∧ c.tokens = [t] ∧ t.lexeme = .symbol .endOfFile ∧
      c.fault = none ∧ here.Nested phase around := by
  have nested := h.tokens
  rcases ends_iff.mp k with ⟨⟨others, tokens⟩, last, rfl⟩ | ⟨tokens, sound, _, _⟩
  · rw [tokens, lexemes_cons] at nested
    rcases nested with ⟨_, none, ready, outside, whole⟩ | ⟨next, leads, _⟩
    · have alone : others = [] := List.map_eq_nil_iff.mp none
      have sound := Classical.not_not.mp whole
      exact ⟨outside, ready, by rw [tokens, alone], last, sound, h.of_same rfl rfl⟩
    · rw [last, Phase.next_endOfFile] at leads
      cases leads
  · rw [tokens] at nested
    exact absurd sound nested

theorem look (h : c.Nested phase around) : c.look.Nested phase around :=
  h.of_same c.tokens_look c.fault_look

/-- The fault behind the tokens is not about something incomplete. -/
theorem not_isStructural (h : c.Nested phase around) (fault : c.fault = some d) :
    ¬ d.IsStructural := by
  rintro ⟨f, grammar, _⟩
  obtain ⟨g, lexical⟩ := h.fault fault
  cases lexical.symm.trans grammar

theorem breaks (h : c.Nested phase around) (k : c.Breaks d here) : ¬ d.IsStructural :=
  h.not_isStructural (breaks_iff.mp k).2.1

/-- A token is refused with the lexical fault or for the reason given. -/
theorem refusal {f : GrammarFault} (h : c.Nested phase around) (k : c.Shows t here)
    (other : f.isStructural = false) (depth : Nat) :
    ¬ (TinyTcl.refusal depth f t here).1.IsStructural := by
  have same : here.fault = c.fault := by
    rcases k with ⟨_, rfl⟩ | ends
    · rfl
    · rw [← ends.look, fault_look]
  unfold TinyTcl.refusal
  rcases left : here.leave depth with ⟨_ | lexical, after⟩
  · rintro ⟨g, grammar, structural⟩
    cases grammar
    rw [other] at structural
    cases structural
  · exact h.not_isStructural (same ▸ fault_of_leave (congrArg Prod.fst left))

theorem reject {α : Type} {n : Nat} {inner : List Delimiter} {Writes : α → List Token → Prop}
    {f : GrammarFault} (h : c.Nested phase around) (k : c.Shows t here)
    (other : f.isStructural = false) (depth : Nat) :
    (TinyTcl.reject depth f t here : Reply α n).Sound c inner Writes := by
  rw [reject_eq]
  exact h.refusal k other depth

theorem script (h : c.Nested .whole around) (script : InScript around) (k : c.Reads t rest) :
    ∃ next, t.lexeme.inScript = some next ∧ rest.Nested next (t.lexeme.enclose around) := by
  obtain ⟨next, leads, later⟩ := h.reads k
  simp only [Phase.next, if_neg script] at leads
  exact ⟨next, leads, later⟩

theorem separator (h : c.Nested .whole around) (script : InScript around) (k : c.Reads t rest)
    (separates : t.lexeme.isSeparator = true) : rest.Nested .whole around := by
  obtain ⟨next, leads, later⟩ := h.script script k
  rw [enclose_of_isSeparator separates] at later
  rcases Lexeme.isSeparator_iff.mp separates with same | same
  all_goals
    rw [same] at leads
    cases leads
    exact later

theorem quoted (h : c.Nested phase (.quote :: around)) (complete : phase = .whole ∨ phase = .literal)
    (k : c.Reads t rest) : ∃ next, t.lexeme.inQuotes phase = some next ∧
      rest.Nested next (t.lexeme.enclose (.quote :: around)) := by
  obtain ⟨next, leads, later⟩ := h.reads k
  refine ⟨next, ?_, later⟩
  rcases complete with rfl | rfl
  · exact leads
  · exact leads

end Cursor.Nested

theorem Lexeme.inScript_name {text : Text} {next : Phase}
    (leads : (Lexeme.name text).inScript = some next) : keyword? text = none ∧ next = .whole := by
  by_cases plain : keyword? text = none
  · simp only [inScript, plain, if_true, Option.some.injEq] at leads
    exact ⟨plain, leads.symm⟩
  · simp only [inScript, plain, if_false] at leads
    cases leads

namespace Reply.Sound

variable {α β : Type} {n m : Nat} {c rest : Cursor} {t : Token} {around inner : List Delimiter}
  {Writes : α → List Token → Prop} {WritesBoth : β → List Token → Prop}

/-- What is read behind a token is written with the token in front. -/
theorem token {r : Reply α n} (reads : c.Reads t rest)
    (h : r.Sound rest around fun a ts => Writes a (t :: ts)) : r.Sound c around Writes := by
  obtain ⟨tokens, _, same⟩ := Cursor.reads_iff.mp reads
  cases r with
  | fail d here => exact h
  | ok a behind within =>
    obtain ⟨ts, others, writes, fault, nested⟩ := h
    refine ⟨t :: ts, by rw [tokens, others]; rfl, writes, fault.trans ?_, nested⟩
    rw [same]
    rfl

theorem widen {r : Reply α n} (h : r.Sound c around Writes) (wide : n ≤ m) :
    (r.widen wide).Sound c around Writes := by
  cases r <;> exact h

theorem map {r : Reply α n} {f : α → β} {wide : n ≤ m} (h : r.Sound c around Writes)
    (writes : ∀ a ts, Writes a ts → WritesBoth (f a) ts) :
    (r.map f wide).Sound c around WritesBoth := by
  cases r with
  | fail d here => exact h
  | ok a behind within =>
    obtain ⟨ts, tokens, written, later⟩ := h
    exact ⟨ts, tokens, writes a ts written, later⟩

theorem imp {Weaker : α → List Token → Prop} {r : Reply α n} (h : r.Sound c around Writes)
    (weaker : ∀ a ts others, c.tokens = ts ++ others → Writes a ts → Weaker a ts) :
    r.Sound c around Weaker := by
  cases r with
  | fail d here => exact h
  | ok a behind within =>
    obtain ⟨ts, tokens, written, later⟩ := h
    exact ⟨ts, tokens, weaker a ts behind.tokens tokens written, later⟩

/-- What is read one behind the other is written one behind the other. -/
theorem andThen {r : Reply α n} {next : α → (rest : Cursor) → rest.workload < n → Reply β m}
    (h : r.Sound c inner Writes)
    (step : ∀ a ts rest within, r = .ok a rest within → Writes a ts → rest.Nested .whole inner →
      (next a rest within).Sound rest around fun b us => WritesBoth b (ts ++ us)) :
    (r.andThen next).Sound c around WritesBoth := by
  cases r with
  | fail d here => exact h
  | ok a behind within =>
    obtain ⟨ts, tokens, written, fault, nested⟩ := h
    have later := step a ts behind within rfl written nested
    simp only [Reply.andThen]
    revert later
    cases next a behind within with
    | fail d here => exact id
    | ok b last _ =>
      rintro ⟨us, others, both, fault', ended⟩
      exact ⟨ts ++ us, by rw [tokens, others, List.append_assoc], both, fault'.trans fault, ended⟩

/-- A reply that reads nothing. -/
theorem nothing {a : α} {here : Cursor} {within : here.workload < n} (writes : Writes a [])
    (tokens : here.tokens = c.tokens) (fault : here.fault = c.fault)
    (nested : here.Nested .whole around) :
    (Reply.ok a here within : Reply α n).Sound c around Writes :=
  ⟨[], tokens.symm, writes, fault, nested⟩

/-- A reply that reads one token. -/
theorem single {a : α} {within : rest.workload < n} (reads : c.Reads t rest) (writes : Writes a [t])
    (nested : rest.Nested .whole around) :
    (Reply.ok a rest within : Reply α n).Sound c around Writes :=
  .token reads (.nothing writes rfl rfl nested)

end Reply.Sound

end TinyTcl
