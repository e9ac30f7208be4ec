import TinyTcl.Proofs.Program.Substitution
import TinyTcl.Proofs.Token.Names

/-! Names in commands. A name that `set` takes is a bare word (`bareWord_of_commands`), and the other
commands that name a variable read the whole of such a word: `puts $name` and `unset name` in every
case, `puts "$name"` unless the word starts with a digit. -/
namespace TinyTcl

theorem Lexeme.namesVariable_ofWord (t : Text) : (Lexeme.ofWord t).namesVariable = true := by
  unfold Lexeme.ofWord
  split
  · next s found =>
    have keyword := List.find?_some found
    simp only [Bool.and_eq_true] at keyword
    exact keyword.1
  · rfl

namespace Grammar

section Target

variable {c rest behind : Cursor} {t : Token} {p q : Position} {depth : Nat}

private theorem Lexeme.target?_eq (l : Lexeme) :
    l.target? = if l.namesVariable = true then some l.text else none := by
  cases l <;> rfl

theorem target_of_reads {command : Symbol} (reads : c.Reads t rest)
    (names : t.lexeme.namesVariable = true) :
    target depth command c = .ok t.lexeme.text rest reads.shorter :=
  consume_of_reads reads (by rw [Lexeme.target?_eq, if_pos names])

/-- What is read as the name of a variable is a word that can name one. -/
theorem reads_of_target {command : Symbol} {name : Text} {within : rest.workload < c.workload}
    (h : target depth command c = .ok name rest within) :
    ∃ t, c.Reads t rest ∧ t.lexeme.namesVariable = true ∧ t.lexeme.text = name := by
  obtain ⟨t, reads, wanted⟩ := consume_eq_ok.mp h
  rw [Lexeme.target?_eq, Option.ite_none_right_eq_some, Option.some.injEq] at wanted
  exact ⟨t, reads, wanted⟩

theorem command_of_set (reads : c.Reads ⟨.symbol .set, p⟩ rest) :
    command depth c = (target depth .set rest).andThen fun name behind _ =>
      (word depth .assigned behind).map (.set p name)
        (by have := reads.shorter; omega) := by
  obtain ⟨_, _, view⟩ := reads.view
  rw [command]
  simp only [view]

private theorem command_of_unset (reads : c.Reads ⟨.symbol .unset, p⟩ rest) :
    command depth c = (target depth .unset rest).map (.unset p) (Nat.le_of_lt reads.shorter) := by
  obtain ⟨_, _, view⟩ := reads.view
  rw [command]
  simp only [view]

end Target

/-- The name that a `set` command takes is a bare word. -/
theorem bareWord_of_commands {t n : Text} {start p : Position} {e : Expr}
    (h : (program (.ofText ("set ".toList ++ t) start)).commands = .ok [.set p n e]) :
    BareWord n := by
  obtain ⟨q, rest, reads, tokens, -⟩ := Cursor.reads_keyword (s := .set) rfl t start
  obtain ⟨_, _, read, _⟩ :=
    statement_of_commands_cons (Cursor.skipSeparators_of_other reads rfl) h
  rw [statement, command_of_set reads] at read
  obtain ⟨_, _, _, first, last⟩ := Reply.andThen_eq_ok.mp read
  obtain ⟨_, _, _, _, same⟩ := Reply.andThen_eq_ok.mp last
  cases same
  obtain ⟨_, _, _, named, value⟩ := Reply.andThen_eq_ok.mp first
  obtain ⟨_, _, _, same⟩ := Reply.map_eq_ok.mp value
  cases same
  obtain ⟨u, reads', names, text⟩ := reads_of_target named
  have next := reads'.lexemes.1
  rw [tokens] at next
  cases cut : Piece.lexemes (scan [] false (List.length Symbol.set.text + 1) t).pieces with
  | nil =>
    rw [cut, List.nil_append] at next
    split at next
    · obtain ⟨last, _⟩ := List.cons.inj next
      cases last ▸ names
    · cases next
  | cons l ls =>
    rw [cut, List.cons_append] at next
    obtain ⟨rfl, _⟩ := List.cons.inj next
    exact text ▸ bareWord_of_first cut names

section Reads

variable {c rest next behind beyond : Cursor} {t : Token} {p q r : Position} {depth : Nat}
  {n : Text} {es : List Expr} {within : behind.workload < rest.workload}

private theorem reference_of_reads (reads : c.Reads ⟨.name n, p⟩ rest) :
    reference depth q c = .ok (.reference n q) rest reads.shorter :=
  consume_of_reads reads rfl

private theorem word_of_dollar {role : Operand} (dollar : c.Reads ⟨.symbol .dollar, p⟩ rest)
    (name : rest.Reads ⟨.name n, q⟩ behind) :
    word depth role c = .ok (.reference n p) behind (Nat.lt_trans name.shorter dollar.shorter) := by
  obtain ⟨_, _, view⟩ := dollar.view
  rw [word, view]
  simp only [reference_of_reads name, Reply.widen]

theorem word_of_parts {role : Operand} (quote : c.Reads ⟨.symbol .leftQuote, p⟩ rest)
    (read : parts depth rest = .ok es behind within) :
    word depth role c = .ok (.quoted es p) behind (Nat.lt_trans within quote.shorter) := by
  obtain ⟨_, _, view⟩ := quote.view
  rw [word, view]
  simp only [read, Reply.map]

theorem parts_of_rightQuote (quote : c.Reads ⟨.symbol .rightQuote, p⟩ rest) :
    parts depth c = .ok [] rest quote.shorter := by
  obtain ⟨_, _, view⟩ := quote.view
  rw [parts, view]

theorem parts_of_name (name : c.Reads ⟨.name n, p⟩ rest)
    (read : parts depth rest = .ok es behind within) :
    parts depth c = .ok (.word n ⟨.name n, p⟩ :: es) behind (Nat.lt_trans within name.shorter) := by
  obtain ⟨_, _, view⟩ := name.view
  rw [parts, view]
  simp only [read, Reply.map]

theorem parts_of_dollar (dollar : c.Reads ⟨.symbol .dollar, p⟩ next)
    (name : next.Reads ⟨.name n, q⟩ rest) (read : parts depth rest = .ok es behind within) :
    parts depth c = .ok (.reference n p :: es) behind
      (Nat.lt_trans within (Nat.lt_trans name.shorter dollar.shorter)) := by
  obtain ⟨_, _, view⟩ := dollar.view
  rw [parts, view]
  simp only [reference_of_reads name, read, Reply.andThen, Reply.map]

end Reads

section Named

variable {n : Text} (start : Position)

/-- A variable is read whole behind a dollar sign. -/
theorem commands_of_dollar (bare : BareWord n) :
    ∃ p q, (program (.ofText ("puts $".toList ++ n) start)).commands =
      .ok [.puts p (.reference n q)] := by
  obtain ⟨p, rest, puts, tokens, _⟩ := Cursor.reads_keyword (s := .puts) rfl ('$' :: n) start
  obtain ⟨cut, reached⟩ := scan_dollar bare false (Symbol.puts.text.length + 1)
  rw [cut, if_pos reached] at tokens
  obtain ⟨⟨_, q⟩, _, dollar, rfl, tokens, _⟩ := Cursor.reads_of_lexemes tokens (by simp)
  obtain ⟨⟨_, _⟩, _, name, rfl, tokens, _⟩ := Cursor.reads_of_lexemes tokens (by simp)
  obtain ⟨_, ends⟩ := Cursor.ends_of_lexemes tokens
  exact ⟨p, q, commands_of_puts puts (word_of_dollar dollar name) ends⟩

/-- So it is between quotes, if its name does not start with a digit. -/
theorem commands_of_quotedDollar {c : Char} {t : Text} (letter : startsName c = true)
    (others : ∀ d ∈ t, continuesName d = true) :
    ∃ p q r, (program (.ofText ("puts \"$".toList ++ (c :: t) ++ ['"']) start)).commands =
      .ok [.puts p (.quoted [.reference (c :: t) q] r)] := by
  obtain ⟨p, rest, puts, tokens, _⟩ :=
    Cursor.reads_keyword (s := .puts) rfl ('"' :: '$' :: (c :: t ++ ['"'])) start
  obtain ⟨cut, reached⟩ := scan_quotedDollar letter others false (Symbol.puts.text.length + 1)
  rw [cut, if_pos reached] at tokens
  obtain ⟨⟨_, r⟩, _, opens, rfl, tokens, _⟩ := Cursor.reads_of_lexemes tokens (by simp)
  obtain ⟨⟨_, q⟩, _, dollar, rfl, tokens, _⟩ := Cursor.reads_of_lexemes tokens (by simp)
  obtain ⟨⟨_, _⟩, _, name, rfl, tokens, _⟩ := Cursor.reads_of_lexemes tokens (by simp)
  obtain ⟨⟨_, _⟩, _, closes, rfl, tokens, _⟩ := Cursor.reads_of_lexemes tokens (by simp)
  obtain ⟨_, ends⟩ := Cursor.ends_of_lexemes tokens
  have closing : parts 0 _ = .ok [] _ _ := parts_of_rightQuote closes
  have inner := parts_of_dollar dollar name closing
  exact ⟨p, q, r, commands_of_puts puts (word_of_parts opens inner) ends⟩

/-- Between quotes a name that starts with a digit is text, and the dollar sign with it. -/
theorem commands_of_quotedDigit {c : Char} {t : Text} (bare : BareWord (c :: t))
    (digit : isDigit c = true) :
    ∃ p q r, (program (.ofText ("puts \"$".toList ++ (c :: t) ++ ['"']) start)).commands =
      .ok [.puts p (.quoted [.word ('$' :: c :: t) q] r)] := by
  obtain ⟨p, rest, puts, tokens, _⟩ :=
    Cursor.reads_keyword (s := .puts) rfl ('"' :: '$' :: (c :: t ++ ['"'])) start
  obtain ⟨cut, reached⟩ := scan_quotedDigit bare digit false (Symbol.puts.text.length + 1)
  rw [cut, if_pos reached] at tokens
  obtain ⟨⟨_, r⟩, _, opens, rfl, tokens, _⟩ := Cursor.reads_of_lexemes tokens (by simp)
  obtain ⟨⟨_, q⟩, _, name, rfl, tokens, _⟩ := Cursor.reads_of_lexemes tokens (by simp)
  obtain ⟨⟨_, _⟩, _, closes, rfl, tokens, _⟩ := Cursor.reads_of_lexemes tokens (by simp)
  obtain ⟨_, ends⟩ := Cursor.ends_of_lexemes tokens
  have closing : parts 0 _ = .ok [] _ _ := parts_of_rightQuote closes
  have inner := parts_of_name name closing
  exact ⟨p, _, r, commands_of_puts puts (word_of_parts opens inner) ends⟩

/-- The name of a variable that is unset is read whole. -/
theorem commands_of_unset (bare : BareWord n) :
    ∃ p, (program (.ofText ("unset ".toList ++ n) start)).commands = .ok [.unset p n] := by
  obtain ⟨p, rest, unset, tokens, _⟩ := Cursor.reads_keyword (s := .unset) rfl n start
  rw [scan_bareWord bare, if_pos rfl] at tokens
  obtain ⟨⟨_, _⟩, _, name, rfl, tokens, _⟩ := Cursor.reads_of_lexemes tokens
    (Lexeme.ofWord_ne_symbol rfl n)
  obtain ⟨_, ends⟩ := Cursor.ends_of_lexemes tokens
  have read : command 0 _ = .ok (.unset p n) _ (Nat.lt_trans name.shorter unset.shorter) := by
    rw [command_of_unset unset, target_of_reads name (Lexeme.namesVariable_ofWord n)]
    simp [Reply.map]
  exact ⟨p, commands_of_command unset rfl _ read ends⟩

end Named

end Grammar
end TinyTcl
