import TinyTcl.Proofs.Program.Continuation
import TinyTcl.Proofs.Program.Level

/-! A script between brackets. A substitution reads commands with a loop of its own, one bracket
deeper, up to the bracket that closes it. In front of a line end it reads what the script delivers
by itself (`Grammar.substitution_of_commands`), since the tokens of the script are the same between
brackets (`scan_enclosed`) and its commands the same wherever it stands (`commands_of_level`). -/
namespace TinyTcl

/-- Pieces in front of a script and behind it that leave it inside the delimiters `outer`, where
statements may stand. -/
structure Encloses (front close : List Piece) (outer : List Enclosure) : Prop where
  opens (rest : Text) : Scanned.ofText (Piece.sources front ++ rest) =
    (scan outer true (Piece.sources front).length rest).behind front
  closes (place : Nat) : scan outer true place (Piece.sources close) = ⟨close, none⟩
  script (opened : Nat) (others : List Enclosure) : outer ≠ .quote opened :: others

/-- A script with a line end behind it is cut between delimiters as it is by itself. -/
theorem scan_enclosed {t : Text} {front close : List Piece} {outer : List Enclosure}
    (h : Encloses front close outer) (reached : (Scanned.ofText t).stopped = none)
    (plain : t.getLast? ≠ some '\\')
    (confined : Confined [] (Piece.lexemes (Scanned.ofText t).pieces)) :
    Scanned.ofText (Piece.sources front ++ (t ++ '\n' :: Piece.sources close)) =
      ⟨front ++ (Scanned.ofText t).pieces ++ .lineEnd :: close, none⟩ := by
  have there : (scan [] true (Piece.sources front).length t).stopped = none ∧
      (scan [] true (Piece.sources front).length t).pieces = (Scanned.ofText t).pieces :=
    scan_elsewhere rfl id reached
  obtain ⟨reached', same⟩ := there
  have inner := scan_lineEnd _ (Piece.sources close) reached' plain (same ▸ confined) h.script
  rw [same, h.closes, List.nil_append] at inner
  rw [h.opens, inner]
  simp [Scanned.behind, Scanned.ofText]

/-- Between delimiters the tokens of a script are those it has where it stands. -/
theorem tokens_enclosed {t : Text} {front close : List Piece} {outer : List Enclosure}
    (h : Encloses front close outer) (plain : t.getLast? ≠ some '\\') {p : Position}
    (place : Position.start.after (Piece.sources front) = p) {commands : List Command}
    (accepted : (Grammar.program (.ofText t p)).commands = .ok commands) :
    ∃ e q r,
      (Cursor.ofText (Piece.sources front ++ (t ++ '\n' :: Piece.sources close)) .start).tokens =
        Piece.tokensFrom .start front ++ (Piece.tokensFrom p (Scanned.ofText t).pieces ++
          .ofSymbol .endOfLine e :: (Piece.tokensFrom q close ++ [.ofSymbol .endOfFile r])) ∧
      (Cursor.ofText (Piece.sources front ++ (t ++ '\n' :: Piece.sources close)) .start).fault =
        none := by
  obtain ⟨reached, closed⟩ := closed_of_commands accepted
  have cut := scan_enclosed h reached plain (confined_of_enclosing closed)
  have whole : Piece.sources (Scanned.ofText t).pieces = t := sources_scan reached
  have stream :
      TokenStream.ofText (Piece.sources front ++ (t ++ '\n' :: Piece.sources close)) .start =
        ⟨Piece.tokensFrom .start (front ++ (Scanned.ofText t).pieces ++ .lineEnd :: close) ++
          [.ofSymbol .endOfFile (Position.start.after
            (Piece.sources front ++ (t ++ '\n' :: Piece.sources close)))], none⟩ := by
    unfold TokenStream.ofText
    rw [cut]
  refine ⟨p.after t, (p.after t).after ['\n'], Position.start.after
    (Piece.sources front ++ (t ++ '\n' :: Piece.sources close)), ?_,
    congrArg TokenStream.fault stream⟩
  refine (congrArg TokenStream.tokens stream).trans ?_
  simp only [Piece.tokensFrom_append, Position.after_append, whole, place,
    Piece.tokensFrom, List.append_assoc, List.cons_append]
  rfl

namespace Grammar

/-- Behind a row of commands a closing bracket ends the substitution that holds them. -/
theorem substitution_of_row {depth : Nat} {c d rest : Cursor} {commands : List Command}
    {q : Position} (row : Row depth c commands d)
    (closes : d.Reads ⟨.symbol .rightBracket, q⟩ rest) :
    ∃ within, substitution depth c = .ok commands rest within := by
  induction row with
  | @done c d skipped =>
    have start : c.skipSeparators = d :=
      skipped.trans (Cursor.skipSeparators_of_other closes rfl)
    have le : d.workload ≤ c.workload := start ▸ c.workload_skipSeparators_le
    refine ⟨Nat.lt_of_lt_of_le closes.shorter le, ?_⟩
    rw [substitution_of_skipSeparators depth start le]
    obtain ⟨_, _, view⟩ := closes.view
    rw [substitution, view]
    rfl
  | @command c behind after d first others within within' read ends _ ih =>
    obtain ⟨inside, later⟩ := ih closes
    obtain ⟨t, ahead, reads⟩ := exists_reads_of_command read
    have other : t.lexeme ≠ .symbol .rightBracket := by
      intro bracket
      rw [command_of_stops (.inl ⟨⟨ahead, reads⟩, .inr bracket, rfl⟩)] at read
      exact not_reject read
    have word := Cursor.not_isSeparator_of_skipped reads
    have le := c.workload_skipSeparators_le
    refine ⟨by omega, ?_⟩
    rw [substitution_of_skipSeparators depth rfl le]
    obtain ⟨_, _, view⟩ := reads.view
    rw [substitution, view]
    simp [beq_eq_false_iff_ne.mpr other, word, read, ends, later, Reply.andThen, Reply.map,
      Reply.widen]

/-- Between brackets, in front of a line end, a script is read as it is by itself. -/
theorem substitution_of_commands {t : Text} {p e q : Position} {commands : List Command}
    {c : Cursor} {others : List Token} (depth : Nat)
    (accepted : (program (.ofText t p)).commands = .ok commands)
    (tokens : c.tokens = Piece.tokensFrom p (Scanned.ofText t).pieces ++
      .ofSymbol .endOfLine e :: .ofSymbol .rightBracket q :: others) (sound : c.fault = none) :
    ∃ rest within, substitution depth c = .ok commands rest within ∧ rest.tokens = others ∧
      rest.fault = none := by
  have goes : Continues e ⟨.ofSymbol .rightBracket q :: others, none⟩ [] (.ofText t p) c :=
    continues_of_commands accepted tokens sound
  obtain ⟨d, row, bracket, fault⟩ :=
    row_of_commands depth (.inr ⟨rfl, .inl goes⟩) accepted
  obtain ⟨within, read⟩ := substitution_of_row row
    (Cursor.reads_of_tokens bracket (by simp))
  exact ⟨_, within, read, rfl, fault⟩

private theorem word_of_leftBracket {depth : Nat} {role : Operand} {c rest behind : Cursor}
    {p : Position} {commands : List Command} {within : behind.workload < rest.workload}
    (h : c.Reads ⟨.symbol .leftBracket, p⟩ rest)
    (read : substitution (depth + 1) rest = .ok commands behind within) :
    word depth role c = .ok (.substitution commands p) behind (Nat.lt_trans within h.shorter) := by
  obtain ⟨_, _, view⟩ := h.view
  rw [word, view]
  simp only [read, Reply.map]

/-- A quoted string of one substitution. -/
theorem word_of_leftQuote {depth : Nat} {role : Operand} {c rest next behind beyond : Cursor}
    {p q r : Position} {commands : List Command} {within : behind.workload < next.workload}
    (h : c.Reads ⟨.symbol .leftQuote, p⟩ rest) (opens : rest.Reads ⟨.symbol .leftBracket, q⟩ next)
    (read : substitution (depth + 1) next = .ok commands behind within)
    (closes : behind.Reads ⟨.symbol .rightQuote, r⟩ beyond) :
    ∃ within, word depth role c = .ok (.quoted [.substitution commands q] p) beyond within := by
  have last : parts depth behind = .ok [] beyond closes.shorter := by
    obtain ⟨_, _, view⟩ := closes.view
    rw [parts, view]
  have shorter := Nat.lt_trans closes.shorter (Nat.lt_trans within opens.shorter)
  have all : parts depth rest = .ok [.substitution commands q] beyond shorter := by
    obtain ⟨_, _, view⟩ := opens.view
    rw [parts, view]
    simp only [read, last, Reply.andThen, Reply.map]
  refine ⟨Nat.lt_trans shorter h.shorter, ?_⟩
  obtain ⟨_, _, view⟩ := h.view
  rw [word, view]
  simp only [all, Reply.map]

theorem commands_of_puts {c rest behind here : Cursor} {p : Position} {t : Token} {e : Expr}
    {within : behind.workload < rest.workload} (reads : c.Reads ⟨.symbol .puts, p⟩ rest)
    (h : word 0 .printed rest = .ok e behind within) (ends : behind.Ends t here) :
    (program c).commands = .ok [.puts p e] := by
  refine commands_of_command reads rfl (Nat.lt_trans within reads.shorter) ?_ ends
  obtain ⟨_, _, view⟩ := reads.view
  rw [command, view]
  simp only [h, Reply.map]

section Enclosed

variable {c : Cursor} {t : Text} {a b d p e q r f : Position} {commands : List Command}
  (sound : c.fault = none) (accepted : (program (.ofText t p)).commands = .ok commands)

include sound accepted

/-- A script in brackets is one command with one substitution. -/
theorem commands_of_brackets (tokens : c.tokens = .ofSymbol .puts a :: .ofSymbol .leftBracket b ::
      (Piece.tokensFrom p (Scanned.ofText t).pieces ++ .ofSymbol .endOfLine e ::
        [.ofSymbol .rightBracket q, .ofSymbol .endOfFile r])) :
    (program c).commands = .ok [.puts a (.substitution commands b)] := by
  obtain ⟨_, puts, tokens, sound₁⟩ := Cursor.exists_reads_of_tokens tokens (by simp)
  obtain ⟨_, bracket, tokens, sound₂⟩ := Cursor.exists_reads_of_tokens tokens (by simp)
  obtain ⟨_, _, read, left, _⟩ := substitution_of_commands 1 accepted tokens
    (sound₂.trans (sound₁.trans sound))
  exact commands_of_puts puts (word_of_leftBracket bracket read) (Cursor.ends_of_tokens left rfl)

/-- A script in brackets in quotes is one command with one string. -/
theorem commands_of_string (tokens : c.tokens = .ofSymbol .puts a :: .ofSymbol .leftQuote b ::
      .ofSymbol .leftBracket d :: (Piece.tokensFrom p (Scanned.ofText t).pieces ++
        .ofSymbol .endOfLine e ::
          [.ofSymbol .rightBracket q, .ofSymbol .rightQuote f, .ofSymbol .endOfFile r])) :
    (program c).commands = .ok [.puts a (.quoted [.substitution commands d] b)] := by
  obtain ⟨_, puts, tokens, sound₁⟩ := Cursor.exists_reads_of_tokens tokens (by simp)
  obtain ⟨_, quote, tokens, sound₂⟩ := Cursor.exists_reads_of_tokens tokens (by simp)
  obtain ⟨_, bracket, tokens, sound₃⟩ := Cursor.exists_reads_of_tokens tokens (by simp)
  obtain ⟨_, _, read, left, _⟩ := substitution_of_commands 1 accepted tokens
    (sound₃.trans (sound₂.trans (sound₁.trans sound)))
  obtain ⟨_, close, last, _⟩ := Cursor.exists_reads_of_tokens left (by simp)
  obtain ⟨_, whole⟩ := word_of_leftQuote quote bracket read close
  exact commands_of_puts puts whole (Cursor.ends_of_tokens last rfl)

end Enclosed

end Grammar

/-- A substitution as the word of a `puts` command. -/
theorem encloses_brackets : Encloses
    [.token (.symbol .puts) "puts".toList, .gap [' '], .token (.symbol .leftBracket) ['[']]
    [.token (.symbol .rightBracket) [']']] [.bracket 5] where
  opens rest := by
    have bracket : Scan.step [] false 5 '[' rest =
        .read [.token (.symbol .leftBracket) ['[']] [.bracket 5] true rest := rfl
    refine (scan_keyword (s := .puts) rfl ('[' :: rest)).trans ?_
    exact congrArg (Scanned.behind _) (scan_of_read bracket)
  closes place := by
    have bracket : Scan.step [.bracket 5] true place ']' [] =
        .read [.token (.symbol .rightBracket) [']']] [] false [] := rfl
    refine (scan_of_read bracket).trans ?_
    simp [scan, Scanned.behind]
  script := by simp

/-- A substitution in a quoted string that holds nothing else. -/
theorem encloses_string : Encloses
    [.token (.symbol .puts) "puts".toList, .gap [' '], .token (.symbol .leftQuote) ['"'],
      .token (.symbol .leftBracket) ['[']]
    [.token (.symbol .rightBracket) [']'], .token (.symbol .rightQuote) ['"']]
    [.bracket 6, .quote 5] where
  opens rest := by
    have quote : Scan.step [] false 5 '"' ('[' :: rest) =
        .read [.token (.symbol .leftQuote) ['"']] [.quote 5] false ('[' :: rest) := rfl
    have bracket : Scan.step [.quote 5] false 6 '[' rest =
        .read [.token (.symbol .leftBracket) ['[']] [.bracket 6, .quote 5] true rest := rfl
    refine (scan_keyword (s := .puts) rfl ('"' :: '[' :: rest)).trans ?_
    refine (congrArg (Scanned.behind _) (scan_of_read quote)).trans ?_
    exact congrArg (fun inner => Scanned.behind _ (Scanned.behind _ inner)) (scan_of_read bracket)
  closes place := by
    have bracket : Scan.step [.bracket 6, .quote 5] true place ']' ['"'] =
        .read [.token (.symbol .rightBracket) [']']] [.quote 5] false ['"'] := rfl
    have quote : Scan.step [.quote 5] false (place + 1) '"' [] =
        .read [.token (.symbol .rightQuote) ['"']] [] false [] := rfl
    refine (scan_of_read bracket).trans ?_
    refine (congrArg (Scanned.behind _) (scan_of_read quote)).trans ?_
    simp [scan, Scanned.behind]
  script := by simp

/-- **A substitution reads what a script reads.** A script that is read without a fault and does not
end in a backslash is read between brackets, in front of a line end, as it is by itself in its
place: the word holds exactly its commands. So it is in a quoted string that holds nothing else. -/
theorem substitution_holds_script {source : Text} {filename : Option Text} {commands : List Command}
    (accepted : (Reader.ofText source filename .start).commands = .ok commands)
    (plain : source.getLast? ≠ some '\\') :
    (∃ inner, (Reader.ofText source filename ⟨1, 7⟩).commands = .ok inner ∧
      (Reader.ofText ("puts [".toList ++ source ++ "\n]".toList) filename .start).commands =
        .ok [.puts .start (.substitution inner ⟨1, 6⟩)]) ∧
    ∃ inner, (Reader.ofText source filename ⟨1, 8⟩).commands = .ok inner ∧
      (Reader.ofText ("puts \"[".toList ++ source ++ "\n]\"".toList) filename .start).commands =
        .ok [.puts .start (.quoted [.substitution inner ⟨1, 7⟩] ⟨1, 6⟩)] := by
  have accepted := Reader.commands_eq_ok.mp accepted
  constructor
  · obtain ⟨inner, elsewhere, -⟩ :=
      Grammar.commands_of_level (Cursor.level_ofText source .start ⟨1, 7⟩) accepted
    refine ⟨inner, Reader.commands_eq_ok.mpr elsewhere, Reader.commands_eq_ok.mpr ?_⟩
    obtain ⟨_, _, _, tokens, sound⟩ := tokens_enclosed encloses_brackets plain rfl elsewhere
    rw [List.append_assoc]
    exact Grammar.commands_of_brackets sound elsewhere tokens
  · obtain ⟨inner, elsewhere, -⟩ :=
      Grammar.commands_of_level (Cursor.level_ofText source .start ⟨1, 8⟩) accepted
    refine ⟨inner, Reader.commands_eq_ok.mpr elsewhere, Reader.commands_eq_ok.mpr ?_⟩
    obtain ⟨_, _, _, tokens, sound⟩ := tokens_enclosed encloses_string plain rfl elsewhere
    rw [List.append_assoc]
    exact Grammar.commands_of_string sound elsewhere tokens

/-- A script with a string, a block and a comment in it. -/
theorem substitution_holds_script_comment :
    (∃ commands, (Reader.ofText "set a \"x[puts b]\"; \x7bputs ]\x7d; # c".toList none
      .start).commands = .ok commands) ∧
    "set a \"x[puts b]\"; \x7bputs ]\x7d; # c".toList.getLast? ≠ some '\\' ∧
    (∃ inner, (Reader.ofText "set a \"x[puts b]\"; \x7bputs ]\x7d; # c".toList none
        ⟨1, 7⟩).commands = .ok inner ∧
      (Reader.ofText ("puts [".toList ++ "set a \"x[puts b]\"; \x7bputs ]\x7d; # c".toList ++
        "\n]".toList) none .start).commands = .ok [.puts .start (.substitution inner ⟨1, 6⟩)]) ∧
    ∃ inner, (Reader.ofText "set a \"x[puts b]\"; \x7bputs ]\x7d; # c".toList none
        ⟨1, 8⟩).commands = .ok inner ∧
      (Reader.ofText ("puts \"[".toList ++ "set a \"x[puts b]\"; \x7bputs ]\x7d; # c".toList ++
        "\n]\"".toList) none .start).commands =
        .ok [.puts .start (.quoted [.substitution inner ⟨1, 7⟩] ⟨1, 6⟩)] := by
  have plain : "set a \"x[puts b]\"; \x7bputs ]\x7d; # c".toList.getLast? ≠ some '\\' := by decide
  cases accepted : (Reader.ofText "set a \"x[puts b]\"; \x7bputs ]\x7d; # c".toList none
      .start).commands with
  | ok commands => exact ⟨⟨commands, rfl⟩, plain, substitution_holds_script accepted plain⟩
  | error d =>
    have read : (match (Reader.ofText "set a \"x[puts b]\"; \x7bputs ]\x7d; # c".toList none
        .start).commands with
        | .ok _ => true
        | .error _ => false) = true := by
      decide +kernel
    rw [accepted] at read
    cases read

end TinyTcl
