import TinyTcl.Proofs.Program.WholeText
import TinyTcl.Proofs.Token.Lines

/-! A script with more behind it. Where a script ends, another one may go on with a line end and
further tokens, in the same or in more brackets. What the script delivers is read there as well
(`row_of_commands`): its statements end at the line end as they end at the end of the script, and in
brackets the script never ends. Then the further tokens are all that is left. -/
namespace TinyTcl

/-- Cursors in front of the same tokens, behind which the first is at its end, and the second in
front of a line end and more. The tokens close the delimiters around them. -/
structure Continues (p : Position) (later : TokenStream) (around : List Delimiter) (c c' : Cursor) :
    Prop where
  tokens : ∃ ts last, c.tokens = ts ++ [last] ∧ last.lexeme = .symbol .endOfFile ∧
    c'.tokens = ts ++ .ofSymbol .endOfLine p :: later.tokens ∧
    (∀ t ∈ ts, t.lexeme ≠ .symbol .endOfFile) ∧ enclosing around (lexemes ts) = []
  fault : c'.fault = later.fault

/-- Cursors of which the first is at its end, and the second behind the line end. -/
structure Passes (later : TokenStream) (c c' : Cursor) : Prop where
  spent : ∃ last, c.tokens = [last] ∧ last.lexeme = .symbol .endOfFile
  tokens : c'.tokens = later.tokens
  fault : c'.fault = later.fault

/-- Cursors that read one script, of which the second goes on behind it, inside `extra` more
brackets. -/
def continuing (p : Position) (later : TokenStream) (extra : Nat) : Simulation where
  Q := Eq
  At s c c' := s.braced = true ∧ c.Abreast c' ∨ s.braced = false ∧ Continues p later s.around c c'
  Between s c c' := s.braced = true ∧ c.Abreast c' ∨ s.braced = false ∧
    (Continues p later s.around c c' ∨ s.around = [] ∧ Passes later c c')
  Statements _ := True
  Depth s := if s.braced then s.brackets else s.brackets + extra
  Lenient := True
  Faults _ _ := True
  After _ _ := True

private theorem Passes.ends {later : TokenStream} {c c' : Cursor} (h : Passes later c c') :
    ∃ t here, c.Ends t here := by
  obtain ⟨last, tokens, ended⟩ := h.spent
  exact ⟨last, _, Cursor.ends_of_tokens tokens ended⟩

namespace Continues

open Cursor

variable {p : Position} {later : TokenStream} {around : List Delimiter} {c c' rest here : Cursor}
  {t : Token}

private theorem of_same {d d' : Cursor} (h : Continues p later around c c')
    (tokens : d.tokens = c.tokens) (tokens' : d'.tokens = c'.tokens) (fault : d'.fault = c'.fault) :
    Continues p later around d d' :=
  ⟨by rw [tokens, tokens']; exact h.tokens, fault.trans h.fault⟩

private theorem reads (h : Continues p later around c c') (k : c.Reads t rest) :
    ∃ rest', c'.Reads t rest' ∧ Continues p later (t.lexeme.enclose around) rest rest' := by
  obtain ⟨tokens, other, -⟩ := reads_iff.mp k
  obtain ⟨ts, last, whole, ended, whole', apart, closed⟩ := h.tokens
  rcases ts with _ | ⟨u, us⟩
  · obtain ⟨rfl, _⟩ := List.cons.inj (whole.symm.trans tokens)
    exact absurd ended other
  · obtain ⟨rfl, behind⟩ := List.cons.inj (whole.symm.trans tokens)
    refine ⟨_, reads_of_tokens whole' other, ⟨us, last, behind.symm, ended, rfl, ?_, closed⟩,
      h.fault⟩
    exact fun v inside => apart v (List.mem_cons_of_mem _ inside)

/-- Where the first cursor ends, the second is in front of the line end. -/
theorem ends (h : Continues p later around c c') (k : c.Ends t here) :
    around = [] ∧ ∃ rest', c'.Reads (.ofSymbol .endOfLine p) rest' ∧ Passes later here rest' := by
  obtain ⟨ts, last, whole, ended, whole', apart, closed⟩ := h.tokens
  rcases ts with _ | ⟨u, us⟩
  · have again : here.tokens = [last] := by
      rcases ends_iff.mp k with ⟨_, _, rfl⟩ | ⟨none, _⟩
      · exact whole
      · cases whole.symm.trans none
    exact ⟨closed, _, Cursor.reads_of_tokens whole' (by simp [Token.ofSymbol]),
      ⟨last, again, ended⟩, rfl, h.fault⟩
  · rcases ends_iff.mp k with ⟨⟨others, tokens⟩, last, _⟩ | ⟨none, _⟩
    · obtain ⟨rfl, _⟩ := List.cons.inj (whole.symm.trans tokens)
      exact absurd last (apart u List.mem_cons_self)
    · cases whole.symm.trans none

private theorem look (h : Continues p later around c c') :
    Continues p later around c.look c'.look :=
  h.of_same c.tokens_look c'.tokens_look c'.fault_look

/-- Separators leave the cursors in front of the same token, or the first at its end. -/
theorem skipSeparators (h : Continues p later around c c') :
    (Continues p later around c.skipSeparators c'.skipSeparators ∧
      ∃ t rest, c.skipSeparators.Reads t rest) ∨
    around = [] ∧ (∃ t here, c.skipSeparators.Ends t here) ∧
      ∃ d : Cursor, c'.skipSeparators = d.skipSeparators ∧ d.tokens = later.tokens ∧
        d.fault = later.fault := by
  fun_induction Cursor.skipSeparators c generalizing c' with
  | case1 c t rest _ _ view separates ih =>
    obtain ⟨rest', reads', next⟩ := h.reads ⟨_, _, view⟩
    have same : t.lexeme.enclose around = around := by
      rcases Lexeme.isSeparator_iff.mp separates with lexeme | lexeme <;> rw [lexeme] <;> rfl
    rw [Cursor.skipSeparators_of_separator reads' separates]
    exact ih (same ▸ next)
  | case2 c t rest _ _ view other =>
    have reads : c.Reads t rest := ⟨_, _, view⟩
    obtain ⟨rest', reads', next⟩ := h.reads reads
    rw [Cursor.skipSeparators_of_other reads' (by simpa using other)]
    exact .inl ⟨h, t, rest, reads⟩
  | case3 c other =>
    rcases c.view_cases with ⟨t, rest, _, _, view⟩ | ⟨t, here, ends⟩ | ⟨d, here, breaks⟩
    · exact absurd view (other _ _ _ _)
    · obtain ⟨outside, rest', reads', passes⟩ := h.ends ends
      refine .inr ⟨outside, ⟨t, here, ends⟩, rest', ?_, passes.tokens, passes.fault⟩
      exact Cursor.skipSeparators_of_separator reads' rfl
    · obtain ⟨ts, last, whole, _⟩ := h.tokens
      rw [(breaks_iff.mp breaks).1] at whole
      simp at whole

private theorem concludes (h : Continues p later around c c') {depth extra : Nat}
    (concludes : c.Concludes depth) : c'.Concludes (depth + extra) := by
  rcases concludes with ⟨t, rest, reads, concluding⟩ | ⟨t, here, ends⟩
  · obtain ⟨rest', reads', _⟩ := h.reads reads
    refine .inl ⟨t, rest', reads', concluding.imp_right (And.imp_left ?_)⟩
    exact fun inside => Nat.lt_of_lt_of_le inside (Nat.le_add_right _ _)
  · obtain ⟨_, rest', reads', _⟩ := h.ends ends
    exact .inl ⟨_, rest', reads', .inl rfl⟩

/-- At the end of the script the line end is what ends the statement. -/
theorem endOfStatement {s : Spot} {extra : Nat} {d e : Command} (text : s.braced = false)
    (h : Continues p later s.around c c') : (continuing p later extra).Agree (fun _ _ => True)
      ((continuing p later extra).Between s) (Grammar.endOfStatement s.brackets d c)
      (Grammar.endOfStatement (s.brackets + extra) e c') := by
  rcases c.view_cases with ⟨t, rest, reads⟩ | ⟨t, here, ends⟩ | ⟨_, here, breaks⟩
  · obtain ⟨rest', reads', next⟩ := h.reads reads
    by_cases separates : t.lexeme.isSeparator = true
    · rw [Grammar.endOfStatement_of_separator reads separates,
        Grammar.endOfStatement_of_separator reads' separates]
      have same : t.lexeme.enclose s.around = s.around := by
        rcases Lexeme.isSeparator_iff.mp separates with lexeme | lexeme <;> rw [lexeme] <;> rfl
      exact ⟨trivial, .inr ⟨text, .inl (same ▸ next)⟩⟩
    by_cases closes : 0 < s.brackets ∧ t.lexeme = .symbol .rightBracket
    · rw [Grammar.endOfStatement_of_rightBracket reads closes.1 closes.2,
        Grammar.endOfStatement_of_rightBracket reads' (Nat.lt_of_lt_of_le closes.1
          (Nat.le_add_right _ _)) closes.2]
      exact ⟨trivial, .inr ⟨text, .inl h⟩⟩
    · rw [Grammar.endOfStatement_of_other reads (by simp [separates, closes]), reject_eq]
      exact Simulation.agree_of_lenient trivial
  · obtain ⟨outside, rest', reads', passes⟩ := h.ends ends
    rw [Grammar.endOfStatement_of_ends ends, Grammar.endOfStatement_of_separator reads' rfl]
    exact ⟨trivial, .inr ⟨text, .inr ⟨outside, passes⟩⟩⟩
  · rw [Grammar.endOfStatement_of_breaks breaks]
    exact Simulation.agree_of_lenient trivial

end Continues

/-- What stands behind a script does not change how it is read. -/
theorem lawful_continuing (p : Position) (later : TokenStream) (extra : Nat) :
    (continuing p later extra).Lawful where
  level := .inl trivial
  bracketed s := by
    obtain ⟨_ | _, around⟩ := s
    · exact Nat.add_right_comm _ _ _ ▸ congrArg (· + extra) (Spot.brackets_behind_leftBracket _)
    · exact Spot.brackets_behind_leftBracket _
  quoted s := by
    obtain ⟨_ | _, around⟩ := s
    · exact congrArg (· + extra) (Spot.brackets_behind_leftQuote _)
    · exact Spot.brackets_behind_leftQuote _
  outermost := rfl
  column := by
    rintro p _ rfl
    rfl
  token := by
    rintro s c c' rest t (⟨braced, h⟩ | ⟨text, h⟩) reads other
    · obtain ⟨rest', reads', next⟩ := h.reads reads
      refine ⟨t, rest', reads', ⟨rfl, rfl⟩, fun _ => ?_⟩
      unfold Simulation.Behind
      split
      · exact .inl ⟨braced, next⟩
      · exact .inl ⟨braced, next⟩
    · obtain ⟨rest', reads', next⟩ := h.reads reads
      refine ⟨t, rest', reads', ⟨rfl, rfl⟩, fun _ => ?_⟩
      unfold Simulation.Behind
      split
      · next opens => exact .inr ⟨text, .inl (opens ▸ next)⟩
      · exact .inr ⟨text, next⟩
  separator := by
    rintro s c c' rest t (⟨_, h⟩ | ⟨_, h⟩) reads separates
    · obtain ⟨rest', reads', _⟩ := h.reads reads
      exact ⟨t, c', .inl ⟨⟨rest', reads'⟩, .inl separates, rfl⟩⟩
    · obtain ⟨rest', reads', _⟩ := h.reads reads
      exact ⟨t, c', .inl ⟨⟨rest', reads'⟩, .inl separates, rfl⟩⟩
  finish := by
    rintro s c c' here t (⟨_, h⟩ | ⟨_, h⟩) ends
    · obtain ⟨here', ends', _⟩ := h.ends ends
      exact ⟨t, here', .inr ends'⟩
    · obtain ⟨_, rest', reads', _⟩ := h.ends ends
      exact ⟨_, c', .inl ⟨⟨rest', reads'⟩, .inl rfl, rfl⟩⟩
  broken _ _ := .inl trivial
  look := by
    rintro s c c' (⟨braced, h⟩ | ⟨text, h⟩)
    · exact .inl ⟨braced, synchronous_abreast.look (s := s) h⟩
    · exact .inr ⟨text, h.look⟩
  refuse _ _ _ _ := .inl trivial
  statements _ := trivial
  conclude := by
    rintro ⟨_ | _, around⟩ c c' (⟨braced, h⟩ | ⟨text, h⟩) _ concludes
    · cases braced
    · exact h.concludes concludes
    · exact synchronous_abreast.concludes (s := ⟨true, around⟩) h concludes
    · cases text
  endOfStatement := by
    rintro ⟨_ | _, around⟩ c c' d e (⟨braced, h⟩ | ⟨text, h⟩) _ name
    · cases braced
    · exact h.endOfStatement text
    · exact ((synchronous_abreast.endOfStatement (s := ⟨true, around⟩) h name).of_lenient
        trivial).weaken fun _ _ same => .inl ⟨rfl, same⟩
    · cases text
  resume := by
    rintro s c c' (⟨braced, h⟩ | ⟨text, h⟩) inside
    · exact .inl ⟨braced, synchronous_abreast.skipSeparators (s := s) h⟩
    · have around : s.around ≠ [] := by
        rintro none
        rw [none] at inside
        cases inside
      rcases h with h | ⟨outside, _⟩
      · rcases h.skipSeparators with ⟨next, _⟩ | ⟨outside, _⟩
        · exact .inr ⟨text, next⟩
        · exact absurd outside around
      · exact absurd outside around
  unclosed _ _ _ := .inl trivial
  braces _ _ _ _ _ _ same _ := .inl ⟨rfl, same.eq ▸ (Cursor.Abreast.refl _).withLog _ _⟩
  exhausted := by
    rintro c c' here t (⟨_, h⟩ | ⟨text, _⟩) ends
    · obtain ⟨here', ends', _⟩ := h.ends ends
      exact ⟨t, here', ends'⟩
    · cases text
  surplus _ _ _ := .inl trivial
  withLog := by
    rintro s c c' inner inner' (⟨braced, h⟩ | ⟨text, h⟩) _
    · exact .inl ⟨braced, h.withLog _ _⟩
    · exact .inr ⟨text, h.of_same rfl rfl rfl⟩
  after _ _ := trivial

/-- Only what the first cursor is to read matters between statements. -/
theorem between_of_same {p : Position} {later : TokenStream} {extra : Nat} {c c' d : Cursor}
    {s : Spot} (h : (continuing p later extra).Between s c c') (text : s.braced = false)
    (tokens : d.tokens = c.tokens) : (continuing p later extra).Between s d c' := by
  obtain ⟨braced, _⟩ | ⟨_, h | ⟨outside, passes⟩⟩ := h
  · cases text.symm.trans braced
  · exact .inr ⟨text, .inl (h.of_same tokens rfl rfl)⟩
  · exact .inr ⟨text, .inr ⟨outside, tokens ▸ passes.spent, passes.tokens, passes.fault⟩⟩

/-- As long as the first cursor has something to read, the script goes on. -/
theorem continues_of_reads {p : Position} {later : TokenStream} {extra : Nat} {c c' rest : Cursor}
    {t : Token} (h : (continuing p later extra).Between (.start false) c c')
    (reads : c.skipSeparators.Reads t rest) :
    Continues p later [] c.skipSeparators c'.skipSeparators := by
  obtain ⟨⟨⟩, _⟩ | ⟨_, h | ⟨_, passes⟩⟩ := h
  · rcases h.skipSeparators with ⟨next, _⟩ | ⟨_, ⟨_, _, ends⟩, _⟩
    · exact next
    · exact absurd ends reads.not_ends
  · obtain ⟨_, _, ends⟩ := passes.ends
    have same := Cursor.skipSeparators_of_not_reads fun _ _ reads => reads.not_ends ends
    rw [same] at reads
    exact absurd ends reads.not_ends

namespace Grammar

/-- Inside `depth` brackets these commands are read one behind the other, each with the end of its
statement, up to a cursor. -/
inductive Row (depth : Nat) : Cursor → List Command → Cursor → Prop where
  | done {c d : Cursor} (skipped : c.skipSeparators = d.skipSeparators) : Row depth c [] d
  | command {c behind after d : Cursor} {first : Command} {others : List Command}
      {within : behind.workload < c.skipSeparators.workload}
      {within' : after.workload < behind.workload + 1}
      (command : Grammar.command depth c.skipSeparators = .ok first behind within)
      (ends : endOfStatement depth first behind = .ok () after within')
      (rest : Row depth after others d) : Row depth c (first :: others) d

/-- The commands of a script are read wherever it goes on behind a line end. -/
theorem row_of_commands {p : Position} {later : TokenStream} (extra : Nat) {c c' : Cursor}
    {commands : List Command} (h : (continuing p later extra).Between (.start false) c c')
    (accepted : (program c).commands = .ok commands) :
    ∃ d, Row extra c' commands d ∧ d.tokens = later.tokens ∧ d.fault = later.fault := by
  induction commands generalizing c c' with
  | nil =>
    obtain ⟨t, here, ends⟩ := ends_of_commands_nil accepted
    obtain ⟨⟨⟩, _⟩ | ⟨_, h | ⟨_, passes⟩⟩ := h
    · rcases h.skipSeparators with ⟨_, _, _, reads⟩ | ⟨_, _, d, skipped, tokens, fault⟩
      · exact absurd ends reads.not_ends
      · exact ⟨d, .done skipped, tokens, fault⟩
    · exact ⟨c', .done rfl, passes.tokens, passes.fault⟩
  | cons first others ih =>
    obtain ⟨_, _, read, accepted⟩ := statement_of_commands_cons rfl accepted
    rw [statement] at read
    obtain ⟨_, behind, _, command, last⟩ := Reply.andThen_eq_ok.mp read
    obtain ⟨_, after, _, ended, noted⟩ := Reply.andThen_eq_ok.mp last
    cases noted
    obtain ⟨t, rest, reads⟩ := exists_reads_of_command command
    have start := continues_of_reads h reads
    have laws := lawful_continuing p later extra
    have depth : (continuing p later extra).Depth (.start false) = extra := Nat.zero_add _
    have outermost : (Spot.start false).brackets = 0 := rfl
    have agree := laws.command (s := .start false) (.inr ⟨rfl, start⟩) trivial
    rw [depth, outermost, command] at agree
    obtain ⟨_, behind', _, read', alike, next⟩ := agree.of_ok
    obtain rfl := alike.eq
    have agree := laws.endOfStatement (s := .start false) (d := first) next trivial rfl
    rw [depth, outermost, ended] at agree
    obtain ⟨_, after', _, ended', _, next⟩ := agree.of_ok
    obtain ⟨d, row, tokens, fault⟩ := (ih · accepted) (between_of_same next rfl rfl)
    exact ⟨d, .command read' ended' row, tokens, fault⟩

end Grammar

namespace Reader

private theorem nexts_of_skipped {c d : Cursor} (skipped : c.skipSeparators = d.skipSeparators)
    (filename : Option Text) (count : Nat) :
    nexts count ⟨c, filename⟩ = nexts count ⟨d, filename⟩ := by
  cases count with
  | zero => rfl
  | succ count =>
    simp only [nexts, next]
    generalize c.skipSeparators = start at skipped
    subst skipped
    rfl

/-- A row of commands is what is delivered next. -/
theorem nexts_of_row {c d : Cursor} {commands : List Command} (row : Grammar.Row 0 c commands d)
    (filename : Option Text) (count : Nat) : nexts (commands.length + count) ⟨c, filename⟩ =
      commands.map (fun command => .ok (some command)) ++ nexts count ⟨d, filename⟩ := by
  induction row with
  | done skipped => simp [nexts_of_skipped skipped]
  | @command c behind after d first others _ _ command ends rest ih =>
    obtain ⟨t, ahead, reads⟩ := Grammar.exists_reads_of_command command
    have less : (after.note (.parsed first.name first.position.line)).workload <
        c.skipSeparators.workload := by
      simp
      omega
    have read : Grammar.statement c.skipSeparators =
        .ok first (after.note (.parsed first.name first.position.line)) less := by
      rw [Grammar.statement, command]
      simp only [Reply.andThen, ends]
    rw [List.length_cons, Nat.add_right_comm, nexts, next_of_statement filename reads read,
      List.map_cons, List.cons_append, ← ih]
    have same : after.SameRest (after.note (.parsed first.name first.position.line)) := ⟨rfl, rfl⟩
    congr 1
    exact nexts_of_sameRest same filename _

end Reader

/-- A script that delivers no fault is cut to its end, and closes nothing around it. -/
theorem closed_of_commands {t : Text} {start : Position} {commands : List Command}
    (accepted : (Grammar.program (.ofText t start)).commands = .ok commands) :
    (Scanned.ofText t).stopped = none ∧
      ∀ around, enclosing around (Piece.lexemes (Scanned.ofText t).pieces) = around := by
  obtain ⟨ts, others, tokens, row, whole, -⟩ := Grammar.sound_program (nested_ofText t start)
  obtain ⟨sound, last, rfl, -⟩ := whole (congrArg Prod.snd (Program.delivery_of_commands accepted))
  have sound : (TokenStream.ofText t start).fault = none := sound
  rcases tokens_ofText t start with ⟨d, broken, _⟩ | ⟨reached, _, cut⟩
  · cases sound.symm.trans broken
  · obtain ⟨rfl, -⟩ := List.append_inj' (cut.symm.trans tokens) rfl
    refine ⟨reached, fun around => ?_⟩
    rw [← Piece.map_lexeme_tokensFrom start]
    exact row.enclosing around

/-- A script goes on behind a line end with what its tokens are followed by. -/
theorem continues_of_commands {t : Text} {start p : Position} {later : TokenStream} {c' : Cursor}
    {commands : List Command}
    (accepted : (Grammar.program (.ofText t start)).commands = .ok commands)
    (tokens : c'.tokens = Piece.tokensFrom start (Scanned.ofText t).pieces ++
      .ofSymbol .endOfLine p :: later.tokens)
    (fault : c'.fault = later.fault) : Continues p later [] (.ofText t start) c' := by
  obtain ⟨reached, closed⟩ := closed_of_commands accepted
  rcases tokens_ofText t start with ⟨d, broken, _⟩ | ⟨_, _, cut⟩
  · cases ((fault_ofText t start).mpr reached).symm.trans broken
  · refine ⟨⟨_, _, cut, rfl, tokens, fun _ => ne_endOfFile_of_mem_scan, ?_⟩, fault⟩
    have same := closed []
    rwa [← Piece.map_lexeme_tokensFrom start] at same

/-- **Reading is compositional over lines.** A script that is read without a fault and does not end
in a backslash may be followed by a line end and any text. Its commands are delivered first, and
then whatever a reader of the other text by itself, at the start of its line, delivers: the same
outcomes, with the same places, however often it is asked. -/
theorem Reader.nexts_append_lineEnd {first : Text} {filename : Option Text} {start : Position}
    {commands : List Command} (accepted : (ofText first filename start).commands = .ok commands)
    (plain : first.getLast? ≠ some '\\') (second : Text) (count : Nat) :
    (ofText (first ++ '\n' :: second) filename start).nexts (commands.length + count) =
      commands.map (fun command => .ok (some command)) ++
        (ofText second filename ⟨start.line + first.count '\n' + 1, 1⟩).nexts count := by
  have accepted := commands_eq_ok.mp accepted
  obtain ⟨reached, closed⟩ := closed_of_commands accepted
  have cut := TokenStream.ofText_lineEnd second start reached plain (confined_of_enclosing closed)
  have tokens := congrArg TokenStream.tokens cut
  have fault := congrArg TokenStream.fault cut
  have goes : Continues (start.after first) (TokenStream.ofText second _) [] (.ofText first start)
      (.ofText (first ++ '\n' :: second) start) :=
    continues_of_commands accepted tokens fault
  obtain ⟨d, row, tokens, fault⟩ :=
    Grammar.row_of_commands 0 (.inr ⟨rfl, .inl goes⟩) accepted
  have rest : (Cursor.ofText second (start.after (first ++ ['\n']))).SameRest d := ⟨tokens, fault⟩
  rw [← Position.after_lineEnd, ofText, ofText, nexts_of_row row, nexts_of_sameRest rest]

/-- Two commands and a comment, and behind them a substitution that is not closed. -/
theorem Reader.nexts_append_lineEnd_unclosed : ∃ commands,
    (ofText "set a 1\nputs $a; # b".toList none .start).commands = .ok commands ∧
    commands.length = 2 ∧ "set a 1\nputs $a; # b".toList.getLast? ≠ some '\\' ∧
    (ofText ("set a 1\nputs $a; # b".toList ++ '\n' :: "puts [".toList) none .start).nexts 3 =
      commands.map (fun command => .ok (some command)) ++
        (ofText "puts [".toList none ⟨3, 1⟩).nexts 1 := by
  have plain : "set a 1\nputs $a; # b".toList.getLast? ≠ some '\\' := by decide
  have known : (match (ofText "set a 1\nputs $a; # b".toList none .start).commands with
      | .ok commands => some commands.length
      | .error _ => none) = some 2 := by
    decide +kernel
  split at known
  · next commands accepted =>
    have two : commands.length = 2 := Option.some.inj known
    have outcomes := nexts_append_lineEnd accepted plain "puts [".toList 1
    rw [two] at outcomes
    exact ⟨commands, accepted, two, plain, outcomes⟩
  · cases known

end TinyTcl
