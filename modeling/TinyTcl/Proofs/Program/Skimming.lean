import TinyTcl.Proofs.Program.Level

/-! Readers that do not see every line end. A cursor that skims over some line ends keeps step with
one that reads them, as long as no skipped line end parts two commands (`Skippable`): between
statements the two may differ by separators, elsewhere the skipped line ends stand behind a command
and in front of what ends it as well. -/
namespace TinyTcl

/-- Separators stand only in brackets. -/
def SeparatorsInside (ls : List Lexeme) : Prop :=
  ∀ ⦃before after : List Lexeme⦄ ⦃l : Lexeme⦄, ls = before ++ l :: after → l.isSeparator = true →
    enclosing [] before ≠ []

/-- What a line end may be skipped in front of, in brackets. -/
def Lexeme.EndsCommand (l : Lexeme) : Prop := l = .symbol .semicolon ∨ l = .symbol .rightBracket

/-- Where the lexemes that are not kept may stand. -/
structure Skippable (keep : Lexeme → Bool) (whole : List Lexeme) : Prop where
  /-- Only line ends are skipped. -/
  lineEnd {l : Lexeme} : keep l = false → l = .symbol .endOfLine
  /-- In brackets, behind a command, another lexeme ends the command as well. -/
  inside {before after : List Lexeme} {l m : Lexeme} : whole = before ++ l :: m :: after →
    keep m = false → enclosing [] (before ++ [l]) ≠ [] → l ≠ .symbol .leftBracket →
    l.isSeparator = false → ∃ next rest, after.filter keep = next :: rest ∧ next.EndsCommand
  /-- Outside of brackets nothing follows. -/
  outside {before after : List Lexeme} {l : Lexeme} : whole = before ++ l :: after →
    keep l = false → enclosing [] before = [] →
    ∃ rest, after.filter keep = .symbol .endOfFile :: rest

private theorem Skippable.keep_of_ne {keep : Lexeme → Bool} {whole : List Lexeme}
    (h : Skippable keep whole) {l : Lexeme} (other : l ≠ .symbol .endOfLine) :
    keep l = true := by
  cases kept : keep l with
  | true => rfl
  | false => exact absurd (h.lineEnd kept) other

/-- A cursor that has gone on behind the lexemes `before`. -/
structure Cursor.Follows (c source : Cursor) (before : List Lexeme) (around : List Delimiter) :
    Prop where
  tokens : lexemes source.tokens = before ++ lexemes c.tokens
  fault : c.fault = source.fault
  around : enclosing [] before = around
  separators : SeparatorsInside before

/-- Whether a lexeme that is skipped next would stand behind a command. -/
def Worded (before rest : List Lexeme) : Prop :=
  (∀ front l, before = front ++ [l] → l ≠ .symbol .leftBracket ∧ l.isSeparator = false) ∨
    ∀ l others, rest = l :: others → l.isSeparator = false

/-- Cursors in a statement or an expression, of which the second skims over line ends. -/
structure Skims (keep : Lexeme → Bool) (source : Cursor) (s : Spot) (c c' : Cursor) : Prop where
  tokens : lexemes c'.tokens = (lexemes c.tokens).filter keep
  fault : c.fault = none → c'.fault = none
  behind : ∃ before, c.Follows source before s.around ∧ Worded before (lexemes c.tokens)

/-- Cursors between two statements, which may differ by separators. -/
structure Pauses (keep : Lexeme → Bool) (source : Cursor) (s : Spot) (c c' : Cursor) : Prop where
  tokens : (lexemes c'.tokens).dropWhile Lexeme.isSeparator =
    ((lexemes c.tokens).filter keep).dropWhile Lexeme.isSeparator
  fault : c.fault = none → c'.fault = none
  behind : ∃ before, c.Follows source before s.around

/-- Replies of readers of which the second skims over line ends, outside of braced expressions. -/
def skimming (keep : Lexeme → Bool) (source : Cursor) : Simulation where
  Q _ _ := True
  At s c c' := s.braced = true ∧ c.Level c' ∨ s.braced = false ∧ Skims keep source s c c'
  Between s c c' := s.braced = true ∧ c.Level c' ∨ s.braced = false ∧ Pauses keep source s c c'
  Statements s := s.around.head? = some .bracket
  Lenient := True
  Faults _ _ := True
  After _ _ := True

private theorem SeparatorsInside.concat {ls : List Lexeme} {l : Lexeme} (h : SeparatorsInside ls)
    (inside : l.isSeparator = true → enclosing [] ls ≠ []) : SeparatorsInside (ls ++ [l]) := by
  intro before after m same separates
  rcases eq_append_of_concat_eq same with ⟨_, rfl, rfl⟩ | ⟨others, whole, _⟩
  · exact inside separates
  · exact h whole separates

namespace Cursor.Follows

variable {source c rest : Cursor} {before : List Lexeme} {around : List Delimiter} {t : Token}

private theorem reads (h : c.Follows source before around) (k : c.Reads t rest)
    (inside : t.lexeme.isSeparator = true → around ≠ []) :
    rest.Follows source (before ++ [t.lexeme]) (t.lexeme.enclose around) := by
  refine ⟨?_, k.lexemes.2.2.trans h.fault, ?_,
    h.separators.concat fun separates => h.around ▸ inside separates⟩
  · rw [h.tokens, k.lexemes.1, List.append_assoc]
    rfl
  · simp [h.around]

theorem enclose_of_separator {l : Lexeme} (separates : l.isSeparator = true) :
    l.enclose around = around := by
  rcases Lexeme.isSeparator_iff.mp separates with rfl | rfl
  · rfl
  · rfl

private theorem skipSeparators (h : c.Follows source before around) (inside : around ≠ []) :
    ∃ before', c.skipSeparators.Follows source before' around := by
  fun_induction Cursor.skipSeparators c generalizing before with
  | case1 c t rest _ _ view separates ih =>
    have next := h.reads ⟨_, _, view⟩ fun _ => inside
    rw [enclose_of_separator separates] at next
    exact ih next
  | case2 c t rest _ _ view other => exact ⟨before, h⟩
  | case3 c other => exact ⟨before, h⟩

end Cursor.Follows

namespace Skims

variable {keep : Lexeme → Bool} {s : Spot} {source c c' rest here : Cursor}
  {t : Token}

/-- A token that is kept is read at the second cursor, too. -/
theorem reads (h : Skims keep source s c c') (k : c.Reads t rest) (kept : keep t.lexeme = true) :
    ∃ t' rest', c'.Reads t' rest' ∧ t'.lexeme = t.lexeme ∧
      lexemes rest'.tokens = (lexemes rest.tokens).filter keep ∧
      (rest.fault = none → rest'.fault = none) := by
  obtain ⟨tokens, other, fault⟩ := k.lexemes
  have same := h.tokens
  rw [tokens, List.filter_cons_of_pos kept] at same
  obtain ⟨t', rest', reads', lexeme, later, fault'⟩ := Cursor.reads_of_lexemes same other
  exact ⟨t', rest', reads', lexeme, later, by rw [fault, fault']; exact h.fault⟩

/-- A line end that is skipped stands in front of what ends the command as well. -/
theorem stops_of_skipped (laws : Skippable keep (lexemes source.tokens))
    (h : Skims keep source s c c') (k : c.Reads t rest) (skipped : keep t.lexeme = false) :
    lexemes c'.tokens = (lexemes rest.tokens).filter keep ∧
      ((∃ t' rest', c'.Reads t' rest' ∧ t'.lexeme.EndsCommand) ∨
        s.around = [] ∧ ∃ t' here', c'.Ends t' here') := by
  obtain ⟨before, follows, worded⟩ := h.behind
  have tokens := k.lexemes.1
  have same : lexemes c'.tokens = (lexemes rest.tokens).filter keep := by
    rw [h.tokens, tokens, List.filter_cons_of_neg (by simp [skipped])]
  refine ⟨same, ?_⟩
  have at_line := follows.tokens
  rw [tokens] at at_line
  by_cases around : s.around = []
  · right
    obtain ⟨ls, next⟩ := laws.outside at_line skipped (follows.around.trans around)
    obtain ⟨t', ends'⟩ := Cursor.ends_of_lexemes (same.trans next)
    exact ⟨around, t', _, ends'⟩
  · left
    rcases worded with worded | worded
    · rcases List.eq_nil_or_concat before with rfl | ⟨front, l, rfl⟩
      · exact absurd follows.around.symm around
      · rw [List.concat_eq_append] at at_line worded
        obtain ⟨bracket, separator⟩ := worded front l rfl
        have inside := follows.around
        rw [List.concat_eq_append] at inside
        rw [List.append_assoc] at at_line
        obtain ⟨m, ls, next, ending⟩ := laws.inside at_line skipped (inside ▸ around) bracket
          separator
        have other : m ≠ .symbol .endOfFile := by
          rcases ending with rfl | rfl <;> simp
        obtain ⟨t', rest', reads', rfl, _⟩ := Cursor.reads_of_lexemes (same.trans next) other
        exact ⟨t', rest', reads', ending⟩
    · have separates := worded _ _ tokens
      rw [laws.lineEnd skipped] at separates
      cases separates

private theorem ends (laws : Skippable keep (lexemes source.tokens)) (h : Skims keep source s c c')
    (k : c.Ends t here) :
    ∃ t' here', c'.Ends t' here' := by
  have same := h.tokens
  rcases k.lexemes.1 with ⟨ls, tokens⟩ | ⟨tokens, sound⟩
  · rw [tokens, List.filter_cons_of_pos (laws.keep_of_ne (by simp))] at same
    obtain ⟨t', ends'⟩ := Cursor.ends_of_lexemes same
    exact ⟨t', _, ends'⟩
  · rw [tokens, List.filter_nil] at same
    exact ⟨_, _, Cursor.ends_of_nil (List.map_eq_nil_iff.mp same) (h.fault sound)⟩

/-- A token that is no separator is read at both cursors. -/
theorem token (laws : Skippable keep (lexemes source.tokens)) (h : Skims keep source s c c')
    (k : c.Reads t rest) (other : t.lexeme.isSeparator = false) :
    ∃ t' rest', c'.Reads t' rest' ∧ t'.lexeme = t.lexeme ∧
      Pauses keep source (s.behind t.lexeme) rest rest' ∧
      (t.lexeme ≠ .symbol .leftBracket → Skims keep source (s.behind t.lexeme) rest rest') := by
  have kept : keep t.lexeme = true := by
    apply laws.keep_of_ne
    intro lineEnd
    rw [lineEnd] at other
    cases other
  obtain ⟨t', rest', reads', same, lexemes, fault⟩ := h.reads k kept
  obtain ⟨before, follows, _⟩ := h.behind
  have next := follows.reads k fun separates => by rw [other] at separates; cases separates
  refine ⟨t', rest', reads', same, ⟨by rw [lexemes], fault, _, next⟩, fun bracket => ?_⟩
  refine ⟨lexemes, fault, _, next, .inl fun front l whole => ?_⟩
  obtain ⟨_, last⟩ := List.append_inj' whole rfl
  cases last
  exact ⟨bracket, other⟩

private theorem pauses (h : Skims keep source s c c') : Pauses keep source s c c' := by
  obtain ⟨before, follows, _⟩ := h.behind
  exact ⟨by rw [h.tokens], h.fault, before, follows⟩

private theorem look (h : Skims keep source s c c') : Skims keep source s c.look c'.look := by
  obtain ⟨before, follows, worded⟩ := h.behind
  refine ⟨?_, ?_, before, ⟨?_, ?_, follows.around, follows.separators⟩, ?_⟩
  · simpa using h.tokens
  · simpa using h.fault
  · simpa using follows.tokens
  · simpa using follows.fault
  · simpa using worded

private theorem withLog (h : Skims keep source s c c') (log log' : List Event) :
    Skims keep source s (c.withLog log) (c'.withLog log') := by
  obtain ⟨before, follows, worded⟩ := h.behind
  exact ⟨h.tokens, h.fault, before,
    ⟨follows.tokens, follows.fault, follows.around, follows.separators⟩, worded⟩

end Skims

theorem Cursor.lexemes_skipSeparators (c : Cursor) :
    lexemes c.skipSeparators.tokens = (lexemes c.tokens).dropWhile Lexeme.isSeparator := by
  fun_induction skipSeparators c with
  | case1 c t rest read _ view separates ih =>
    rw [ih, read, lexemes_cons, List.dropWhile_cons_of_pos separates]
  | case2 c t rest read _ view other =>
    rw [read, lexemes_cons, List.dropWhile_cons_of_neg other]
  | case3 c other =>
    rcases c.view_cases with ⟨t, rest, _, _, view⟩ | ⟨t, here, ends⟩ | ⟨d, here, breaks⟩
    · exact absurd view (other _ _ _ _)
    · rcases ends.lexemes.1 with ⟨ls, same⟩ | ⟨same, _⟩
      · rw [same, List.dropWhile_cons_of_neg (by simp [Lexeme.isSeparator, Symbol.isSeparator])]
      · rw [same, List.dropWhile_nil]
    · rw [(breaks_iff.mp breaks).1, lexemes_nil, List.dropWhile_nil]

theorem Cursor.fault_skipSeparators (c : Cursor) : c.skipSeparators.fault = c.fault := by
  fun_induction skipSeparators c with
  | case1 c t rest _ _ view separates ih =>
    rw [ih]
    exact (Reads.lexemes ⟨_, _, view⟩).2.2
  | case2 | case3 => rfl

/-- Leaving out some separators does not change what follows the first separators. -/
theorem dropWhile_filter {α : Type} {keep drop : α → Bool} {as : List α}
    (h : ∀ a, keep a = false → drop a = true) :
    (as.filter keep).dropWhile drop = (as.dropWhile drop).filter keep := by
  induction as with
  | nil => rfl
  | cons a rest ih =>
    cases kept : keep a with
    | false =>
      rw [List.filter_cons_of_neg (by simp [kept]), List.dropWhile_cons_of_pos (h a kept), ih]
    | true =>
      rw [List.filter_cons_of_pos kept]
      cases dropped : drop a with
      | true => rw [List.dropWhile_cons_of_pos dropped, List.dropWhile_cons_of_pos dropped, ih]
      | false =>
        rw [List.dropWhile_cons_of_neg (by simp [dropped]),
          List.dropWhile_cons_of_neg (by simp [dropped]), List.filter_cons_of_pos kept]

private theorem Pauses.resume {keep : Lexeme → Bool} {s : Spot} {source c c' : Cursor}
    (laws : Skippable keep (lexemes source.tokens)) (h : Pauses keep source s c c')
    (inside : s.around ≠ []) :
    Skims keep source s c.skipSeparators c'.skipSeparators := by
  obtain ⟨before, follows⟩ := h.behind
  obtain ⟨before', resumed⟩ := follows.skipSeparators inside
  refine ⟨?_, ?_, before', resumed, .inr fun l others next => ?_⟩
  · rw [Cursor.lexemes_skipSeparators, Cursor.lexemes_skipSeparators, h.tokens]
    exact dropWhile_filter fun l skipped => laws.lineEnd skipped ▸ rfl
  · rw [Cursor.fault_skipSeparators, Cursor.fault_skipSeparators]
    exact h.fault
  · have first := List.head?_dropWhile_not Lexeme.isSeparator (lexemes c.tokens)
    rw [← Cursor.lexemes_skipSeparators, next] at first
    exact first

private theorem Spot.brackets_pos {s : Spot} (h : s.around.head? = some .bracket) :
    0 < s.brackets := by
  apply List.count_pos_iff.mpr
  cases around : s.around with
  | nil => rw [around] at h; cases h
  | cons first outer =>
    rw [around] at h
    cases h
    exact List.mem_cons_self

/-- Where one command ends, the other one ends, too. -/
theorem Skims.concludes {keep : Lexeme → Bool} {s : Spot} {source c c' : Cursor}
    (laws : Skippable keep (lexemes source.tokens)) (h : Skims keep source s c c')
    (inside : s.around.head? = some .bracket) (k : c.Concludes s.brackets) :
    c'.Concludes s.brackets := by
  rcases k with ⟨t, rest, reads, ending⟩ | ⟨t, here, ends⟩
  · cases kept : keep t.lexeme with
    | true =>
      obtain ⟨t', rest', reads', same, _⟩ := h.reads reads kept
      exact .inl ⟨t', rest', reads', same ▸ ending⟩
    | false =>
      rcases (h.stops_of_skipped laws reads kept).2 with ⟨t', rest', reads', same | same⟩ |
        ⟨_, ends'⟩
      · exact .inl ⟨t', rest', reads', .inl (same ▸ rfl)⟩
      · exact .inl ⟨t', rest', reads', .inr ⟨Spot.brackets_pos inside, same⟩⟩
      · exact .inr ends'
  · exact .inr (h.ends laws ends)

private theorem Skims.endOfStatement {keep : Lexeme → Bool} {s : Spot}
    {source c c' : Cursor} {d e : Command} (laws : Skippable keep (lexemes source.tokens))
    (h : Skims keep source s c c') (inside : s.around.head? = some .bracket) :
    (skimming keep source).Agree (fun _ _ => True) (Pauses keep source s)
      (Grammar.endOfStatement s.brackets d c) (Grammar.endOfStatement s.brackets e c') := by
  have deep := Spot.brackets_pos inside
  have around : s.around ≠ [] := by
    intro none
    rw [none] at inside
    cases inside
  obtain ⟨before, follows⟩ := h.pauses.behind
  rcases c.view_cases with ⟨t, rest, reads⟩ | ⟨t, here, ends⟩ | ⟨d, here, breaks⟩
  · by_cases separates : t.lexeme.isSeparator = true
    · rw [Grammar.endOfStatement_of_separator reads separates]
      have next := follows.reads reads fun _ => around
      rw [Cursor.Follows.enclose_of_separator separates] at next
      cases kept : keep t.lexeme with
      | true =>
        obtain ⟨t', rest', reads', same, later, fault⟩ := h.reads reads kept
        rw [Grammar.endOfStatement_of_separator reads' (same ▸ separates)]
        exact ⟨trivial, by rw [later], fault, _, next⟩
      | false =>
        have fault : rest.fault = none → c'.fault = none := reads.lexemes.2.2 ▸ h.fault
        obtain ⟨later, stops⟩ := h.stops_of_skipped laws reads kept
        rcases stops with ⟨t', rest', reads', same | same⟩ | ⟨none, _⟩
        · obtain ⟨tokens, _, fault'⟩ := reads'.lexemes
          have separates' : t'.lexeme.isSeparator = true := same ▸ rfl
          rw [Grammar.endOfStatement_of_separator reads' separates']
          refine ⟨trivial, ?_, fault' ▸ fault, _, next⟩
          rw [← later, tokens, List.dropWhile_cons_of_pos separates']
        · rw [Grammar.endOfStatement_of_rightBracket reads' deep same]
          exact ⟨trivial, by rw [later], fault, _, next⟩
        · exact absurd none around
    · obtain ⟨t', rest', reads', same, _⟩ := h.token laws reads (by simpa using separates)
      by_cases closes : t.lexeme = .symbol .rightBracket
      · rw [Grammar.endOfStatement_of_rightBracket reads deep closes,
          Grammar.endOfStatement_of_rightBracket reads' deep (same ▸ closes)]
        exact ⟨trivial, h.pauses⟩
      · rw [Grammar.endOfStatement_of_other reads (by simp [separates, closes]), reject_eq]
        exact Simulation.agree_of_lenient trivial
  · obtain ⟨t', here', ends'⟩ := h.ends laws ends
    have seen := h.look.pauses
    rw [ends.look, ends'.look] at seen
    rw [Grammar.endOfStatement_of_ends ends, Grammar.endOfStatement_of_ends ends']
    exact ⟨trivial, seen⟩
  · rw [Grammar.endOfStatement_of_breaks breaks]
    exact Simulation.agree_of_lenient trivial

private theorem Skims.separator {keep : Lexeme → Bool} {s : Spot}
    {source c c' rest : Cursor} {t : Token} (laws : Skippable keep (lexemes source.tokens))
    (h : Skims keep source s c c') (k : c.Reads t rest) (separates : t.lexeme.isSeparator = true) :
    ∃ t' here', c'.Stops t' here' := by
  cases kept : keep t.lexeme with
  | true =>
    obtain ⟨t', rest', reads', same, _⟩ := h.reads k kept
    exact ⟨t', c', .inl ⟨⟨rest', reads'⟩, .inl (same ▸ separates), rfl⟩⟩
  | false =>
    rcases (h.stops_of_skipped laws k kept).2 with ⟨t', rest', reads', same | same⟩ |
      ⟨_, t', here', ends'⟩
    · exact ⟨t', c', .inl ⟨⟨rest', reads'⟩, .inl (same ▸ rfl), rfl⟩⟩
    · exact ⟨t', c', .inl ⟨⟨rest', reads'⟩, .inr same, rfl⟩⟩
    · exact ⟨t', here', .inr ends'⟩

/-- Line ends that part no commands can be skipped. -/
theorem lawful_skimming {keep : Lexeme → Bool} {source : Cursor}
    (laws : Skippable keep (lexemes source.tokens)) : (skimming keep source).Lawful where
  level := .inl trivial
  bracketed := Spot.brackets_behind_leftBracket
  quoted := Spot.brackets_behind_leftQuote
  outermost := rfl
  column _ := trivial
  token := by
    rintro s c c' rest t (⟨braced, h⟩ | ⟨bare, h⟩) reads other
    · obtain ⟨t', rest', reads', same, later⟩ := h.reads reads
      refine ⟨t', rest', reads', ⟨same, trivial⟩, fun _ => ?_⟩
      unfold Simulation.Behind
      split
      · exact .inl ⟨braced, later⟩
      · exact .inl ⟨braced, later⟩
    · obtain ⟨t', rest', reads', same, pauses, skims⟩ := h.token laws reads other
      refine ⟨t', rest', reads', ⟨same, trivial⟩, fun _ => ?_⟩
      unfold Simulation.Behind
      split
      · next opens => exact .inr ⟨bare, opens ▸ pauses⟩
      · next other => exact .inr ⟨bare, skims other⟩
  separator := by
    rintro s c c' rest t (⟨_, h⟩ | ⟨_, h⟩) reads separates
    · exact synchronous_level.lawful.separator (s := s) h reads separates
    · exact h.separator laws reads separates
  finish := by
    rintro s c c' here t (⟨_, h⟩ | ⟨_, h⟩) ends
    · exact synchronous_level.lawful.finish (s := s) h ends
    · obtain ⟨t', here', ends'⟩ := h.ends laws ends
      exact ⟨t', here', .inr ends'⟩
  broken _ _ := .inl trivial
  look := by
    rintro s c c' (⟨braced, h⟩ | ⟨bare, h⟩)
    · exact .inl ⟨braced, synchronous_level.look (s := s) h⟩
    · exact .inr ⟨bare, h.look⟩
  refuse _ _ _ _ := .inl trivial
  statements := id
  conclude := by
    rintro s c c' (⟨_, h⟩ | ⟨_, h⟩) inside concludes
    · exact synchronous_level.concludes (s := s) h concludes
    · exact h.concludes laws inside concludes
  endOfStatement := by
    rintro s c c' d e (⟨braced, h⟩ | ⟨bare, h⟩) inside name
    · exact ((synchronous_level.endOfStatement (s := s) h name).of_lenient trivial).weaken
        fun _ _ same => .inl ⟨braced, same⟩
    · exact (h.endOfStatement laws inside).weaken fun _ _ same => .inr ⟨bare, same⟩
  resume := by
    rintro s c c' (⟨braced, h⟩ | ⟨bare, h⟩) inside
    · exact .inl ⟨braced, synchronous_level.skipSeparators (s := s) h⟩
    · refine .inr ⟨bare, h.resume laws ?_⟩
      rintro none
      rw [none] at inside
      cases inside
  unclosed := by
    rintro s c c' here t (⟨_, h⟩ | ⟨_, h⟩) inside ends
    · obtain ⟨t', here', ends', _⟩ := h.ends ends
      exact .inr ⟨t', here', ends'⟩
    · exact .inr (h.ends laws ends)
  braces _ _ _ _ _ _ same _ := .inl ⟨rfl, (Cursor.level_ofExpression same.1).withLog _ _⟩
  exhausted := by
    rintro c c' here t (⟨_, h⟩ | ⟨bare, _⟩) ends
    · obtain ⟨t', here', ends', _⟩ := h.ends ends
      exact ⟨t', here', ends'⟩
    · cases bare
  surplus _ _ _ := .inl trivial
  withLog := by
    rintro s c c' inner inner' (⟨braced, h⟩ | ⟨bare, h⟩) _
    · exact .inl ⟨braced, h.withLog _ _⟩
    · exact .inr ⟨bare, h.withLog _ _⟩
  after _ _ := trivial

end TinyTcl
