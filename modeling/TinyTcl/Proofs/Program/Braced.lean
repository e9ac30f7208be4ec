import TinyTcl.Program.Reader
import TinyTcl.Proofs.Program.Skimming
import TinyTcl.Proofs.Token.Setting

/-! Braced and unbraced expressions. An expression in braces is a text of its own, in which ends of
lines do not count. It reads as it does without braces unless it needs its line ends to part commands
(`Unbroken`), or is followed by a semicolon. -/
namespace TinyTcl

/-- Lexemes in which semicolons stand only in brackets, and in brackets no two commands are parted by
ends of lines alone. -/
structure Unbroken (ls : List Lexeme) : Prop where
  semicolons : ∀ before after, ls = before ++ .symbol .semicolon :: after → enclosing [] before ≠ []
  lineEnds : ∀ before l after, ls = before ++ l :: .symbol .endOfLine :: after →
    enclosing [] (before ++ [l]) ≠ [] → l ≠ .symbol .leftBracket → l.isSeparator = false →
    ∃ next rest, after.filter (· != .symbol .endOfLine) = next :: rest ∧ next.EndsCommand

/-- Whether a lexeme between these delimiters may stand as it does in front of others: no semicolon
stands outside of brackets, and no end of line behind it parts two commands in brackets. -/
def Lexeme.isUnbroken (l : Lexeme) (around : List Delimiter) (after : List Lexeme) : Bool :=
  (l != .symbol .semicolon || !around.isEmpty) &&
    match after with
    | .symbol .endOfLine :: after =>
      (l.enclose around).isEmpty || l == .symbol .leftBracket || l.isSeparator ||
        match after.filter (· != .symbol .endOfLine) with
        | next :: _ => next == .symbol .semicolon || next == .symbol .rightBracket
        | [] => false
    | _ => true

private theorem Lexeme.isUnbroken_iff {l : Lexeme} {around : List Delimiter} {after : List Lexeme} :
    l.isUnbroken around after = true ↔ (l = .symbol .semicolon → around ≠ []) ∧
      ∀ later, after = .symbol .endOfLine :: later → l.enclose around ≠ [] →
        l ≠ .symbol .leftBracket → l.isSeparator = false →
        ∃ next rest, later.filter (· != .symbol .endOfLine) = next :: rest ∧ next.EndsCommand := by
  unfold isUnbroken
  rw [Bool.and_eq_true]
  refine and_congr (by simp [Decidable.imp_iff_not_or]) ?_
  split
  · next after =>
    simp only [List.cons.injEq, true_and, forall_eq']
    cases after.filter (· != .symbol .endOfLine) with
    | nil => simp [Decidable.imp_iff_not_or, or_assoc]
    | cons next rest => simp [Decidable.imp_iff_not_or, or_assoc, EndsCommand]
  · next other => exact ⟨fun _ later same => absurd same (other later), fun _ => rfl⟩

/-- Whether all lexemes, of which the first stands between these delimiters, may stand so. -/
def isUnbroken (around : List Delimiter) : List Lexeme → Bool
  | [] => true
  | l :: after => l.isUnbroken around after && isUnbroken (l.enclose around) after

private theorem isUnbroken_iff {around : List Delimiter} {ls : List Lexeme} :
    isUnbroken around ls = true ↔
    ∀ before l after, ls = before ++ l :: after →
      l.isUnbroken (enclosing around before) after = true := by
  induction ls generalizing around with
  | nil => simp [isUnbroken]
  | cons first rest ih =>
    rw [isUnbroken, Bool.and_eq_true, ih]
    constructor
    · rintro ⟨here, later⟩ (_ | ⟨_, before⟩) l after same
      · cases same
        exact here
      · cases same
        exact later before l after rfl
    · intro all
      exact ⟨all [] first rest rfl,
        fun before l after same => all (first :: before) l after (same ▸ rfl)⟩

theorem unbroken_iff {ls : List Lexeme} : Unbroken ls ↔ isUnbroken [] ls = true := by
  simp only [isUnbroken_iff, Lexeme.isUnbroken_iff]
  constructor
  · rintro ⟨semicolons, lineEnds⟩ before l after same
    refine ⟨?_, ?_⟩
    · rintro rfl
      exact semicolons before after same
    · rintro later rfl inside
      exact lineEnds before l later same (by rwa [enclosing_append])
  · intro all
    refine ⟨fun before after same => (all before _ after same).1 rfl, ?_⟩
    intro before l after same inside
    rw [enclosing_append] at inside
    exact (all before l _ same).2 after rfl inside

instance (ls : List Lexeme) : Decidable (Unbroken ls) := decidable_of_iff' _ unbroken_iff

/-- Nothing but separators is left at a cursor. -/
def Cursor.Spent (c : Cursor) : Prop :=
  (∃ ls, (lexemes c.tokens).dropWhile Lexeme.isSeparator = .symbol .endOfFile :: ls) ∨
    (lexemes c.tokens).dropWhile Lexeme.isSeparator = [] ∧ c.fault = none

private theorem Cursor.spent_of_ends {c here : Cursor} {t : Token}
    (h : c.skipSeparators.Ends t here) :
    c.Spent := by
  rcases h.lexemes.1 with ⟨ls, tokens⟩ | ⟨tokens, sound⟩
  · rw [lexemes_skipSeparators] at tokens
    exact .inl ⟨ls, tokens⟩
  · rw [lexemes_skipSeparators] at tokens
    rw [fault_skipSeparators] at sound
    exact .inr ⟨tokens, sound⟩

namespace Grammar

/-- What follows a statement is spent only if all behind its command is. -/
theorem spent_of_endOfStatement {c rest : Cursor} {first : Command}
    {within : rest.workload < c.workload + 1} (h : endOfStatement 0 first c = .ok () rest within)
    (spent : rest.Spent) : c.Spent := by
  rcases c.view_cases with ⟨t, behind, reads⟩ | ⟨t, here, ends⟩ | ⟨d, here, breaks⟩
  · by_cases separates : t.lexeme.isSeparator = true
    · rw [endOfStatement_of_separator reads separates] at h
      cases h
      obtain ⟨tokens, _, fault⟩ := reads.lexemes
      unfold Cursor.Spent
      rwa [tokens, List.dropWhile_cons_of_pos separates, ← fault]
    · rw [endOfStatement_of_other reads (by simp [separates])] at h
      exact absurd h not_reject
  · rw [endOfStatement_of_ends ends] at h
    cases h
    obtain ⟨_, tokens, fault⟩ := ends.lexemes
    unfold Cursor.Spent
    rwa [← tokens, ← fault]
  · rw [endOfStatement_of_breaks breaks] at h
    cases h

/-- What an `expr` command needs to be all of a script. -/
theorem formula_of_commands {c rest : Cursor} {p : Position} {first : Command}
    (reads : c.Reads ⟨.symbol .expr, p⟩ rest) (h : (program c).commands = .ok [first]) :
    ∃ e behind within, formula 0 rest = .ok e behind within ∧ first = .expr p e ∧
      behind.Spent := by
  obtain ⟨after, _, read, later⟩ :=
    statement_of_commands_cons (Cursor.skipSeparators_of_other reads rfl) h
  obtain ⟨t, here, ends⟩ := ends_of_commands_nil later
  rw [statement, command_of_expr reads] at read
  obtain ⟨d, behind, _, mapped, last⟩ := Reply.andThen_eq_ok.mp read
  obtain ⟨e, within, inner, rfl⟩ := Reply.map_eq_ok.mp mapped
  obtain ⟨_, beyond, _, ended, noted⟩ := Reply.andThen_eq_ok.mp last
  cases noted
  have spent := Cursor.spent_of_ends ends
  exact ⟨e, behind, within, inner, rfl, spent_of_endOfStatement ended spent⟩

theorem commands_of_formula {c rest behind here : Cursor} {p : Position} {t : Token} {e : Expr}
    {within : behind.workload < rest.workload} (reads : c.Reads ⟨.symbol .expr, p⟩ rest)
    (h : formula 0 rest = .ok e behind within) (ends : behind.Ends t here) :
    (program c).commands = .ok [.expr p e] := by
  refine commands_of_command reads rfl (Nat.lt_trans within reads.shorter) ?_ ends
  rw [command_of_expr reads, h]
  rfl

end Grammar

/-- An `expr` command is cut into its name and the text behind it. -/
theorem scan_expr (t : Text) : Scanned.ofText ("expr ".toList ++ t) =
    (scan [] false 5 t).behind [.token (.symbol .expr) "expr".toList, .gap [' ']] :=
  scan_keyword (s := .expr) rfl t

/-- A block is cut into its braces and its body. -/
theorem scan_block {t rest : Text} {fresh : Bool} {place : Nat} {body : Text}
    (h : Span.body 0 t = some (body, rest)) : scan [] fresh place ('{' :: t) =
      (scan [] false (place + (body.length + 2)) rest).behind
        [.token (.symbol .leftBrace) ['{'], .token (.name body) body,
          .token (.symbol .rightBrace) ['}']] := by
  have step : Scan.step [] fresh place '{' t =
      .read [.token (.symbol .leftBrace) ['{'], .token (.name body) body,
        .token (.symbol .rightBrace) ['}']] [] false rest := by
    simp [Scan.step, Scan.scriptStep, isSpacing, h]
  rw [scan_of_read step]
  congr 2
  simp

private theorem skippable_all (ls : List Lexeme) : Skippable (fun _ => true) ls := by
  refine ⟨?_, ?_, ?_⟩ <;> intros <;> contradiction

private theorem Cursor.follows_self (c : Cursor) : c.Follows c [] [] := by
  refine ⟨rfl, rfl, rfl, ?_⟩
  intro before after l same
  simp at same

/-- A formula is read without the separators behind it. -/
theorem follows_of_formula {c behind : Cursor} {e : Expr} {within : behind.workload < c.workload}
    (h : Grammar.formula 0 c = .ok e behind within) : ∃ before, behind.Follows c before [] := by
  have start : (skimming (fun _ => true) c).At (.start false) c c := by
    refine .inr ⟨rfl, (List.filter_eq_self.mpr fun _ _ => rfl).symm, id, [], c.follows_self,
      .inl fun front l same => ?_⟩
    simp at same
  have agree := (lawful_skimming (skippable_all _)).formula start
  change (skimming _ c).Agree _ _ (Grammar.formula 0 c) (Grammar.formula 0 c) at agree
  rw [h] at agree
  obtain ⟨_, ⟨wrong, _⟩ | ⟨_, skims⟩⟩ := agree
  · cases wrong
  · obtain ⟨before, follows, _⟩ := skims.behind
    exact ⟨before, follows⟩

private theorem enclosing_of_separators {around : List Delimiter} {ls : List Lexeme}
    (h : ∀ l ∈ ls, l.isSeparator = true) : enclosing around ls = around := by
  induction ls with
  | nil => rfl
  | cons l rest ih =>
    rw [enclosing_cons, Cursor.Follows.enclose_of_separator (h l List.mem_cons_self)]
    exact ih fun m inside => h m (List.mem_cons_of_mem _ inside)

section Rest

variable {c behind : Cursor} {before front : List Lexeme} (unbroken : Unbroken (lexemes c.tokens))
  (whole : lexemes c.tokens = front ++ [.symbol .endOfFile]) (text : .symbol .endOfFile ∉ front)
  (follows : behind.Follows c before []) (spent : behind.Spent)

include unbroken whole text follows spent

/-- Behind an expression that is all of a script, only line ends are left. -/
theorem lexemes_of_spent : lexemes behind.tokens = [] ∨
    ∃ run, lexemes behind.tokens = run ++ [.symbol .endOfFile] ∧
      ∀ l ∈ run, l = .symbol .endOfLine := by
  have split : (lexemes behind.tokens).takeWhile Lexeme.isSeparator ++
      (lexemes behind.tokens).dropWhile Lexeme.isSeparator = lexemes behind.tokens :=
    List.takeWhile_append_dropWhile
  have separators : ∀ l ∈ (lexemes behind.tokens).takeWhile Lexeme.isSeparator,
      l.isSeparator = true := List.all_eq_true.mp List.all_takeWhile
  generalize (lexemes behind.tokens).takeWhile Lexeme.isSeparator = run at split separators
  have tokens := follows.tokens
  rw [← split, whole] at tokens
  rcases spent with ⟨ls, last⟩ | ⟨none, _⟩
  · right
    rw [last] at split tokens
    rw [← List.append_assoc] at tokens
    rcases eq_append_of_concat_eq tokens with ⟨rfl, _, _⟩ | ⟨_, rfl, _⟩
    · refine ⟨run, split.symm, fun l inside => ?_⟩
      rcases Lexeme.isSeparator_iff.mp (separators l inside) with rfl | lineEnd
      · obtain ⟨r, r', rfl⟩ := List.append_of_mem inside
        have closed : enclosing [] (before ++ r) = [] := by
          rw [enclosing_append, follows.around]
          exact enclosing_of_separators fun m inside =>
            separators m (List.mem_append_left _ inside)
        refine absurd closed (unbroken.semicolons _ (r' ++ [.symbol .endOfFile]) ?_)
        rw [follows.tokens, ← split]
        simp
      · exact lineEnd
    · exact absurd (List.mem_append_right _ List.mem_cons_self) text
  · left
    rw [none, List.append_nil] at split tokens
    rcases List.eq_nil_or_concat run with rfl | ⟨r, l, rfl⟩
    · exact split.symm
    · rw [List.concat_eq_append, ← List.append_assoc] at tokens
      obtain ⟨_, same⟩ := List.append_inj' tokens rfl
      cases same
      have wrong := separators (.symbol .endOfFile) (by simp)
      cases wrong

/-- The line ends of an expression that is all of a script can be skipped if they part no commands
in brackets. -/
theorem skippable_lineEnds : Skippable (· != .symbol .endOfLine) (lexemes c.tokens) where
  lineEnd skipped := by simpa using skipped
  inside {b after l m} same skipped open_ bracket word := by
    obtain rfl : m = .symbol .endOfLine := by simpa using skipped
    exact unbroken.lineEnds _ _ _ same open_ bracket word
  outside {b after l} same skipped closed := by
    obtain rfl : l = .symbol .endOfLine := by simpa using skipped
    have later (x : List Lexeme) (left : lexemes behind.tokens = x ++ .symbol .endOfLine :: after) :
        ∃ rest, after.filter (· != .symbol .endOfLine) = .symbol .endOfFile :: rest := by
      rcases lexemes_of_spent unbroken whole text follows spent with none | ⟨run, tokens, lines⟩
      · rw [none] at left
        simp at left
      · rw [tokens] at left
        rcases eq_append_of_concat_eq left with ⟨_, _, wrong⟩ | ⟨others, rfl, rfl⟩
        · cases wrong
        · refine ⟨[], ?_⟩
          have gone : others.filter (· != .symbol .endOfLine) = [] := by
            apply List.filter_eq_nil_iff.mpr
            intro l inside
            simp [lines l (by simp [inside])]
          rw [List.filter_append, gone]
          rfl
    rcases List.append_eq_append_iff.mp (same.symm.trans follows.tokens) with ⟨x, rfl, left⟩ |
      ⟨x, rfl, left⟩
    · cases x with
      | nil => exact later [] left.symm
      | cons first x =>
        cases left
        exact absurd closed (follows.separators rfl rfl)
    · exact later x left

/-- Without its line ends the text of the expression is the same expression. -/
theorem expression_of_formula {c' : Cursor} {e : Expr} {within : behind.workload < c.workload}
    (h : Grammar.formula 0 c = .ok e behind within)
    (bare : ∀ ls, lexemes c.tokens ≠ .symbol .leftBrace :: ls)
    (skims : lexemes c'.tokens = (lexemes c.tokens).filter (· != .symbol .endOfLine))
    (sound : c.fault = none) (sound' : c'.fault = none) :
    ∃ e' behind' within' t here, Grammar.chain .sum 0 c' = .ok e' behind' within' ∧
      behind'.Ends t here ∧ e.SameShape e' := by
  rw [Grammar.formula_of_other fun p rest brace => bare _ brace.lexemes.1] at h
  have laws := skippable_lineEnds unbroken whole text follows spent
  have start : (skimming (· != .symbol .endOfLine) c).At (.start false) c c' := by
    refine .inr ⟨rfl, skims, fun _ => sound', [], c.follows_self, .inl fun front l same => ?_⟩
    simp at same
  have agree := (lawful_skimming laws).chain .sum start
  change (skimming _ c).Agree _ _ (Grammar.chain .sum 0 c) (Grammar.expression 0 c') at agree
  rw [h] at agree
  obtain ⟨e', behind', within', read, alike, ⟨wrong, _⟩ | ⟨_, left⟩⟩ := agree.of_ok
  · cases wrong
  have none := left.fault (follows.fault.trans sound)
  have tokens := left.tokens
  rcases lexemes_of_spent unbroken whole text follows spent with same | ⟨run, same, lines⟩
  · rw [same, List.filter_nil] at tokens
    have ends := Cursor.ends_of_nil (List.map_eq_nil_iff.mp tokens) none
    exact ⟨e', behind', within', _, _, read, ends, alike⟩
  · have gone : run.filter (· != .symbol .endOfLine) = [] :=
      List.filter_eq_nil_iff.mpr fun l inside => by simp [lines l inside]
    rw [same, List.filter_append, gone] at tokens
    obtain ⟨t, ends⟩ := Cursor.ends_of_lexemes tokens
    exact ⟨e', behind', within', t, _, read, ends, alike⟩

end Rest

/-- Behind the name of an `expr` command its text is read. -/
theorem reads_expr (t : Text) (start : Position) :
    ∃ p rest, (Cursor.ofText ("expr ".toList ++ t) start).Reads ⟨.symbol .expr, p⟩ rest ∧
      lexemes rest.tokens = Piece.lexemes (scan [] false 5 t).pieces ++
        (if (scan [] false 5 t).stopped = none then [.symbol .endOfFile] else []) ∧
      (rest.fault = none ↔ (scan [] false 5 t).stopped = none) :=
  Cursor.reads_keyword (s := .expr) rfl t start

namespace Grammar

/-- An `expr` command with a braced text reads what can be read between the braces. -/
theorem commands_of_braced {text : Text} (start : Position) (P : Expr → Prop)
    (balanced : Span.body 0 (text ++ ['}']) = some (text, []))
    (read : ∀ q log, ∃ e behind within t here,
      chain .sum 0 ((Cursor.ofExpression ⟨text, q⟩).withLog log) = .ok e behind within ∧
        behind.Ends t here ∧ P e) :
    ∃ p e, (program (.ofText ("expr \x7b".toList ++ text ++ ['}']) start)).commands =
      .ok [.expr p e] ∧ P e := by
  have spelled : "expr \x7b".toList ++ text ++ ['}'] = "expr ".toList ++ '{' :: (text ++ ['}']) := by
    simp
  have nothing (place : Nat) : scan [] false place [] = ⟨[], none⟩ := by simp [scan]
  obtain ⟨p, rest, name, tokens, _⟩ := reads_expr ('{' :: (text ++ ['}'])) start
  rw [scan_block balanced, nothing] at tokens
  obtain ⟨⟨_, o⟩, inside, brace, rfl, tokens, _⟩ := Cursor.reads_of_lexemes tokens (by simp)
  obtain ⟨⟨_, q⟩, ahead, body, rfl, tokens, _⟩ := Cursor.reads_of_lexemes tokens (by simp)
  obtain ⟨⟨_, r⟩, beyond, closes, rfl, tokens, _⟩ := Cursor.reads_of_lexemes tokens (by simp)
  obtain ⟨room, within, blocked⟩ := block_of_name 0 o body closes
  obtain ⟨e, behind, _, t, here, inner, ends, property⟩ := read q beyond.log
  have formed : formula 0 rest = .ok e (beyond.withLog here.log)
      (Nat.lt_trans within brace.shorter) := by
    rw [formula_of_brace brace, blocked]
    simp only [Reply.andThen, inner, closing_of_ends ends]
  have last : lexemes (beyond.withLog here.log).tokens = [.symbol .endOfFile] := tokens
  obtain ⟨u, ended⟩ := Cursor.ends_of_lexemes last
  exact ⟨p, e, spelled ▸ commands_of_formula name formed ended, property⟩

end Grammar

/-- Whether an `expr` command is all of a script. -/
def Reader.isExpression (r : Reader) : Bool :=
  match r.commands with
  | .ok [.expr _ _] => true
  | _ => false

private theorem Reader.isExpression_iff {r : Reader} :
    r.isExpression = true ↔ ∃ p e, r.commands = .ok [.expr p e] := by
  unfold isExpression
  constructor
  · intro h
    split at h
    · next p e same => exact ⟨p, e, same⟩
    · cases h
  · rintro ⟨p, e, same⟩
    rw [same]

/-- **Braces do not change an expression.** An `expr` command that is all of a script, and whose text
can stand in braces, is the same command with braces around its text. -/
theorem braced_expression {text : Text} {filename : Option Text} {start p : Position} {e : Expr}
    (plain : (Reader.ofText ("expr ".toList ++ text) filename start).commands = .ok [.expr p e])
    (balanced : Span.body 0 (text ++ ['}']) = some (text, []))
    (bare : ∀ ls, lexemes (TokenStream.ofText text start).tokens ≠ .symbol .leftBrace :: ls)
    (unbroken : Unbroken (lexemes (TokenStream.ofText text start).tokens)) :
    ∃ p' e', (Reader.ofText ("expr \x7b".toList ++ text ++ ['}']) filename start).commands =
      .ok [.expr p' e'] ∧ e.SameShape e' := by
  have sound := Reader.commands_eq_ok.mp plain
  obtain ⟨q, rest, reads, tokens, fault⟩ := reads_expr text start
  obtain ⟨_, behind, within, formed, same, spent⟩ := Grammar.formula_of_commands reads sound
  cases same
  obtain ⟨before, follows⟩ := follows_of_formula formed
  have reached : (scan [] false 5 text).stopped = none := by
    rcases spent with ⟨ls, last⟩ | ⟨_, sound⟩
    · have inside : .symbol .endOfFile ∈ lexemes rest.tokens := by
        rw [follows.tokens]
        refine List.mem_append_right _ ((List.dropWhile_sublist Lexeme.isSeparator).subset ?_)
        rw [last]
        exact List.mem_cons_self
      rw [tokens] at inside
      rcases List.mem_append.mp inside with inside | inside
      · refine absurd ?_ (endOfFile_not_mem_lexemes ("expr ".toList ++ text))
        rw [scan_expr]
        exact List.mem_cons_of_mem _ inside
      · split at inside
        · assumption
        · cases inside
    · exact fault.mp (follows.fault ▸ sound)
  obtain ⟨reached', pieces⟩ : (Scanned.ofText text).stopped = none ∧
      (Scanned.ofText text).pieces = (scan [] false 5 text).pieces :=
    scan_elsewhere rfl (fun _ => rfl) reached
  have whole : lexemes rest.tokens = Piece.lexemes (Scanned.ofText text).pieces ++
      [.symbol .endOfFile] := by
    rw [tokens, reached, ← pieces]
    rfl
  have stream (q : Position) : lexemes (TokenStream.ofText text q).tokens = lexemes rest.tokens := by
    rw [lexemes_ofText, whole, if_pos reached']
  rw [stream] at bare unbroken
  obtain ⟨p', e', braced, same⟩ := Grammar.commands_of_braced start e.SameShape balanced
    fun q log => by
      have skims : lexemes ((Cursor.ofExpression ⟨text, q⟩).withLog log).tokens =
          (lexemes rest.tokens).filter (· != .symbol .endOfLine) :=
        (lexemes_joinLines _).trans (by rw [stream])
      exact expression_of_formula unbroken whole (endOfFile_not_mem_lexemes text) follows spent
        formed bare skims (fault.mpr reached) ((fault_ofText text q).mpr reached')
  exact ⟨p', e', Reader.commands_eq_ok.mpr braced, same⟩

/-- Line ends behind a semicolon and in front of a closing bracket. -/
theorem braced_expression_lines :
    ∃ p e p' e', (Reader.ofText "expr [f;\ng\n]".toList none .start).commands = .ok [.expr p e] ∧
      (Reader.ofText "expr \x7b[f;\ng\n]\x7d".toList none .start).commands = .ok [.expr p' e'] ∧
      e.SameShape e' := by
  have tokens : lexemes (TokenStream.ofText "[f;\ng\n]".toList .start).tokens =
      [.symbol .leftBracket, .name ['f'], .symbol .semicolon, .symbol .endOfLine, .name ['g'],
        .symbol .endOfLine, .symbol .rightBracket, .symbol .endOfFile] := by
    decide +kernel
  have unbroken : Unbroken (lexemes (TokenStream.ofText "[f;\ng\n]".toList .start).tokens) := by
    rw [tokens]
    decide
  have read : (Reader.ofText ("expr ".toList ++ "[f;\ng\n]".toList) none .start).isExpression =
      true := by
    decide +kernel
  obtain ⟨p, e, plain⟩ := Reader.isExpression_iff.mp read
  have bare : ∀ ls, lexemes (TokenStream.ofText "[f;\ng\n]".toList .start).tokens ≠
      .symbol .leftBrace :: ls := by
    intro ls same
    rw [tokens] at same
    cases same
  obtain ⟨p', e', braced, same⟩ := braced_expression plain (by decide +kernel) bare unbroken
  exact ⟨p, e, p', e', plain, braced, same⟩

/-- A text that can stand in braces, and is an expression only without them. -/
def BracesMatter (text : Text) : Prop :=
  (∃ p e, (Reader.ofText ("expr ".toList ++ text) none .start).commands = .ok [.expr p e]) ∧
  Span.body 0 (text ++ ['}']) = some (text, []) ∧ (text.dropWhile isSpacing).head? ≠ some '{' ∧
  ∀ p e, (Reader.ofText ("expr \x7b".toList ++ text ++ ['}']) none .start).commands ≠
    .ok [.expr p e]

private theorem bracesMatter_iff {text : Text} : BracesMatter text ↔
    (Reader.ofText ("expr ".toList ++ text) none .start).isExpression = true ∧
    Span.body 0 (text ++ ['}']) = some (text, []) ∧ (text.dropWhile isSpacing).head? ≠ some '{' ∧
    (Reader.ofText ("expr \x7b".toList ++ text ++ ['}']) none .start).isExpression = false := by
  unfold BracesMatter
  rw [Reader.isExpression_iff, ← Bool.not_eq_true, Reader.isExpression_iff]
  simp

/-- A semicolon behind an expression, a line end that parts two commands, and a brace in the second
line of a text make a difference. -/
theorem braced_expression_differs : BracesMatter "1;".toList ∧
    BracesMatter "[set a 1\nset b 2]".toList ∧ BracesMatter "\\\n\x7b1\x7d".toList := by
  rw [bracesMatter_iff, bracesMatter_iff, bracesMatter_iff]
  decide +kernel

end TinyTcl
