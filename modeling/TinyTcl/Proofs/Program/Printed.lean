import TinyTcl.Proofs.Program.Braced
import TinyTcl.Proofs.Program.Names
import TinyTcl.Proofs.Program.Precedence
import TinyTcl.Proofs.Token.Braces
import TinyTcl.Proofs.Token.Words

/-! How the decimal form of an integer is read. In an expression, with braces or without, its sign
is an operator of its own (`commands_of_ofInt`, `commands_of_bracedInt`); as a word of a command, the
sign belongs to the number (`commands_of_assignedInt`). -/
namespace TinyTcl

namespace Grammar

variable {e : Expr} {ls : List Lexeme} {c : Cursor}

/-- An expression that is all of a text is read from its flattening. -/
theorem expression_of_flat (flat : e.Flat ls) (normal : e.Normal) (depth : Nat)
    (h : lexemes c.tokens = ls ++ [.symbol .endOfFile]) :
    ∃ e' behind within t here, chain .sum depth c = .ok e' behind within ∧ behind.Ends t here ∧
      e.SameShape e' := by
  obtain ⟨ts, us, tokens, front, last⟩ := List.map_eq_append_iff.mp h
  obtain ⟨t, more, rfl, ending, none⟩ := List.map_eq_cons_iff.mp last
  obtain ⟨e', rest, within, read, alike, left⟩ := (readBack flat normal).sentence depth
    ⟨ts, tokens, front⟩ fun layer => by rw [ending]; cases layer <;> rfl
  exact ⟨e', rest, within, t, _, read, Cursor.ends_of_tokens left ending, alike⟩

/-- So is an `expr` command. -/
theorem commands_of_flat (flat : e.Flat ls) (normal : e.Normal)
    (bare : ∀ ms, ls ≠ .symbol .leftBrace :: ms)
    (h : lexemes c.tokens = .symbol .expr :: (ls ++ [.symbol .endOfFile])) :
    ∃ p e', (program c).commands = .ok [.expr p e'] ∧ e.SameShape e' := by
  obtain ⟨⟨_, p⟩, rest, reads, rfl, later, _⟩ := Cursor.reads_of_lexemes h (by simp)
  obtain ⟨e', behind, within, t, here, read, ends, alike⟩ :=
    expression_of_flat flat normal 0 later
  have formed : formula 0 rest = .ok e' behind within := by
    rw [formula_of_other, read]
    intro q others brace
    have next := later.symm.trans brace.lexemes.1
    cases ls with
    | nil => cases next
    | cons l ms => exact bare ms (congrArg (· :: ms) (List.cons.inj next).1)
  exact ⟨p, e', commands_of_formula reads formed ends, alike⟩

/-- Behind a word of a command a sign and a number are read as one. -/
theorem word_of_ofInt (n : Int) (role : Operand) (depth : Nat)
    (h : lexemes c.tokens = Lexeme.ofInt n ++ ls) :
    ∃ t rest within, word depth role c = .ok (.number (Text.ofInt n) t) rest within ∧
      lexemes rest.tokens = ls := by
  unfold Lexeme.ofInt at h
  unfold Text.ofInt
  split at h
  · next negative =>
    obtain ⟨⟨_, p⟩, next, minus, rfl, later, _⟩ := Cursor.reads_of_lexemes h (by simp)
    obtain ⟨⟨_, q⟩, rest, number, rfl, behind, _⟩ := Cursor.reads_of_lexemes later (by simp)
    obtain ⟨_, _, view⟩ := minus.view
    obtain ⟨_, _, view'⟩ := number.view
    refine ⟨⟨.symbol .minus, p⟩, rest, Nat.lt_trans number.shorter minus.shorter, ?_, behind⟩
    rw [word, view]
    simp only [view']
    rw [if_pos negative]
    rfl
  · next positive =>
    obtain ⟨⟨_, p⟩, rest, number, rfl, behind, _⟩ := Cursor.reads_of_lexemes h (by simp)
    obtain ⟨_, _, view⟩ := number.view
    refine ⟨⟨.number (Text.ofNat n.natAbs), p⟩, rest, number.shorter, ?_, behind⟩
    rw [word, view, if_neg positive]

/-- A `set` command of an integer leaves what stands behind its end. -/
theorem commands_of_set (n : Int) {name : Text} {s : Lexeme} (separates : s.isSeparator = true)
    (h : lexemes c.tokens = .symbol .set :: .ofWord name :: (Lexeme.ofInt n ++ s :: ls)) :
    ∃ p t c', lexemes c'.tokens = ls ∧ ∀ others, (program c').commands = .ok others →
      (program c).commands = .ok (.set p name (.number (Text.ofInt n) t) :: others) := by
  obtain ⟨⟨_, p⟩, rest, reads, rfl, tokens, _⟩ := Cursor.reads_of_lexemes h (by simp)
  obtain ⟨t, behind, target, spelled, tokens, _⟩ :=
    Cursor.reads_of_lexemes tokens (Lexeme.ofWord_ne_symbol rfl name)
  obtain ⟨u, beyond, within, value, tokens⟩ := word_of_ofInt n .assigned 0 tokens
  obtain ⟨v, last, ends, rfl, tokens, _⟩ := Cursor.reads_of_lexemes tokens
    (by rintro rfl; cases separates)
  have names : t.lexeme.namesVariable = true := spelled ▸ Lexeme.namesVariable_ofWord name
  have less := reads.shorter
  have less' := target.shorter
  have less'' := ends.shorter
  let first := Command.set p name (.number (Text.ofInt n) u)
  have read : statement c = .ok first (last.note (.parsed first.name first.position.line))
      (by simp; omega) := by
    rw [statement, command_of_set reads, target_of_reads target names]
    simp only [Reply.andThen, value, Reply.map, endOfStatement_of_separator ends separates, spelled,
      Lexeme.text_ofWord]
    rfl
  exact ⟨p, u, (last.note (.parsed first.name first.position.line)).withLog [], tokens,
    fun _ => commands_of_statement (Cursor.skipSeparators_of_other reads rfl) reads read⟩

end Grammar

/-- The expression that the decimal form of an integer is read as. -/
def Expr.ofInt (n : Int) : Expr :=
  let magnitude : Expr := .number (Text.ofNat n.natAbs) ⟨.number (Text.ofNat n.natAbs), .start⟩
  if n < 0 then .signed .negative .start magnitude else magnitude

private theorem Expr.flat_ofInt (n : Int) :
    (Expr.ofInt n).Flat (Lexeme.ofInt n) ∧ (Expr.ofInt n).Normal := by
  unfold Expr.ofInt Lexeme.ofInt
  split
  · exact ⟨.signed .negative .start (.number _ .start), trivial, rfl⟩
  · exact ⟨.number _ .start, trivial⟩

private theorem Lexeme.ofInt_ne_leftBrace (n : Int) (ls : List Lexeme) :
    Lexeme.ofInt n ≠ .symbol .leftBrace :: ls := by
  unfold Lexeme.ofInt
  split <;> simp

private theorem Balanced.of_plain {t : Text} (plain : ∀ c ∈ t, c ∉ ['\\', '{', '}']) :
    Balanced t := by
  induction t with
  | nil => exact .nil
  | cons c rest ih =>
    have first := plain c List.mem_cons_self
    simp only [List.mem_cons, List.not_mem_nil, not_or, or_false] at first
    have others := ih fun d inside => plain d (List.mem_cons_of_mem _ inside)
    exact .plain first.1 first.2.1 first.2.2 others

private theorem Text.balanced_ofInt (n : Int) : Balanced (Text.ofInt n) := by
  have magnitude : ∀ c ∈ Text.ofNat n.natAbs, c ∉ ['\\', '{', '}'] := by
    intro c inside
    obtain ⟨m, rfl⟩ := Text.exists_digit_of_mem_ofNat inside
    exact Text.digit_cases (P := fun _ c => c ∉ ['\\', '{', '}']) (by decide) m
  unfold Text.ofInt
  split
  · exact .plain (by decide) (by decide) (by decide) (.of_plain magnitude)
  · exact .of_plain magnitude

section Scripts

variable (n : Int) (start : Position)

/-- The decimal form of an integer is an expression. -/
theorem Grammar.commands_of_ofInt :
    ∃ p e, (program (.ofText ("expr ".toList ++ Text.ofInt n) start)).commands = .ok [.expr p e] ∧
      (Expr.ofInt n).SameShape e := by
  obtain ⟨flat, normal⟩ := Expr.flat_ofInt n
  have cut : Text.Cuts ("expr ".toList ++ Text.ofInt n) (.symbol .expr :: Lexeme.ofInt n) [] :=
    .append (.keyword (s := .expr) rfl) (.ofInt n Text.endsWord_nil)
  exact commands_of_flat flat normal (Lexeme.ofInt_ne_leftBrace n) (cut.lexemes_ofText start)

/-- So it is in braces. -/
theorem Grammar.commands_of_bracedInt :
    ∃ p e, (program (.ofText ("expr \x7b".toList ++ Text.ofInt n ++ ['}']) start)).commands =
      .ok [.expr p e] ∧ (Expr.ofInt n).SameShape e := by
  obtain ⟨flat, normal⟩ := Expr.flat_ofInt n
  refine commands_of_braced start (Expr.ofInt n).SameShape
    (balanced_iff.mp (Text.balanced_ofInt n)) fun q log => expression_of_flat flat normal 0 ?_
  have cut : Text.Cuts (Text.ofInt n) (Lexeme.ofInt n) [] := .ofInt n Text.endsWord_nil
  refine (lexemes_joinLines _).trans ?_
  rw [cut.lexemes_ofText q]
  unfold Lexeme.ofInt
  split <;> rfl

/-- Set to a variable, the decimal form of an integer is a text. -/
theorem Grammar.commands_of_assignedInt {name : Text} (bare : BareWord name) {separator : Char}
    (separates : separator = ';' ∨ separator = '\n') :
    ∃ p t q r, (program (.ofText ("set ".toList ++ name ++ ' ' :: Text.ofInt n ++
        separator :: ("expr $".toList ++ name)) start)).commands =
      .ok [.set p name (.number (Text.ofInt n) t), .expr q (.reference name r)] := by
  obtain ⟨s, isSeparator, ends, part⟩ : ∃ s : Lexeme, s.isSeparator = true ∧ EndsWord separator ∧
      ∀ rest, Text.Cuts [separator] [s] rest := by
    rcases separates with rfl | rfl
    · exact ⟨.symbol .semicolon, rfl, endsWord_semicolon, fun _ => .semicolon⟩
    · exact ⟨.symbol .endOfLine, rfl, endsWord_lineEnd, fun _ => .lineEnd⟩
  have second : Text.Cuts ("expr $".toList ++ name)
      [.symbol .expr, .symbol .dollar, .name name] [] :=
    .append (.keyword (s := .expr) rfl) (.dollar bare)
  have value : Text.Cuts (' ' :: Text.ofInt n) (Lexeme.ofInt n)
      (separator :: ("expr $".toList ++ name) ++ []) :=
    .append .blank (.ofInt n (Text.endsWord_cons ends _))
  have target : Text.Cuts ("set ".toList ++ name) [.symbol .set, .ofWord name]
      (' ' :: Text.ofInt n ++ (separator :: ("expr $".toList ++ name) ++ [])) :=
    .append (.keyword (s := .set) rfl) (.word bare (Text.endsWord_cons endsWord_blank _))
  have cut := (target.append value).append ((part _).append second)
  have whole : lexemes (Cursor.ofText ("set ".toList ++ name ++ ' ' :: Text.ofInt n ++
        separator :: ("expr $".toList ++ name)) start).tokens =
      .symbol .set :: .ofWord name :: (Lexeme.ofInt n ++ s ::
        .symbol .expr :: ([.symbol .dollar, .name name] ++ [.symbol .endOfFile])) :=
    (cut.lexemes_ofText start).trans (by simp)
  obtain ⟨p, t, c, tokens, first⟩ := commands_of_set n isSeparator whole
  obtain ⟨q, e, read, alike⟩ := commands_of_flat (.reference name .start) trivial (by simp) tokens
  cases alike with
  | @reference _ _ r => exact ⟨p, t, q, r, first _ read⟩

end Scripts

end TinyTcl
