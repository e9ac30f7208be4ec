import TinyTcl.Proofs.Program.WholeText

/-! Parsing keeps every token. The commands of a text, written out again, are the tokens of the text
in their order, but for what ends statements and for the braces of expressions, which are seen
through: `commands_spell_tokens`. What is written out depends on the commands alone
(`Command.write`), what is compared with it on the tokens alone (`spread`). What an operand reads
from its text is written from that text; the token it keeps only tells a name from a symbol or a
text in braces, which may have the same characters. -/
namespace TinyTcl

/-! ### Writing commands out -/

/-- The symbol with a given text. -/
def Symbol.ofText? (t : Text) : Option Symbol := Symbol.all.find? fun s => s.text == t

/-- The lexemes of a text that begins with a sign: the sign and the number behind it. -/
def writeSigned : Text → List Lexeme
  | '+' :: digits => [.symbol .plus, .number digits]
  | '-' :: digits => [.symbol .minus, .number digits]
  | digits => [.number digits]

/-- The lexeme of a text that is a symbol. -/
def writeSymbol (t : Text) : List Lexeme :=
  match Symbol.ofText? t with
  | some s => [.symbol s]
  | none => [.name t]

private theorem writeSigned_append (sign : Sign) (digits : Text) :
    writeSigned (sign.symbol.text ++ digits) = [.symbol sign.symbol, .number digits] := by
  cases sign <;> rfl

/-- The text of a symbol that is a word tells the symbol. -/
theorem writeSymbol_text {s : Symbol} (plain : s.isWord = true ∨ s = .plus ∨ s = .minus) :
    writeSymbol s.text = [.symbol s] := by
  rcases plain with word | rfl | rfl
  · cases s <;> first | rfl | cases word
  · rfl
  · rfl

mutual

/-- The lexemes that an operand is written with. The token of a number is a symbol if its text has a
sign; that of a word is the opening brace of a text in braces, or another symbol if its text is that
symbol's. -/
def Expr.write : Expr → List Lexeme
  | .number text token =>
    match token.lexeme with
    | .symbol _ => writeSigned text
    | _ => [.number text]
  | .word text token =>
    match token.lexeme with
    | .symbol .leftBrace => [.symbol .leftBrace, .name text, .symbol .rightBrace]
    | .symbol _ => writeSymbol text
    | _ => [.name text]
  | .reference name _ => [.symbol .dollar, .name name]
  | .quoted parts _ => .symbol .leftQuote :: (Expr.writeAll parts ++ [.symbol .rightQuote])
  | .substitution commands _ =>
    .symbol .leftBracket :: (Command.writeAll commands ++ [.symbol .rightBracket])
  | .signed sign _ operand => .symbol sign.symbol :: operand.write
  | .binary left operator _ right => left.write ++ .symbol operator.symbol :: right.write
  | .group inner => .symbol .leftParen :: (inner.write ++ [.symbol .rightParen])

/-- The lexemes that several operands are written with. -/
def Expr.writeAll : List Expr → List Lexeme
  | [] => []
  | first :: rest => first.write ++ Expr.writeAll rest

/-- The lexemes that a command is written with. -/
def Command.write : Command → List Lexeme
  | .set _ target value => .symbol .set :: .ofWord target :: value.write
  | .unset _ target => [.symbol .unset, .ofWord target]
  | .puts _ value => .symbol .puts :: value.write
  | .expr _ operand => .symbol .expr :: operand.write
  | .block _ body _ => [.symbol .leftBrace, .name body.text, .symbol .rightBrace]
  | .invoke _ name arguments => .name name :: Expr.writeAll arguments

/-- The lexemes that several commands are written with. -/
def Command.writeAll : List Command → List Lexeme
  | [] => []
  | first :: rest => first.write ++ Command.writeAll rest

end

/-! ### Seeing through braces -/

/-- A text in braces at the start of some tokens, and the tokens behind it. -/
def braced? : List Token → Option (Block × List Token)
  | ⟨.symbol .leftBrace, _⟩ :: ⟨.name body, p⟩ :: ⟨.symbol .rightBrace, _⟩ :: rest =>
    some (⟨body, p⟩, rest)
  | _ => none

private theorem workload_of_braced? {tokens rest : List Token} {body : Block}
    (h : braced? tokens = some (body, rest)) :
    (Cursor.ofExpression body).workload + workload rest < workload tokens := by
  have inner := Cursor.workload_ofExpression_le body
  unfold braced? at h
  split at h
  · cases h
    simp only [workload, blockRoom, bodyRoom, if_true, reduceCtorEq, if_false]
    dsimp only at inner
    omega
  · cases h

private theorem braced?_eq_none {t : Token} {rest : List Token}
    (other : t.lexeme ≠ .symbol .leftBrace) :
    braced? (t :: rest) = none := by
  unfold braced?
  split
  · next same =>
    rw [(List.cons.inj same).1] at other
    exact absurd rfl other
  · rfl

/-- The lexemes of some tokens without separators and the end of file, where instead of the braces
behind `expr` the lexemes of the text between them stand. `fresh` says whether a command begins. -/
def spread (fresh : Bool) : List Token → List Lexeme
  | [] => []
  | t :: rest =>
    if t.lexeme.isSeparator then spread true rest
    else if t.lexeme = .symbol .endOfFile then spread fresh rest
    else if fresh ∧ t.lexeme = .symbol .expr then
      match _h : braced? rest with
      | some (body, behind) =>
        .symbol .expr ::
          (spread false (TokenStream.ofText body.text body.position).joinLines.tokens ++
            spread false behind)
      | none => .symbol .expr :: spread false rest
    else t.lexeme :: spread (t.lexeme == .symbol .leftBracket) rest
termination_by tokens => workload tokens
decreasing_by
  all_goals simp only [workload]
  all_goals try omega
  all_goals
    have smaller := workload_of_braced? _h
    simp only [Cursor.workload, Cursor.ofExpression, Cursor.ofStream] at smaller
    omega

/-- Whether a symbol ends no statement, and no command begins behind it. -/
def Symbol.isWithin : Symbol → Bool
  | semicolon | endOfLine | endOfFile | leftBracket => false
  | _ => true

private theorem Sign.isWithin_symbol (sign : Sign) : sign.symbol.isWithin = true := by
  cases sign <;> rfl

private theorem Operator.isWithin_symbol (operator : Operator) :
    operator.symbol.isWithin = true := by
  cases operator <;> rfl

private theorem Symbol.isWithin_of_isWord {s : Symbol}
    (plain : s.isWord = true ∨ s = .plus ∨ s = .minus) :
    s.isWithin = true := by
  rcases plain with word | rfl | rfl
  · cases s <;> first | rfl | cases word
  · rfl
  · rfl

section Spread

variable {fresh : Bool} {t : Token} {rest : List Token}

@[simp] theorem spread_nil : spread fresh [] = [] := by
  rw [spread]

private theorem spread_separator (separates : t.lexeme.isSeparator = true) :
    spread fresh (t :: rest) = spread true rest := by
  rw [spread, if_pos separates]

private theorem spread_endOfFile (last : t.lexeme = .symbol .endOfFile) :
    spread fresh (t :: rest) = spread fresh rest := by
  have plain : ¬ t.lexeme.isSeparator = true := by
    rw [last]
    decide
  rw [spread, if_neg plain, if_pos last]

/-- Any other lexeme than that of an `expr` command is kept as it is. -/
theorem spread_cons {l : Lexeme} {p : Position} (plain : l.isSeparator = false)
    (notEnd : l ≠ .symbol .endOfFile) (other : fresh = true → l ≠ .symbol .expr) :
    spread fresh (⟨l, p⟩ :: rest) = l :: spread (l == .symbol .leftBracket) rest := by
  have separates : ¬ l.isSeparator = true := by simp [plain]
  have argument : ¬ (fresh = true ∧ l = .symbol .expr) := fun both => other both.1 both.2
  rw [spread, if_neg separates, if_neg notEnd, if_neg argument]

/-- A name or a number is kept as it is. -/
theorem spread_text {l : Lexeme} {p : Position} (varies : l.hasOwnText = true) :
    spread fresh (⟨l, p⟩ :: rest) = l :: spread false rest := by
  cases l with
  | number text => exact spread_cons rfl (by simp) (by simp)
  | name text => exact spread_cons rfl (by simp) (by simp)
  | symbol s => cases varies

/-- A symbol that ends nothing and begins no command is kept as it is. -/
theorem spread_symbol {s : Symbol} {p : Position} (within : s.isWithin = true) :
    spread false (.ofSymbol s p :: rest) = .symbol s :: spread false rest := by
  unfold Token.ofSymbol
  cases s with
  | semicolon | endOfLine | endOfFile | leftBracket => cases within
  | _ => exact spread_cons rfl (by simp) (by simp)

/-- The first word of a command is kept as it is, too, unless an expression follows. -/
theorem spread_keyword {s : Symbol} {p : Position} (within : s.isWithin = true)
    (other : s ≠ .expr) :
    spread true (.ofSymbol s p :: rest) = .symbol s :: spread false rest := by
  unfold Token.ofSymbol
  cases s with
  | semicolon | endOfLine | endOfFile | leftBracket => cases within
  | expr => exact absurd rfl other
  | _ => exact spread_cons rfl (by simp) (by simp)

/-- Behind an opening bracket a command begins. -/
theorem spread_leftBracket {p : Position} :
    spread fresh (.ofSymbol .leftBracket p :: rest) = .symbol .leftBracket :: spread true rest :=
  spread_cons rfl (by decide) (by simp)

private theorem spread_ofWord {t : Text} {p : Position} :
    spread false (⟨.ofWord t, p⟩ :: rest) = .ofWord t :: spread false rest := by
  have apart {s : Symbol} (h : s.isKeyword = false) := Lexeme.ofWord_ne_symbol h t
  have bracket : (Lexeme.ofWord t == .symbol .leftBracket) = false :=
    beq_eq_false_iff_ne.mpr (apart rfl)
  have plain : (Lexeme.ofWord t).isSeparator = false := by
    rw [Bool.eq_false_iff]
    intro separates
    rcases Lexeme.isSeparator_iff.mp separates with same | same
    · exact apart rfl same
    · exact apart rfl same
  rw [spread_cons plain (apart rfl) (by simp), bracket]

private theorem spread_expr {p : Position} (plain : braced? rest = none) :
    spread true (.ofSymbol .expr p :: rest) = .symbol .expr :: spread false rest := by
  rw [spread, if_neg (by rintro ⟨⟩), if_neg (by rintro ⟨⟩), if_pos ⟨rfl, rfl⟩]
  split
  · next found =>
    rw [plain] at found
    cases found
  · rfl

private theorem spread_bracedExpr {p o q r : Position} {body : Text} :
    spread true (.ofSymbol .expr p :: .ofSymbol .leftBrace o :: ⟨.name body, q⟩ ::
        .ofSymbol .rightBrace r :: rest) =
      .symbol .expr ::
        (spread false (TokenStream.ofText body q).joinLines.tokens ++ spread false rest) := by
  rw [spread, if_neg (by rintro ⟨⟩), if_neg (by rintro ⟨⟩), if_pos ⟨rfl, rfl⟩]
  split
  · next found =>
    cases found
    rfl
  · next none => cases none

end Spread

private theorem Expr.Written.ne_nil {e : Expr} {ts : List Token} (h : Expr.Written e ts) :
    ts ≠ [] := by
  cases h <;> simp

/-- Where a row of commands ends, it does not matter whether a command may begin. -/
def Settled (rest : List Token) : Prop := ∀ fresh, spread fresh rest = spread false rest

private theorem settled_rightBracket {p : Position} {rest : List Token} :
    Settled (.ofSymbol .rightBracket p :: rest) := by
  intro fresh
  cases fresh with
  | false => rfl
  | true => rw [spread_keyword rfl (by decide), spread_symbol rfl]

private theorem settled_endOfFile {t : Token} (last : t.lexeme = .symbol .endOfFile) :
    Settled [t] := by
  intro fresh
  rw [spread_endOfFile last, spread_endOfFile last, spread_nil, spread_nil]

mutual

/-- The tokens of an operand are spread as it is written. -/
theorem Expr.Written.spread_eq {e : Expr} {ts : List Token} : Expr.Written e ts →
    ∀ rest, spread false (ts ++ rest) = e.write ++ spread false rest
  | .number text p, rest => spread_cons rfl (by simp) (by simp)
  | .signedNumber sign digits p q, rest => by
    have written : Expr.write (.number (sign.symbol.text ++ digits) (.ofSymbol sign.symbol p)) =
        [.symbol sign.symbol, .number digits] := by
      simpa [Expr.write] using writeSigned_append sign digits
    rw [written, List.cons_append, spread_symbol sign.isWithin_symbol, List.cons_append,
      spread_text rfl]
    rfl
  | .word text p, rest => spread_cons rfl (by simp) (by simp)
  | .symbol (s := s) plain p, rest => by
    have noBrace : s ≠ .leftBrace := by
      rintro rfl
      simp [Symbol.isWord] at plain
    have written : Expr.write (.word s.text (.ofSymbol s p)) = [.symbol s] := by
      simpa [Expr.write, noBrace] using writeSymbol_text plain
    rw [written]
    exact spread_symbol (Symbol.isWithin_of_isWord plain)
  | .braced body p q r, rest => by
    simp only [List.cons_append, List.nil_append]
    rw [spread_symbol rfl, spread_text rfl, spread_symbol rfl]
    rfl
  | .reference name p q, rest => by
    simp only [List.cons_append, List.nil_append]
    rw [spread_symbol rfl, spread_text rfl]
    rfl
  | .quoted p q parts, rest => by
    simp only [List.cons_append, List.append_assoc, List.nil_append]
    rw [spread_symbol rfl, Expr.AllWritten.spread_eq parts, spread_symbol rfl, Expr.write]
    simp
  | .substitution p q commands, rest => by
    simp only [List.cons_append, List.append_assoc, List.nil_append]
    rw [spread_leftBracket, Command.Sequence.spread_eq commands _ settled_rightBracket,
      spread_symbol rfl, Expr.write]
    simp
  | .signed sign p operand, rest => by
    rw [List.cons_append, Expr.write, spread_symbol sign.isWithin_symbol,
      Expr.Written.spread_eq operand]
    rfl
  | .binary operator p left right, rest => by
    rw [List.append_assoc, Expr.Written.spread_eq left, List.cons_append,
      spread_symbol operator.isWithin_symbol, Expr.Written.spread_eq right, Expr.write]
    simp
  | .group p q inner, rest => by
    simp only [List.cons_append, List.append_assoc, List.nil_append]
    rw [spread_symbol rfl, Expr.Written.spread_eq inner, spread_symbol rfl, Expr.write]
    simp

theorem Expr.AllWritten.spread_eq {es : List Expr} {ts : List Token} : Expr.AllWritten es ts →
    ∀ rest, spread false (ts ++ rest) = Expr.writeAll es ++ spread false rest
  | .nil, rest => rfl
  | .cons first others, rest => by
    rw [List.append_assoc, Expr.Written.spread_eq first, Expr.AllWritten.spread_eq others,
      Expr.writeAll, List.append_assoc]

/-- The tokens of a command are spread as it is written, where a command may begin. -/
theorem Command.Written.spread_eq {c : Command} {ts : List Token} : Command.Written c ts →
    ∀ rest, spread true (ts ++ rest) = c.write ++ spread false rest
  | .set p q target value, rest => by
    simp only [List.cons_append]
    rw [spread_keyword rfl (by decide), spread_ofWord, Expr.Written.spread_eq value]
    rfl
  | .unset p q target, rest => by
    simp only [List.cons_append, List.nil_append]
    rw [spread_keyword rfl (by decide), spread_ofWord]
    rfl
  | .puts p value, rest => by
    rw [List.cons_append, spread_keyword rfl (by decide), Expr.Written.spread_eq value]
    rfl
  | @Command.Written.expr p _ ts operand opens, rest => by
    have plain : braced? (ts ++ rest) = none := by
      obtain ⟨t, others, rfl⟩ := List.exists_cons_of_ne_nil operand.ne_nil
      exact braced?_eq_none (opens t rfl)
    rw [List.cons_append, spread_expr plain, Expr.Written.spread_eq operand]
    rfl
  | @Command.Written.bracedExpr p o q r _ _ _ t _ ends tokens operand, rest => by
    have inner := Expr.Written.spread_eq operand [t]
    rw [spread_endOfFile ends, spread_nil, List.append_nil] at inner
    simp only [List.cons_append, List.nil_append]
    rw [spread_bracedExpr, tokens, inner]
    rfl
  | .block p q r body, rest => by
    simp only [List.cons_append, List.nil_append]
    rw [spread_keyword rfl (by decide), spread_text rfl, spread_symbol rfl]
    rfl
  | .invoke p name arguments, rest => by
    rw [List.cons_append, spread_text rfl, Expr.AllWritten.spread_eq arguments]
    rfl

theorem Command.Sequence.spread_eq {cs : List Command} {ts : List Token} : Command.Sequence cs ts →
    ∀ rest, Settled rest → spread true (ts ++ rest) = Command.writeAll cs ++ spread false rest
  | .nil, rest, settled => settled true
  | .separator separates others, rest, settled => by
    rw [List.cons_append, spread_separator separates, Command.Sequence.spread_eq others rest settled]
  | .last command, rest, settled => by
    rw [Command.Written.spread_eq command, Command.writeAll, Command.writeAll, List.append_nil]
  | .cons first separates others, rest, settled => by
    rw [List.append_assoc, Command.Written.spread_eq first, List.cons_append,
      spread_separator separates, Command.Sequence.spread_eq others rest settled, Command.writeAll,
      List.append_assoc]

end

/-- **Parsing keeps every token.** A text is accepted only if all of it is split into tokens without
a fault. Its commands, written out, are then these tokens in their order: none is lost, doubled or
moved. Only what ends statements and the end of file are left out, and in place of the braces behind
`expr` stand the tokens between them. -/
theorem commands_spell_tokens {source : Text} {filename : Option Text} {start : Position}
    {commands : List Command}
    (accepted : (Reader.ofText source filename start).commands = .ok commands) :
    (TokenStream.ofText source start).fault = none ∧
      Command.writeAll commands = spread true (TokenStream.ofText source start).tokens := by
  have delivered : (Grammar.program (.ofText source start)).delivery = (commands, none) :=
    Program.delivery_of_commands (Reader.commands_eq_ok.mp accepted)
  obtain ⟨ts, others, tokens, row, whole, _⟩ :=
    Grammar.sound_program (nested_ofText source start)
  rw [delivered] at row whole
  obtain ⟨sound, t, rfl, last⟩ := whole rfl
  refine ⟨sound, ?_⟩
  have written := row.spread_eq [t] (settled_endOfFile last)
  have ends : spread false [t] = [] := by rw [spread_endOfFile last, spread_nil]
  rw [ends, List.append_nil, ← tokens] at written
  exact written.symm

/-- A braced expression that goes over two lines, with a string and two commands in it. -/
theorem commands_spell_tokens_braced :
    ∃ commands,
      (Reader.ofText "set a -1; expr \x7b($a +\n \"x\") * [puts a; expr \x7b2\x7d]\x7d".toList none
        .start).commands = .ok commands ∧
      Command.writeAll commands = spread true
        (TokenStream.ofText "set a -1; expr \x7b($a +\n \"x\") * [puts a; expr \x7b2\x7d]\x7d".toList
          .start).tokens := by
  cases accepted : (Reader.ofText
      "set a -1; expr \x7b($a +\n \"x\") * [puts a; expr \x7b2\x7d]\x7d".toList none
      .start).commands with
  | ok commands => exact ⟨commands, rfl, (commands_spell_tokens accepted).2⟩
  | error d =>
    have read : (match (Reader.ofText
        "set a -1; expr \x7b($a +\n \"x\") * [puts a; expr \x7b2\x7d]\x7d".toList none
        .start).commands with
        | .ok _ => true
        | .error _ => false) = true := by
      decide +kernel
    rw [accepted] at read
    cases read

end TinyTcl
