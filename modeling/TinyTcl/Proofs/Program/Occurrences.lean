import TinyTcl.Proofs.Program.Placed
import TinyTcl.Proofs.Token.Order

/-! The commands of a script, down to the innermost block and substitution. They are listed in the
order in which they stand, each in front of the commands in it (`Program.occurrences`), and their
first tokens stand in the script one behind the other (`ascend_program`): no place of the script
begins two of them. -/
namespace TinyTcl

mutual

/-- The commands in an operand, each in front of those in it. -/
def Expr.occurrences : Expr → List Command
  | .number _ _ | .word _ _ | .reference _ _ => []
  | .quoted parts _ => Expr.joinOccurrences parts
  | .substitution commands _ => Command.sequenceOccurrences commands
  | .signed _ _ operand => operand.occurrences
  | .binary left _ _ right => left.occurrences ++ right.occurrences
  | .group inner => inner.occurrences

/-- The commands in operands. -/
def Expr.joinOccurrences : List Expr → List Command
  | [] => []
  | first :: rest => first.occurrences ++ Expr.joinOccurrences rest

/-- A command and the commands in it, those of its blocks included. The words of a command that is
not built in are left out, as no such command gets as far as its words. -/
def Command.occurrences : Command → List Command
  | .set p target value => .set p target value :: value.occurrences
  | .unset p target => [.unset p target]
  | .puts p value => .puts p value :: value.occurrences
  | .expr p operand => .expr p operand :: operand.occurrences
  | .block p body program => .block p body program :: program.occurrences
  | .invoke p name arguments => [.invoke p name arguments]

/-- Commands and the commands in them. -/
def Command.sequenceOccurrences : List Command → List Command
  | [] => []
  | first :: rest => first.occurrences ++ Command.sequenceOccurrences rest

/-- The commands that a text delivers and the commands in them. -/
def Program.occurrences : Program → List Command
  | .finish _ | .fault _ _ => []
  | .step _ command rest => command.occurrences ++ rest.occurrences

end

/-- The commands that are written in an operand, without those in them. -/
def Expr.nested : Expr → List Command
  | .number _ _ | .word _ _ | .reference _ _ => []
  | .quoted parts _ => joined parts
  | .substitution commands _ => commands
  | .signed _ _ operand | .group operand => operand.nested
  | .binary left _ _ right => left.nested ++ right.nested
where
  /-- The commands that are written in operands. -/
  joined : List Expr → List Command
    | [] => []
    | first :: rest => first.nested ++ joined rest

/-- The commands that are written in a command, without those in them. -/
def Command.nested : Command → List Command
  | .set _ _ value | .puts _ value | .expr _ value => value.nested
  | .unset _ _ | .invoke _ _ _ => []
  | .block _ _ program => program.delivery.1

private theorem Command.sequenceOccurrences_append (cs ds : List Command) :
    Command.sequenceOccurrences (cs ++ ds) =
      Command.sequenceOccurrences cs ++ Command.sequenceOccurrences ds := by
  induction cs with
  | nil => rw [Command.sequenceOccurrences]; rfl
  | cons c rest ih =>
    rw [List.cons_append, Command.sequenceOccurrences, Command.sequenceOccurrences, ih,
      List.append_assoc]

mutual

/-- The commands in an operand are those written in it, each with the commands in it. -/
theorem Expr.occurrences_eq : (e : Expr) → e.occurrences = Command.sequenceOccurrences e.nested
  | .number _ _ | .word _ _ | .reference _ _ => by
    unfold Expr.occurrences Expr.nested Command.sequenceOccurrences
    rfl
  | .quoted parts _ => by
    unfold Expr.occurrences Expr.nested
    exact Expr.joinOccurrences_eq parts
  | .substitution commands _ => by
    unfold Expr.occurrences Expr.nested
    rfl
  | .signed _ _ operand => by
    unfold Expr.occurrences Expr.nested
    exact operand.occurrences_eq
  | .binary left _ _ right => by
    unfold Expr.occurrences Expr.nested
    rw [left.occurrences_eq, right.occurrences_eq, Command.sequenceOccurrences_append]
  | .group inner => by
    unfold Expr.occurrences Expr.nested
    exact inner.occurrences_eq

theorem Expr.joinOccurrences_eq : (es : List Expr) →
    Expr.joinOccurrences es = Command.sequenceOccurrences (Expr.nested.joined es)
  | [] => by
    unfold Expr.joinOccurrences Expr.nested.joined Command.sequenceOccurrences
    rfl
  | first :: rest => by
    unfold Expr.joinOccurrences Expr.nested.joined
    rw [first.occurrences_eq, Expr.joinOccurrences_eq rest, Command.sequenceOccurrences_append]

end

theorem Program.occurrences_eq (p : Program) :
    p.occurrences = Command.sequenceOccurrences p.delivery.1 := by
  induction p with
  | finish | fault =>
    unfold Program.occurrences Program.delivery Command.sequenceOccurrences
    rfl
  | step notes command rest ih =>
    unfold Program.occurrences Program.delivery Command.sequenceOccurrences
    rw [ih]

/-- A command stands in front of the commands in it. -/
theorem Command.occurrences_eq (c : Command) :
    c.occurrences = c :: Command.sequenceOccurrences c.nested := by
  cases c with
  | set _ _ value | puts _ value | expr _ value =>
    unfold Command.occurrences Command.nested
    rw [value.occurrences_eq]
  | unset | invoke =>
    unfold Command.occurrences Command.nested Command.sequenceOccurrences
    rfl
  | block _ _ program =>
    unfold Command.occurrences Command.nested
    rw [program.occurrences_eq]

/-- The first tokens of commands stand where they say, one behind the other, from `low` on and not
beyond `high`. -/
def Command.Ascend (shows : Position → Text → Prop) : Position → List Command → Position → Prop
  | low, [], high => low.AtMost high
  | low, c :: rest, high => low.AtMost c.position ∧ shows c.position c.token.text ∧
      ∃ next, c.position.Before next ∧ Command.Ascend shows next rest high

namespace Command.Ascend

variable {shows : Position → Text → Prop} {low middle high : Position} {cs ds : List Command}

private theorem earlier {low' : Position} (before : low'.AtMost low)
    (h : Command.Ascend shows low cs high) :
    Command.Ascend shows low' cs high := by
  cases cs with
  | nil => exact before.trans h
  | cons c rest => exact ⟨before.trans h.1, h.2⟩

theorem append (h : Command.Ascend shows low cs middle) (k : Command.Ascend shows middle ds high) :
    Command.Ascend shows low (cs ++ ds) high := by
  induction cs generalizing low with
  | nil => exact k.earlier h
  | cons c rest ih =>
    obtain ⟨here, shown, next, before, later⟩ := h
    exact ⟨here, shown, next, before, ih later⟩

end Command.Ascend

private theorem ne_leftBrace_of_isSeparator {l : Lexeme} (separates : l.isSeparator = true) :
    l ≠ .symbol .leftBrace := by
  rintro rfl
  cases separates

private theorem Command.token_ne_endOfFile (c : Command) : c.token.lexeme ≠ .symbol .endOfFile := by
  cases c <;> simp [Command.token, Token.ofSymbol]

/-- A command stands in order if what is in it stands in order along the tokens behind its first. -/
theorem Command.Ascend.first {shows : Position → Text → Prop} {low high : Position} {c : Command}
    {around : List Delimiter} {rest : List Token} {inside : List Command}
    (script : around.head? ≠ some .quote) (shown : Shown shows around (c.token :: rest))
    (order : Ascends false low (c.token :: rest) high)
    (behind : ∀ next, Ascends (decide (c.token.lexeme = .symbol .leftBrace)) next rest high →
      Command.Ascend shows next inside high) : Command.Ascend shows low (c :: inside) high := by
  obtain ⟨here, next, before, later⟩ := order.strict c.token_ne_endOfFile
  exact ⟨here, shown.outside script, next, before, behind next later⟩

/-- In front of the first of several commands stand separators alone. -/
theorem Command.Sequence.exists_first_ascends {shows : Position → Text → Prop} {first : Command}
    {rest : List Command} {around : List Delimiter} {ts : List Token} {low high : Position} :
    Command.Sequence (first :: rest) ts → Shown shows around ts → Ascends false low ts high →
    ∃ here behind middle, Command.Written first here ∧ Command.Sequence rest behind ∧
      Shown shows around here ∧ Shown shows around behind ∧
      Ascends false low here middle ∧ Ascends false middle behind high
  | .separator separates others, shown, order => by
    have later := shown.2
    rw [enclose_of_isSeparator separates] at later
    exact others.exists_first_ascends later (order.tail (ne_leftBrace_of_isSeparator separates))
  | .last written, shown, order => ⟨_, [], high, written, .nil, shown, trivial, order, .refl high⟩
  | .cons written separates others, shown, order => by
    obtain ⟨now, _, later⟩ := shown_append.mp shown
    rw [written.enclosing, enclose_of_isSeparator separates] at later
    obtain ⟨_, middle, ascends, behind⟩ := order.of_append
    exact ⟨_, _, middle, written, others, now, later, ascends,
      behind.tail (ne_leftBrace_of_isSeparator separates)⟩

section Ascend

variable {source : Text} {start : Position}

/-- The operand between the braces of an expression stands in order there. -/
theorem exists_braced_ascends {body : Text} {q : Position} {ts : List Token} {last : Token}
    (inside : source.Shows start q body)
    (tokens : (TokenStream.ofText body q).joinLines.tokens = ts ++ [last]) :
    ∃ high, Shown (source.Shows start) [] ts ∧ Ascends false q ts high ∧
      high.AtMost (q.after body) := by
  have content := (shown_inner inside).2
  have order : Ascends false q (TokenStream.ofText body q).joinLines.tokens (q.after body) :=
    (ascends_ofText body q).filter (by simp)
  rw [tokens] at content order
  obtain ⟨_, high, ascends, later⟩ := order.of_append
  exact ⟨high, (shown_append.mp content).1, ascends, later.atMost⟩

/-- The tokens of a part of a script stand in order behind its place. -/
theorem exists_written_ascends {source body : Text} {start q : Position}
    (inside : source.Shows start q body) :
    ∃ ts high, Command.Sequence (Grammar.program (.ofText body q)).delivery.1 ts ∧
      Shown (source.Shows start) [] ts ∧ Ascends false q ts high ∧ high.AtMost (q.after body) := by
  obtain ⟨ts, others, tokens, row, _⟩ := Grammar.sound_program (nested_ofText body q)
  have content := (shown_inner inside).1
  have order := ascends_ofText body q
  have split : (TokenStream.ofText body q).tokens = ts ++ others := tokens
  rw [split] at content order
  obtain ⟨_, high, ascends, later⟩ := order.of_append
  exact ⟨ts, high, row, (shown_append.mp content).1, ascends, later.atMost⟩

mutual

/-- The commands in an operand stand in order along its tokens. -/
theorem Expr.ascend : (e : Expr) → ∀ {around : List Delimiter} {ts : List Token} {body : Bool}
    {low high : Position}, Expr.Written e ts → Shown (source.Shows start) around ts →
    Ascends body low ts high → Command.Ascend (source.Shows start) low e.occurrences high
  | .number _ _, _, _, _, _, _, _, _, order | .word _ _, _, _, _, _, _, _, _, order
  | .reference _ _, _, _, _, _, _, _, _, order => by
    unfold Expr.occurrences
    exact order.atMost
  | .quoted parts p, _, _, _, _, _, written, shown, order => by
    cases written with
    | quoted _ _ all =>
      unfold Expr.occurrences
      obtain ⟨_, _, within, behind⟩ := (order.tail (by simp [Token.ofSymbol])).of_append
      exact Expr.joinAscend parts all (shown_append.mp shown.2).1 (within.later behind.atMost)
  | .substitution commands p, _, _, _, _, _, written, shown, order => by
    cases written with
    | substitution _ _ row =>
      unfold Expr.occurrences
      obtain ⟨_, _, within, behind⟩ := (order.tail (by simp [Token.ofSymbol])).of_append
      exact Command.sequenceAscend commands row (by simp [Lexeme.enclose])
        (shown_append.mp shown.2).1 (within.later behind.atMost)
  | .signed sign p operand, _, _, _, _, _, written, shown, order => by
    cases written with
    | signed _ _ inner =>
      unfold Expr.occurrences
      have plain : (Token.ofSymbol sign.symbol p).lexeme ≠ .symbol .leftBrace := by
        cases sign <;> simp [Token.ofSymbol, Sign.symbol]
      exact operand.ascend inner shown.2 (order.tail plain)
  | .binary left operator p right, _, _, _, _, _, written, shown, order => by
    cases written with
    | binary _ _ before behind =>
      unfold Expr.occurrences
      obtain ⟨first, last⟩ := shown_append.mp shown
      obtain ⟨_, _, within, rest⟩ := order.of_append
      exact (left.ascend before first within).append (right.ascend behind last.2
        (rest.tail (by cases operator <;> simp [Token.ofSymbol, Operator.symbol])))
  | .group inner, _, _, _, _, _, written, shown, order => by
    cases written with
    | group _ _ content =>
      unfold Expr.occurrences
      obtain ⟨_, _, within, behind⟩ := (order.tail (by simp [Token.ofSymbol])).of_append
      exact inner.ascend content (shown_append.mp shown.2).1 (within.later behind.atMost)

theorem Expr.joinAscend : (es : List Expr) → ∀ {around : List Delimiter} {ts : List Token}
    {body : Bool} {low high : Position}, Expr.AllWritten es ts →
    Shown (source.Shows start) around ts → Ascends body low ts high →
    Command.Ascend (source.Shows start) low (Expr.joinOccurrences es) high
  | [], _, _, _, _, _, _, _, order => by
    unfold Expr.joinOccurrences
    exact order.atMost
  | first :: rest, _, _, _, _, _, written, shown, order => by
    cases written with
    | cons here others =>
      unfold Expr.joinOccurrences
      obtain ⟨before, behind⟩ := shown_append.mp shown
      obtain ⟨_, _, within, later⟩ := order.of_append
      exact (first.ascend here before within).append (Expr.joinAscend rest others behind later)

/-- A command, outside of quotes, and the commands in it stand in order along its tokens. -/
theorem Command.ascend : (c : Command) → ∀ {around : List Delimiter} {ts : List Token}
    {low high : Position}, Command.Written c ts → around.head? ≠ some .quote →
    Shown (source.Shows start) around ts → Ascends false low ts high →
    Command.Ascend (source.Shows start) low c.occurrences high
  | .set p target value, _, _, _, _, written, script, shown, order => by
    cases written with
    | set _ _ _ operand =>
      unfold Command.occurrences
      refine .first script shown order fun next later => ?_
      obtain ⟨_, behind⟩ := later.behind
      exact value.ascend operand shown.2.2 behind
  | .unset p target, _, _, _, _, written, script, shown, order => by
    cases written with
    | unset =>
      unfold Command.occurrences
      exact .first script shown order fun next later => later.atMost
  | .puts p value, _, _, _, _, written, script, shown, order => by
    cases written with
    | puts _ operand =>
      unfold Command.occurrences
      exact .first script shown order fun next later => value.ascend operand shown.2 later
  | .expr p operand, _, _, _, _, written, script, shown, order => by
    unfold Command.occurrences
    cases written with
    | expr _ plain _ =>
      exact .first script shown order fun next later => operand.ascend plain shown.2 later
    | @bracedExpr _ _ q _ body _ _ _ _ _ tokens inner =>
      refine .first script shown order fun next later => ?_
      obtain ⟨before, behind⟩ := Ascends.braces later
      obtain ⟨_, content, ascends, within⟩ := exists_braced_ascends (shown.2.2.outside script) tokens
      exact (operand.ascend inner content (ascends.later (within.trans behind))).earlier before
  | .block p body program, _, _, _, _, written, script, shown, order => by
    obtain ⟨same, r, rfl⟩ := Command.written_block written
    unfold Command.occurrences
    refine .first script shown order fun next later => ?_
    obtain ⟨before, behind⟩ := Ascends.text later
    have inside : source.Shows start body.position body.text := shown.2.outside script
    obtain ⟨_, _, row, content, ascends, within⟩ := exists_written_ascends inside
    rw [← same] at row
    exact (program.ascend row content (ascends.later (within.trans behind))).earlier before
  | .invoke p name arguments, _, _, _, _, written, script, shown, order => by
    cases written with
    | invoke =>
      unfold Command.occurrences
      exact .first script shown order fun next later => later.atMost

theorem Command.sequenceAscend : (cs : List Command) → ∀ {around : List Delimiter} {ts : List Token}
    {low high : Position}, Command.Sequence cs ts → around.head? ≠ some .quote →
    Shown (source.Shows start) around ts → Ascends false low ts high →
    Command.Ascend (source.Shows start) low (Command.sequenceOccurrences cs) high
  | [], _, _, _, _, _, _, _, order => by
    unfold Command.sequenceOccurrences
    exact order.atMost
  | first :: rest, _, _, _, _, row, script, shown, order => by
    unfold Command.sequenceOccurrences
    obtain ⟨_, _, _, written, others, now, later, ascends, behind⟩ :=
      row.exists_first_ascends shown order
    exact (first.ascend written script now ascends).append
      (Command.sequenceAscend rest others script later behind)

/-- What a text delivers stands in order along its tokens. -/
theorem Program.ascend : (p : Program) → ∀ {ts : List Token} {low high : Position},
    Command.Sequence p.delivery.1 ts → Shown (source.Shows start) [] ts → Ascends false low ts high →
    Command.Ascend (source.Shows start) low p.occurrences high
  | .finish _, _, _, _, _, _, order | .fault _ _, _, _, _, _, _, order => by
    unfold Program.occurrences
    exact order.atMost
  | .step _ command rest, _, _, _, row, shown, order => by
    unfold Program.occurrences
    obtain ⟨_, _, _, written, others, now, later, ascends, behind⟩ :=
      Command.Sequence.exists_first_ascends row shown order
    exact (command.ascend written (by simp) now ascends).append (rest.ascend others later behind)

end

end Ascend

/-- **Commands ascend.** The commands that a script delivers, and those in them, down to the
innermost block and substitution, stand in the script one behind the other. -/
theorem ascend_program (source : Text) (start : Position) :
    Command.Ascend (source.Shows start) start
      (Grammar.program (.ofText source start)).occurrences (start.after source) := by
  obtain ⟨_, _, row, shown, ascends, within⟩ := exists_written_ascends (.whole source start)
  exact Program.ascend _ row shown (ascends.later within)

end TinyTcl
