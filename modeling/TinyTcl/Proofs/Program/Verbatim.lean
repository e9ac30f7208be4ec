import TinyTcl.Proofs.Program.Mentions
import TinyTcl.Proofs.Program.Placed

/-! Names are written out. Every variable that a script names, in its blocks and braced expressions
as well, is named by characters that stand in the script side by side (`mentions_occur`): a token
is a slice of its text unless it is a literal part of a string (`Text.Verbatim`), and none of these
is a name. The proof goes down the trees, as for the places of commands. -/
namespace TinyTcl

/-- Tokens are slices of a text, but for literal parts of strings: directly between quotes this is
asked only behind a dollar sign. `around` is open in front of the tokens, and `dollar` says whether
the one before them is a dollar sign. -/
def Text.Verbatim (source : Text) : Prop → List Delimiter → List Token → Prop
  | _, _, [] => True
  | dollar, around, t :: rest =>
    ((around.head? = some .quote → dollar) → t.lexeme.text <:+: source) ∧
      source.Verbatim (t.lexeme = .symbol .dollar) (t.lexeme.enclose around) rest

namespace Text.Verbatim

variable {source : Text} {dollar : Prop} {around : List Delimiter} {t : Token} {ts us : List Token}

private theorem of_append (h : source.Verbatim dollar around (ts ++ us)) :
    source.Verbatim dollar around ts ∧
      ∃ dollar, source.Verbatim dollar (enclosing around (lexemes ts)) us := by
  induction ts generalizing dollar around with
  | nil => exact ⟨trivial, dollar, h⟩
  | cons t rest ih =>
    obtain ⟨before, behind⟩ := ih h.2
    exact ⟨⟨h.1, before⟩, behind⟩

/-- Outside of quotes every token is a slice. -/
theorem outside (h : source.Verbatim dollar around (t :: ts)) (script : InScript around) :
    t.lexeme.text <:+: source := h.1 fun quoted => absurd quoted script

/-- Outside of quotes it does not matter what stands in front. -/
theorem of_inScript (script : InScript around) (h : source.Verbatim dollar around ts)
    (dollar' : Prop) : source.Verbatim dollar' around ts := by
  cases ts with
  | nil => trivial
  | cons t rest => exact ⟨fun _ => h.outside script, h.2⟩

private theorem concat (h : source.Verbatim dollar around ts) (slice : t.lexeme.text <:+: source) :
    source.Verbatim dollar around (ts ++ [t]) := by
  induction ts generalizing dollar around with
  | nil => exact ⟨fun _ => slice, trivial⟩
  | cons first rest ih => exact ⟨h.1, ih h.2⟩

private theorem inner {body : Text} (part : body <:+: source) (h : body.Verbatim dollar around ts) :
    source.Verbatim dollar around ts := by
  induction ts generalizing dollar around with
  | nil => trivial
  | cons t rest ih => exact ⟨fun own => (h.1 own).trans part, ih h.2⟩

/-- The ends of lines, which do not stand directly between quotes, can be left out. -/
theorem filter {cut : Prop} {phase : Phase} (nested : WellNested cut phase around (lexemes ts))
    (h : source.Verbatim dollar around ts) :
    source.Verbatim dollar around (ts.filter (·.lexeme != .symbol .endOfLine)) := by
  induction ts generalizing dollar around phase with
  | nil => trivial
  | cons t rest ih =>
    rcases nested with ⟨last, none, _⟩ | ⟨next, leads, nested⟩
    · have alone : rest = [] := List.map_eq_nil_iff.mp none
      rw [alone, List.filter_cons_of_pos (by simp [last])]
      exact ⟨h.1, trivial⟩
    · have later := ih nested h.2
      by_cases lineEnd : t.lexeme = .symbol .endOfLine
      · rw [List.filter_cons_of_neg (by simp [lineEnd])]
        rw [lineEnd] at leads later
        exact later.of_inScript (Phase.next_endOfLine leads).1 dollar
      · rw [List.filter_cons_of_pos (by simpa using lineEnd)]
        exact ⟨h.1, later⟩

end Text.Verbatim

/-- The tokens of pieces are slices of what the pieces are cut from. -/
theorem verbatim_of_laid {source : Text} {seen : List Lexeme} {pieces : List Piece}
    (laid : Piece.Laid seen pieces) (part : Piece.sources pieces <:+: source) (p : Position) :
    source.Verbatim (seen.getLast? = some (.symbol .dollar)) (enclosing [] seen)
      (Piece.tokensFrom p pieces) := by
  induction laid generalizing p with
  | nil => trivial
  | blank _ _ _ ih | joined _ _ ih | comment _ _ _ _ _ ih =>
    exact ih ((List.suffix_append _ _).isInfix.trans part) _
  | @token seen l s rest spells _ _ ih =>
    have behind := ih ((List.suffix_append s _).isInfix.trans part) (p.after s)
    rw [List.getLast?_concat, Option.some.injEq, enclosing_append] at behind
    refine ⟨fun own => ?_, behind⟩
    have plain : ¬ IsLiteral seen l := by
      cases l with
      | name text => exact fun literal => literal.2 (own literal.1)
      | number text => exact id
      | symbol s => exact id
    change l.text <:+: source
    rw [spells.2 plain]
    exact (List.prefix_append s _).isInfix.trans part

/-- The tokens of a text are slices of it. -/
theorem verbatim_ofText (t : Text) (start : Position) :
    t.Verbatim False [] (TokenStream.ofText t start).tokens := by
  have laid : Piece.Laid [] (Scanned.ofText t).pieces :=
    laid_scan ⟨rfl, by simp [InQuote], fun _ => by simp [BeginsCommand]⟩
  obtain ⟨others, whole⟩ := sources_ofText_append t
  have part : Piece.sources (Scanned.ofText t).pieces <:+: t := ⟨[], others, by simpa using whole⟩
  have slices : t.Verbatim False [] (Piece.tokensFrom start (Scanned.ofText t).pieces) :=
    (verbatim_of_laid laid part start).of_inScript (by simp [InScript]) False
  rcases tokens_ofText t start with ⟨_, _, _, tokens⟩ | ⟨_, _, tokens⟩
  · rwa [tokens]
  · rw [tokens]
    exact slices.concat List.nil_infix

/-- The tokens of a part of a script are slices of the script, with or without the ends of its
lines. -/
theorem verbatim_inner {source body : Text} (part : body <:+: source) (q : Position) :
    source.Verbatim False [] (TokenStream.ofText body q).tokens ∧
      source.Verbatim False [] (TokenStream.ofText body q).joinLines.tokens := by
  have slices := verbatim_ofText body q
  exact ⟨slices.inner part, (slices.filter (wellNested_ofText body q)).inner part⟩

/-- What a part of a script delivers is written with tokens that are slices of the script. -/
theorem exists_written_of_part {source body : Text} (part : body <:+: source) (q : Position) :
    ∃ ts, Command.Sequence (Grammar.program (.ofText body q)).delivery.1 ts ∧
      source.Verbatim False [] ts := by
  obtain ⟨ts, others, tokens, row, _⟩ := Grammar.sound_program (nested_ofText body q)
  have slices := (verbatim_inner part q).1
  have split : (TokenStream.ofText body q).tokens = ts ++ others := tokens
  rw [split] at slices
  exact ⟨ts, row, slices.of_append.1⟩

section Names

variable {source : Text}

mutual

/-- An operand names what it is written with. -/
theorem Expr.mentions_occur : (e : Expr) → ∀ {dollar : Prop} {around : List Delimiter}
    {ts : List Token}, Expr.Written e ts → source.Verbatim dollar around ts →
    ∀ name ∈ e.mentions, name <:+: source
  | .number _ _, _, _, _, _, _ | .word _ _, _, _, _, _, _ => by simp [Expr.mentions]
  | .reference name _, _, _, _, written, slices => by
    unfold Expr.mentions
    cases written with
    | reference _ _ q =>
      intro _ inside
      rw [List.mem_singleton.mp inside]
      exact slices.2.1 fun _ => rfl
  | .quoted parts _, _, _, _, written, slices => by
    unfold Expr.mentions
    cases written with
    | quoted _ _ all => exact Expr.joinMentions_occur parts all slices.2.of_append.1
  | .substitution commands _, _, _, _, written, slices => by
    unfold Expr.mentions
    cases written with
    | substitution _ _ row =>
      exact Command.sequenceMentions_occur commands row (by simp [InScript, Lexeme.enclose])
        slices.2.of_append.1
  | .signed _ _ operand, _, _, _, written, slices => by
    unfold Expr.mentions
    cases written with
    | signed _ _ inner => exact operand.mentions_occur inner slices.2
  | .binary left _ _ right, _, _, _, written, slices => by
    unfold Expr.mentions
    cases written with
    | binary _ _ before behind =>
      obtain ⟨first, _, last⟩ := slices.of_append
      exact List.forall_mem_append.mpr
        ⟨left.mentions_occur before first, right.mentions_occur behind last.2⟩
  | .group inner, _, _, _, written, slices => by
    unfold Expr.mentions
    cases written with
    | group _ _ content => exact inner.mentions_occur content slices.2.of_append.1

theorem Expr.joinMentions_occur : (es : List Expr) → ∀ {dollar : Prop} {around : List Delimiter}
    {ts : List Token}, Expr.AllWritten es ts → source.Verbatim dollar around ts →
    ∀ name ∈ Expr.joinMentions es, name <:+: source
  | [], _, _, _, _, _ => by simp [Expr.joinMentions]
  | first :: rest, _, _, _, written, slices => by
    unfold Expr.joinMentions
    cases written with
    | cons here others =>
      obtain ⟨before, _, behind⟩ := slices.of_append
      exact List.forall_mem_append.mpr
        ⟨first.mentions_occur here before, Expr.joinMentions_occur rest others behind⟩

/-- A command outside of quotes names what it is written with. -/
theorem Command.mentions_occur : (c : Command) → ∀ {dollar : Prop} {around : List Delimiter}
    {ts : List Token}, Command.Written c ts → InScript around → source.Verbatim dollar around ts →
    ∀ name ∈ c.mentions, name <:+: source
  | .set _ target value, _, around, _, written, script, slices => by
    unfold Command.mentions
    cases written with
    | set _ _ _ operand =>
      have word : (Lexeme.ofWord target).text <:+: source := slices.2.outside script
      rw [Lexeme.text_ofWord] at word
      exact List.forall_mem_cons.mpr ⟨word, value.mentions_occur operand slices.2.2⟩
  | .unset _ target, _, around, _, written, script, slices => by
    unfold Command.mentions
    cases written with
    | unset =>
      have word : (Lexeme.ofWord target).text <:+: source := slices.2.outside script
      rw [Lexeme.text_ofWord] at word
      exact List.forall_mem_cons.mpr ⟨word, by simp⟩
  | .puts _ value, _, _, _, written, _, slices => by
    unfold Command.mentions
    cases written with
    | puts _ operand => exact value.mentions_occur operand slices.2
  | .expr _ operand, _, around, _, written, script, slices => by
    unfold Command.mentions
    cases written with
    | expr _ plain _ => exact operand.mentions_occur plain slices.2
    | @bracedExpr _ _ q _ body _ _ _ _ _ tokens inner =>
      have part : body <:+: source := slices.2.2.outside script
      have inside := (verbatim_inner part q).2
      rw [tokens] at inside
      exact operand.mentions_occur inner inside.of_append.1
  | .block _ body program, _, around, _, written, script, slices => by
    unfold Command.mentions
    obtain ⟨same, r, rfl⟩ := Command.written_block written
    have part : body.text <:+: source := slices.2.outside script
    obtain ⟨ts, row, inside⟩ := exists_written_of_part part body.position
    rw [← same] at row
    exact program.mentions_occur row inside
  | .invoke _ _ _, _, _, _, _, _, _ => by simp [Command.mentions]

theorem Command.sequenceMentions_occur : (cs : List Command) → ∀ {dollar : Prop}
    {around : List Delimiter} {ts : List Token}, Command.Sequence cs ts → InScript around →
    source.Verbatim dollar around ts → ∀ name ∈ Command.sequenceMentions cs, name <:+: source
  | [], _, _, _, _, _, _ => by simp [Command.sequenceMentions]
  | first :: rest, _, around, _, row, script, slices => by
    unfold Command.sequenceMentions
    obtain ⟨before, here, behind, rfl, same, written, others⟩ := row.exists_first
    obtain ⟨_, _, later⟩ := slices.of_append
    rw [same] at later
    obtain ⟨now, _, last⟩ := later.of_append
    rw [written.enclosing] at last
    exact List.forall_mem_append.mpr ⟨first.mentions_occur written script now,
      Command.sequenceMentions_occur rest others script last⟩

/-- A text names what its commands are written with. -/
theorem Program.mentions_occur : (p : Program) → ∀ {dollar : Prop} {ts : List Token},
    Command.Sequence p.delivery.1 ts → source.Verbatim dollar [] ts →
    ∀ name ∈ p.mentions, name <:+: source
  | .finish _, _, _, _, _ | .fault _ _, _, _, _, _ => by simp [Program.mentions]
  | .step _ command rest, _, _, row, slices => by
    unfold Program.mentions
    obtain ⟨before, here, behind, rfl, same, written, others⟩ := Command.Sequence.exists_first row
    obtain ⟨_, _, later⟩ := slices.of_append
    rw [same] at later
    obtain ⟨now, _, last⟩ := later.of_append
    rw [written.enclosing] at last
    exact List.forall_mem_append.mpr ⟨command.mentions_occur written (by simp [InScript]) now,
      rest.mentions_occur others last⟩

end

end Names

/-- **Names are written out.** Every variable that a script names, down to the innermost block and
substitution, is named by characters that stand in the script side by side. -/
theorem mentions_occur (source : Text) (start : Position) :
    ∀ name ∈ (Grammar.program (.ofText source start)).mentions, name <:+: source := by
  obtain ⟨ts, row, slices⟩ := exists_written_of_part List.infix_rfl start
  exact Program.mentions_occur _ row slices

end TinyTcl
