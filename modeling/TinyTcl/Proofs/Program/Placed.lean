import TinyTcl.Proofs.Program.Priority
import TinyTcl.Proofs.Program.WholeText
import TinyTcl.Proofs.Token.Standing

/-! The places in commands. A command stands where its first word does, a reference at its dollar
sign, an operation at its operator; the fault that ends a text is found at some place of it. All
these places count from the start of the script, in blocks and in the braces of expressions as well,
however deep (`placed_program`). The proof goes down the trees: what the tokens of a text say about
places (`shown_ofText`) is read off at every node that an evaluation can blame. -/
namespace TinyTcl

/-- A fault in reading a script that is found at one of its places. -/
inductive Diagnostic.Located (shows : Position → Text → Prop) (d : Diagnostic) : Prop where
  | lexical {f : LexicalFault} {p : Position} (fault : d = .ofCause (.lexical f) p)
      (here : shows p [])
  | grammar {f : GrammarFault} {p : Position} (cause : d.cause = .grammar f) (place : d.StandsAt p)
      (here : shows p [])

mutual

/-- The parts of an operand that can be blamed stand where the operand says. -/
def Expr.Placed (shows : Position → Text → Prop) : Expr → Prop
  | .number _ _ | .word _ _ => True
  | .reference _ position => shows position Symbol.dollar.text
  | .quoted parts _ => Expr.AllPlaced shows parts
  | .substitution commands _ => Command.AllPlaced shows commands
  | .signed sign position operand => shows position sign.symbol.text ∧ operand.Placed shows
  | .binary left operator position right =>
    left.Placed shows ∧ shows position operator.symbol.text ∧ right.Placed shows
  | .group inner => inner.Placed shows

/-- All of some operands are placed. -/
def Expr.AllPlaced (shows : Position → Text → Prop) : List Expr → Prop
  | [] => True
  | first :: rest => first.Placed shows ∧ Expr.AllPlaced shows rest

/-- The first word of a command stands where the command says, and so on in what it carries out. The
words behind an unknown name are never looked at. -/
def Command.Placed (shows : Position → Text → Prop) : Command → Prop
  | .set _ _ value | .puts _ value => value.Placed shows
  | .unset _ _ => True
  | .expr position operand => shows position Symbol.expr.text ∧ operand.Placed shows
  | .block _ _ program => program.Placed shows
  | .invoke position name _ => shows position name

/-- All of some commands are placed. -/
def Command.AllPlaced (shows : Position → Text → Prop) : List Command → Prop
  | [] => True
  | first :: rest => first.Placed shows ∧ Command.AllPlaced shows rest

/-- The commands of a program are placed, and its fault has a place. -/
def Program.Placed (shows : Position → Text → Prop) : Program → Prop
  | .finish _ => True
  | .fault _ d => d.Located shows
  | .step _ command rest => command.Placed shows ∧ rest.Placed shows

end

/-! ### The fault of a text -/

/-- What is read as a part of a text is a part of it. -/
theorem TokenStream.Holds.exists_shows {start : Position} {text : Text} {inner : TokenStream}
    (h : (TokenStream.ofText text start).Holds inner) :
    ∃ body q, inner = TokenStream.ofText body q ∧ text.Shows start q body := by
  generalize whole : TokenStream.ofText text start = s at h
  induction h generalizing text start with
  | self => exact ⟨text, start, whole.symm, .whole text start⟩
  | @block _ _ _ _ _ body _ braces opens _ ih =>
    obtain ⟨front, others, pieces, rfl⟩ := block_ofText (whole ▸ braces) opens
    obtain ⟨body', q, same, inside⟩ := ih rfl
    obtain ⟨missed, whole⟩ := sources_ofText_append text
    have here : text = (Piece.sources front ++ ['{']) ++
        (body ++ '}' :: (Piece.sources others ++ missed)) := by
      rw [← whole, pieces]
      simp
    have block : text.Shows start (start.after (Piece.sources front ++ ['{'])) body := by
      rw [here]
      exact .of_append _ body _ start
    exact ⟨body', q, same, block.inner inside⟩

/-- The fault that a text is refused with is found in the text. -/
theorem Diagnostic.KeepsOrder.located {d : Diagnostic} {start : Position} {text : Text}
    (h : d.KeepsOrder (TokenStream.ofText text start)) : d.Located (text.Shows start) := by
  obtain ⟨_, holds, fault⟩ := h
  obtain ⟨body, q, rfl, inside⟩ := holds.exists_shows
  cases fault with
  | lexical fault =>
    obtain ⟨f, p, same, here⟩ := exists_shows_of_fault fault
    exact .lexical same (inside.inner here)
  | grammar cause place tokens _ =>
    obtain ⟨u, v, rfl, standing⟩ := position_of_mem (mem_of_eq_append tokens)
    exact .grammar cause place (inside.inner (standing ▸ .nil u v q))

private theorem Diagnostic.Located.inner {d : Diagnostic} {source body : Text} {start q : Position}
    (h : d.Located (body.Shows q)) (inside : source.Shows start q body) :
    d.Located (source.Shows start) := by
  cases h with
  | lexical fault here => exact .lexical fault (inside.inner here)
  | grammar cause place here => exact .grammar cause place (inside.inner here)

private theorem located_of_delivery {text : Text} {start : Position} {d : Diagnostic}
    (h : (Grammar.program (.ofText text start)).delivery.2 = some d) :
    d.Located (text.Shows start) := by
  have order : d.KeepsOrder (TokenStream.ofText text start) := by
    apply keepsOrder_of_program _ (Program.commands_eq_error_iff.mpr h)
    exact ⟨_, cut_ofText text start, fun _ => id, .start _ false rfl rfl⟩
  exact order.located

/-- What a part of a script delivers is written with tokens that stand in the script, and its fault
is found there. -/
theorem exists_written_of_shows {source body : Text} {start q : Position}
    (inside : source.Shows start q body) :
    ∃ ts, Command.Sequence (Grammar.program (.ofText body q)).delivery.1 ts ∧
      Shown (source.Shows start) [] ts ∧
      ∀ d, (Grammar.program (.ofText body q)).delivery.2 = some d →
        d.Located (source.Shows start) := by
  obtain ⟨ts, others, tokens, row, _⟩ := Grammar.sound_program (nested_ofText body q)
  have content : Shown (source.Shows start) [] (TokenStream.ofText body q).tokens :=
    (shown_inner inside).1
  have split : (TokenStream.ofText body q).tokens = ts ++ others := tokens
  rw [split] at content
  exact ⟨ts, row, (shown_append.mp content).1,
    fun d fault => (located_of_delivery fault).inner inside⟩

/-! ### The commands of a text -/

theorem Command.written_block {p : Position} {body : Block} {program : Program} {ts : List Token}
    (h : Command.Written (.block p body program) ts) :
    program = Grammar.program (.ofText body.text body.position) ∧
      ∃ r, ts = [.ofSymbol .leftBrace p, ⟨.name body.text, body.position⟩,
        .ofSymbol .rightBrace r] := by
  cases h with
  | block _ _ r _ => exact ⟨rfl, r, rfl⟩

/-- The tokens of several commands are those of the first, behind separators, and those of the rest.
-/
theorem Command.Sequence.exists_first {first : Command} {rest : List Command} {ts : List Token} :
    Command.Sequence (first :: rest) ts → ∃ before here behind, ts = before ++ (here ++ behind) ∧
      (∀ around, TinyTcl.enclosing around (lexemes before) = around) ∧
      Command.Written first here ∧ Command.Sequence rest behind
  | .separator (t := t) separates others => by
    obtain ⟨before, here, behind, rfl, same, written, row⟩ := others.exists_first
    refine ⟨t :: before, here, behind, rfl, fun around => ?_, written, row⟩
    rw [lexemes_cons, enclosing_cons, enclose_of_isSeparator separates, same]
  | .last written => ⟨[], ts, [], by simp, fun _ => rfl, written, .nil⟩
  | .cons written separates row =>
    ⟨[], _, _, rfl, fun _ => rfl, written, .separator separates row⟩

section Placed

variable {source : Text} {start : Position}

mutual

/-- What an operand is written with tells its places. -/
theorem Expr.placed : (e : Expr) → ∀ {around : List Delimiter} {ts : List Token},
    Expr.Written e ts → Shown (source.Shows start) around ts → e.Placed (source.Shows start)
  | .number _ _, _, _, _, _ | .word _ _, _, _, _, _ => by
    unfold Expr.Placed
    trivial
  | .reference name p, _, _, written, shown => by
    cases written with
    | reference _ _ q => exact shown.symbol
  | .quoted parts p, _, _, written, shown => by
    cases written with
    | quoted _ _ all => exact Expr.allPlaced parts all (shown_append.mp shown.2).1
  | .substitution commands p, _, _, written, shown => by
    cases written with
    | substitution _ _ row =>
      exact Command.allPlaced commands row (by simp [Lexeme.enclose]) (shown_append.mp shown.2).1
  | .signed sign p operand, _, _, written, shown => by
    cases written with
    | signed _ _ inner => exact ⟨shown.symbol, operand.placed inner shown.2⟩
  | .binary left operator p right, around, _, written, shown => by
    cases written with
    | binary _ _ before behind =>
      obtain ⟨first, last⟩ := shown_append.mp shown
      exact ⟨left.placed before first, last.symbol, right.placed behind last.2⟩
  | .group inner, _, _, written, shown => by
    cases written with
    | group _ _ content => exact inner.placed content (shown_append.mp shown.2).1

theorem Expr.allPlaced : (es : List Expr) → ∀ {around : List Delimiter} {ts : List Token},
    Expr.AllWritten es ts → Shown (source.Shows start) around ts →
    Expr.AllPlaced (source.Shows start) es
  | [], _, _, _, _ => trivial
  | first :: rest, _, _, written, shown => by
    cases written with
    | cons here others =>
      obtain ⟨before, behind⟩ := shown_append.mp shown
      exact ⟨first.placed here before, Expr.allPlaced rest others behind⟩

/-- What a command is written with, outside of quotes, tells its places. -/
theorem Command.placed : (c : Command) → ∀ {around : List Delimiter} {ts : List Token},
    Command.Written c ts → around.head? ≠ some .quote → Shown (source.Shows start) around ts →
    c.Placed (source.Shows start)
  | .set p target value, _, _, written, _, shown => by
    cases written with
    | set _ _ _ operand => exact value.placed operand shown.2.2
  | .unset p target, _, _, _, _, _ => trivial
  | .puts p value, _, _, written, _, shown => by
    cases written with
    | puts _ operand => exact value.placed operand shown.2
  | .expr p operand, _, _, written, script, shown => by
    cases written with
    | expr _ plain _ => exact ⟨shown.symbol, operand.placed plain shown.2⟩
    | @bracedExpr _ _ q _ body _ _ _ _ _ tokens inner =>
      have braces : source.Shows start q body := shown.2.2.outside script
      have inside := (shown_inner braces).2
      rw [tokens] at inside
      exact ⟨shown.symbol, operand.placed inner (shown_append.mp inside).1⟩
  | .block p body program, _, _, written, script, shown => by
    obtain ⟨same, r, rfl⟩ := Command.written_block written
    have inside : source.Shows start body.position body.text := shown.2.outside script
    obtain ⟨ts, row, content, located⟩ := exists_written_of_shows inside
    rw [← same] at row located
    exact program.placed row content located
  | .invoke p name arguments, _, _, written, script, shown => by
    cases written with
    | invoke _ _ _ => exact shown.outside script

theorem Command.allPlaced : (cs : List Command) → ∀ {around : List Delimiter} {ts : List Token},
    Command.Sequence cs ts → around.head? ≠ some .quote → Shown (source.Shows start) around ts →
    Command.AllPlaced (source.Shows start) cs
  | [], _, _, _, _, _ => trivial
  | first :: rest, around, _, row, script, shown => by
    obtain ⟨before, here, behind, rfl, same, written, others⟩ := row.exists_first
    have later := (shown_append.mp shown).2
    rw [same] at later
    obtain ⟨now, last⟩ := shown_append.mp later
    rw [written.enclosing] at last
    exact ⟨first.placed written script now, Command.allPlaced rest others script last⟩

/-- A text delivers placed commands, and a fault that has a place. -/
theorem Program.placed : (p : Program) → ∀ {ts : List Token}, Command.Sequence p.delivery.1 ts →
    Shown (source.Shows start) [] ts →
    (∀ d, p.delivery.2 = some d → d.Located (source.Shows start)) → p.Placed (source.Shows start)
  | .finish _, _, _, _, _ => trivial
  | .fault _ d, _, _, _, located => located d rfl
  | .step _ command rest, _, row, shown, located => by
    obtain ⟨before, here, behind, rfl, same, written, others⟩ := Command.Sequence.exists_first row
    have later := (shown_append.mp shown).2
    rw [same] at later
    obtain ⟨now, last⟩ := shown_append.mp later
    rw [written.enclosing] at last
    exact ⟨command.placed written (by simp) now, rest.placed others last located⟩

end

end Placed

/-- **Places count from the start of the script.** What a script delivers is placed in it, down to
the innermost block and substitution, and the fault that ends it or a block of it is found in it. -/
theorem placed_program (source : Text) (start : Position) :
    (Grammar.program (.ofText source start)).Placed (source.Shows start) := by
  obtain ⟨ts, row, shown, located⟩ := exists_written_of_shows (.whole source start)
  exact Program.placed _ row shown located

end TinyTcl
