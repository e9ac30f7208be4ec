import TinyTcl.Proofs.Program.Synchronous
import TinyTcl.Proofs.Token.Cut
import TinyTcl.Proofs.Token.Setting

/-! Cursors that are to read the same lexemes, wherever these stand. What can be read next is told
from the lexemes (`Cursor.reads_of_lexemes`), so such cursors read the same operands, but for the
places, and a text without faults the same commands (`Grammar.commands_of_level`). -/
namespace TinyTcl

namespace Cursor

variable {c : Cursor} {l : Lexeme} {ls : List Lexeme}

theorem reads_of_lexemes (h : lexemes c.tokens = l :: ls) (other : l ≠ .symbol .endOfFile) :
    ∃ t rest, c.Reads t rest ∧ t.lexeme = l ∧ lexemes rest.tokens = ls ∧ rest.fault = c.fault := by
  cases tokens : c.tokens with
  | nil =>
    rw [tokens] at h
    cases h
  | cons t rest =>
    rw [tokens] at h
    cases h
    exact ⟨t, _, reads_of_tokens tokens other, rfl, rfl, rfl⟩

theorem ends_of_lexemes (h : lexemes c.tokens = .symbol .endOfFile :: ls) :
    ∃ t, c.Ends t c.announce := by
  cases tokens : c.tokens with
  | nil =>
    rw [tokens] at h
    cases h
  | cons t rest =>
    rw [tokens] at h
    exact ⟨t, ends_of_tokens tokens (List.cons.inj h).1⟩

theorem Reads.lexemes {t : Token} {rest : Cursor} (h : c.Reads t rest) :
    lexemes c.tokens = t.lexeme :: lexemes rest.tokens ∧ t.lexeme ≠ .symbol .endOfFile ∧
      rest.fault = c.fault := by
  obtain ⟨tokens, other, same⟩ := reads_iff.mp h
  exact ⟨by rw [tokens, lexemes_cons], other, by rw [same]; rfl⟩

/-- At the end either its token stands, or nothing and no fault. -/
theorem Ends.lexemes {t : Token} {here : Cursor} (h : c.Ends t here) :
    ((∃ ls, lexemes c.tokens = .symbol .endOfFile :: ls) ∨
      TinyTcl.lexemes c.tokens = [] ∧ c.fault = none) ∧
      here.tokens = c.tokens ∧ here.fault = c.fault := by
  rcases ends_iff.mp h with ⟨⟨rest, tokens⟩, last, rfl⟩ | ⟨tokens, sound, _, rfl⟩
  · exact ⟨.inl ⟨TinyTcl.lexemes rest, by rw [tokens, lexemes_cons, last]⟩, rfl, rfl⟩
  · exact ⟨.inr ⟨by rw [tokens, lexemes_nil], sound⟩, rfl, rfl⟩

/-- What stands behind the keyword of a command and a blank. -/
theorem reads_keyword {s : Symbol} (keyword : s.isKeyword = true) (t : Text)
    (start : Position) :
    ∃ p rest, (Cursor.ofText (s.text ++ ' ' :: t) start).Reads ⟨.symbol s, p⟩ rest ∧
      lexemes rest.tokens = Piece.lexemes (scan [] false (s.text.length + 1) t).pieces ++
        (if (scan [] false (s.text.length + 1) t).stopped = none then [.symbol .endOfFile] else []) ∧
      (rest.fault = none ↔ (scan [] false (s.text.length + 1) t).stopped = none) := by
  have tokens : lexemes (Cursor.ofText (s.text ++ ' ' :: t) start).tokens = _ :=
    lexemes_ofText _ start
  have sound : (Cursor.ofText (s.text ++ ' ' :: t) start).fault = none ↔ _ :=
    fault_ofText _ start
  rw [scan_keyword keyword] at tokens sound
  have other : Lexeme.symbol s ≠ .symbol .endOfFile := by
    rintro ⟨⟩
    cases keyword
  obtain ⟨⟨_, p⟩, rest, reads, rfl, later, fault⟩ := reads_of_lexemes tokens other
  exact ⟨p, rest, reads, later, fault ▸ sound⟩

/-- Cursors that are to read the same lexemes. -/
structure Level (c c' : Cursor) : Prop where
  lexemes : lexemes c'.tokens = lexemes c.tokens
  fault : c'.fault = none ↔ c.fault = none

namespace Level

variable {c c' rest here : Cursor} {t : Token} {d : Diagnostic}

theorem withLog (h : c.Level c') (log log' : List Event) :
    (c.withLog log).Level (c'.withLog log') :=
  ⟨h.lexemes, h.fault⟩

theorem reads (h : c.Level c') (k : c.Reads t rest) :
    ∃ t' rest', c'.Reads t' rest' ∧ t'.lexeme = t.lexeme ∧ rest.Level rest' := by
  obtain ⟨tokens, other, fault⟩ := k.lexemes
  obtain ⟨t', rest', reads', same, later, fault'⟩ :=
    reads_of_lexemes (h.lexemes.trans tokens) other
  exact ⟨t', rest', reads', same, later, by rw [fault, fault', h.fault]⟩

theorem ends (h : c.Level c') (k : c.Ends t here) :
    ∃ t' here', c'.Ends t' here' ∧ here.Level here' := by
  obtain ⟨⟨ls, tokens⟩ | ⟨tokens, sound⟩, same, fault⟩ := k.lexemes
  · obtain ⟨t', ends'⟩ := ends_of_lexemes (h.lexemes.trans tokens)
    exact ⟨t', _, ends', by rw [same]; exact h.lexemes, by rw [fault]; exact h.fault⟩
  · have none : c'.tokens = [] := List.map_eq_nil_iff.mp (h.lexemes.trans tokens)
    exact ⟨_, _, ends_of_nil none (h.fault.mpr sound), by rw [same]; exact h.lexemes,
      by rw [fault]; exact h.fault⟩

private theorem breaks (h : c.Level c') (k : c.Breaks d here) : ∃ d' here', c'.Breaks d' here' := by
  obtain ⟨tokens, fault, _⟩ := breaks_iff.mp k
  have none : c'.tokens = [] := List.map_eq_nil_iff.mp (h.lexemes.trans (by rw [tokens]; rfl))
  cases fault' : c'.fault with
  | none => cases fault.symm.trans (h.fault.mp fault')
  | some d' => exact ⟨d', _, breaks_of_nil none fault'⟩

end Level

/-- A text has the same lexemes wherever it stands, and the same faults. -/
theorem level_ofText (t : Text) (p q : Position) : (ofText t p).Level (ofText t q) :=
  ⟨(lexemes_ofText t q).trans (lexemes_ofText t p).symm,
    (fault_ofText t q).trans (fault_ofText t p).symm⟩

/-- The same holds of the text of a braced expression. -/
theorem level_ofExpression {b b' : Block} (text : b'.text = b.text) :
    (ofExpression b).Level (ofExpression b') := by
  obtain ⟨t, p⟩ := b
  obtain ⟨u, q⟩ := b'
  obtain rfl : u = t := text
  refine ⟨?_, (level_ofText u p q).fault⟩
  calc TinyTcl.lexemes (TokenStream.ofText u q).joinLines.tokens
      = (TinyTcl.lexemes (TokenStream.ofText u q).tokens).filter (· != .symbol .endOfLine) :=
        lexemes_joinLines _
    _ = (TinyTcl.lexemes (TokenStream.ofText u p).tokens).filter (· != .symbol .endOfLine) := by
        have same : TinyTcl.lexemes (TokenStream.ofText u q).tokens = _ :=
          (level_ofText u p q).lexemes
        rw [same]
        rfl
    _ = TinyTcl.lexemes (TokenStream.ofText u p).joinLines.tokens := (lexemes_joinLines _).symm

end Cursor

/-- Cursors at the same lexemes, of which the first succeeds. -/
theorem synchronous_level :
    Synchronous (fun _ _ => True) (fun _ => Cursor.Level) True (fun _ _ => True)
      (fun _ _ => True) where
  column _ := trivial
  reads h reads := by
    obtain ⟨t', rest', reads', same, later⟩ := h.reads reads
    exact ⟨t', rest', reads', ⟨same, trivial⟩, later⟩
  ends h ends := h.ends ends
  broken h breaks := by
    obtain ⟨d', here', breaks'⟩ := h.breaks breaks
    exact ⟨d', here', breaks', .inl trivial⟩
  refuse _ _ _ _ := .inl trivial
  braces _ _ _ _ _ _ same _ := (Cursor.level_ofExpression same.1).withLog _ _
  surplus _ _ _ _ _ := .inl trivial
  withLog h _ := h.withLog _ _
  after _ _ := trivial

namespace Grammar

/-- A command that ends where the text does is all of it. -/
theorem commands_of_command {c rest behind here : Cursor} {t u : Token} {first : Command}
    (reads : c.Reads t rest) (other : t.lexeme.isSeparator = false)
    (within : behind.workload < c.workload) (h : command 0 c = .ok first behind within)
    (ends : behind.Ends u here) : (program c).commands = .ok [first] := by
  have less : here.workload < c.workload := by
    have reached := behind.workload_look_lt
    rw [ends.look] at reached
    omega
  have read : statement c =
      .ok first (here.note (.parsed first.name first.position.line)) less := by
    rw [statement, h]
    simp only [Reply.andThen, endOfStatement_of_ends ends]
  apply commands_of_statement (Cursor.skipSeparators_of_other reads other) reads read
  obtain ⟨_, tokens, fault⟩ := ends.lexemes
  have level : behind.Level ((here.note (.parsed first.name first.position.line)).withLog []) :=
    ⟨congrArg lexemes tokens, by rw [← fault]; rfl⟩
  obtain ⟨_, _, ends', _⟩ := level.ends ends
  exact commands_of_ends
    (Cursor.skipSeparators_of_not_reads fun _ _ reads => reads.not_ends ends') ends'

/-- A text without faults reads the same commands wherever it stands, but for their places. -/
theorem commands_of_level {c c' : Cursor} {commands : List Command} (h : c.Level c')
    (accepted : (program c).commands = .ok commands) :
    ∃ others, (program c').commands = .ok others ∧
      Command.AllAlike (fun _ _ => True) commands others := by
  induction commands generalizing c c' with
  | nil =>
    obtain ⟨t, here, ends⟩ := ends_of_commands_nil accepted
    obtain ⟨_, _, ends', _⟩ := (synchronous_level.skipSeparators (s := .start false) h).ends ends
    exact ⟨[], commands_of_ends rfl ends', .nil⟩
  | cons first rest ih =>
    have skipped := synchronous_level.skipSeparators (s := .start false) h
    obtain ⟨behind, _, read, accepted⟩ := statement_of_commands_cons rfl accepted
    obtain ⟨t, ahead, reads⟩ := exists_reads_of_statement read
    obtain ⟨t', ahead', reads', _⟩ := skipped.reads reads
    have agree := synchronous_level.lawful.statement (s := .start false) skipped trivial rfl rfl
    rw [read] at agree
    obtain ⟨first', behind', _, read', alike, b, b', e, e', next, rfl, rfl⟩ := agree.of_ok
    obtain ⟨others, accepted', all⟩ := ih (next.withLog [] []) accepted
    exact ⟨first' :: others, commands_of_statement rfl reads' read' accepted', .cons alike all⟩

end Grammar

end TinyTcl
