import TinyTcl.Proofs.Program.Lockstep

/-! Relations of cursors that keep step with the tokens. Where each token at the first cursor is met
by a like token at the second one, and the end by the end, most laws of a simulation follow. What is
left to show is what a relation makes of faults, and of the text of a braced expression. -/
namespace TinyTcl

/-- A simulation whose cursors are related in one way, in and between statements. -/
def Simulation.everywhere (Q : Position → Position → Prop) (At : Spot → Cursor → Cursor → Prop)
    (Lenient : Prop) (Faults : Diagnostic → Diagnostic → Prop) (After : Cursor → Cursor → Prop) :
    Simulation :=
  { Q, At, Between := At, Statements := fun _ => True, Lenient, Faults, After }

/-- The laws of a relation that keeps step with the tokens. -/
structure Synchronous (Q : Position → Position → Prop) (At : Spot → Cursor → Cursor → Prop)
    (Lenient : Prop) (Faults : Diagnostic → Diagnostic → Prop) (After : Cursor → Cursor → Prop) :
    Prop where
  column {p q : Position} : Q p q → Q ⟨p.line, p.column + 1⟩ ⟨q.line, q.column + 1⟩
  reads {s : Spot} {c c' rest : Cursor} {t : Token} : At s c c' → c.Reads t rest →
    ∃ t' rest', c'.Reads t' rest' ∧ t.Alike Q t' ∧ At (s.behind t.lexeme) rest rest'
  ends {s : Spot} {c c' here : Cursor} {t : Token} : At s c c' → c.Ends t here →
    ∃ t' here', c'.Ends t' here' ∧ At s here here'
  broken {s : Spot} {c c' here : Cursor} {d : Diagnostic} : At s c c' → c.Breaks d here →
    ∃ d' here', c'.Breaks d' here' ∧ (Lenient ∨ Faults d d' ∧ After here here')
  refuse {s : Spot} {c c' here here' : Cursor} {t t' : Token} {f : GrammarFault} : At s c c' →
    c.Shows t here → c'.Shows t' here' → f.about t.lexeme = f → Lenient ∨
      Faults (refusal s.brackets f t here).1 (refusal s.brackets (f.about t'.lexeme) t' here').1 ∧
      After (refusal s.brackets f t here).2 (refusal s.brackets (f.about t'.lexeme) t' here').2
  braces {s : Spot} {c c' rest rest' behind behind' : Cursor} {t t' : Token}
    {body : { b : Block // 2 * b.text.length ≤ bodyRoom rest.tokens }}
    {body' : { b : Block // 2 * b.text.length ≤ bodyRoom rest'.tokens }}
    {within : behind.workload < rest.workload} {within' : behind'.workload < rest'.workload} :
    At s c c' → c.Reads t rest → t.lexeme = .symbol .leftBrace → c'.Reads t' rest' →
    Grammar.block s.brackets t.position rest = .ok body behind within →
    Grammar.block s.brackets t'.position rest' = .ok body' behind' within' →
    body.val.Alike Q body'.val → At s behind behind' →
    At (.start true) ((Cursor.ofExpression body.val).withLog behind.log)
      ((Cursor.ofExpression body'.val).withLog behind'.log)
  surplus {s : Spot} {c c' inner inner' : Cursor} {t t' : Token} {rest rest' : Cursor} :
    At s c c' → At (.start true) inner inner' → inner.Reads t rest → inner'.Reads t' rest' →
    t.Alike Q t' → Lenient ∨
      Faults (.ofCause (.grammar (.afterExpression t.lexeme)) t.position)
        (.ofCause (.grammar (.afterExpression t'.lexeme)) t'.position) ∧
      After (c.withLog inner.log) (c'.withLog inner'.log)
  withLog {s : Spot} {c c' inner inner' : Cursor} : At s c c' → At (.start true) inner inner' →
    At s (c.withLog inner.log) (c'.withLog inner'.log)
  after {s : Spot} {c c' inner inner' : Cursor} : At s c c' → After inner inner' →
    After (c.withLog inner.log) (c'.withLog inner'.log)

namespace Synchronous

variable {Q : Position → Position → Prop} {At : Spot → Cursor → Cursor → Prop} {Lenient : Prop}
  {Faults : Diagnostic → Diagnostic → Prop} {After : Cursor → Cursor → Prop}
  (laws : Synchronous Q At Lenient Faults After) {s : Spot} {c c' : Cursor}

include laws

/-- A separator leaves the spot as it is. -/
theorem separator {rest : Cursor} {t : Token} (h : At s c c') (reads : c.Reads t rest)
    (separates : t.lexeme.isSeparator = true) :
    ∃ t' rest', c'.Reads t' rest' ∧ t'.lexeme = t.lexeme ∧ At s rest rest' := by
  obtain ⟨t', rest', reads', alike, next⟩ := laws.reads h reads
  refine ⟨t', rest', reads', alike.1, ?_⟩
  rcases Lexeme.isSeparator_iff.mp separates with same | same
  · rwa [same] at next
  · rwa [same] at next

theorem skipSeparators (h : At s c c') : At s c.skipSeparators c'.skipSeparators := by
  fun_induction Cursor.skipSeparators c generalizing c' with
  | case1 c t rest _ _ view separates ih =>
    obtain ⟨t', rest', reads', same, next⟩ := laws.separator h ⟨_, _, view⟩ separates
    rw [Cursor.skipSeparators_of_separator reads' (same ▸ separates)]
    exact ih next
  | case2 c t rest _ _ view other =>
    obtain ⟨t', rest', reads', alike, _⟩ := laws.reads h ⟨_, _, view⟩
    rwa [Cursor.skipSeparators_of_other reads' (by simpa [alike.1] using other)]
  | case3 c other =>
    rwa [Cursor.skipSeparators_of_not_reads]
    intro t' rest' reads'
    rcases c.view_cases with ⟨t, rest, _, _, view⟩ | ⟨t, here, ends⟩ | ⟨d, here, breaks⟩
    · exact other _ _ _ _ view
    · obtain ⟨_, _, ends', _⟩ := laws.ends h ends
      exact reads'.not_ends ends'
    · obtain ⟨_, _, breaks', _⟩ := laws.broken h breaks
      exact reads'.not_breaks breaks'

theorem look (h : At s c c') : At s c.look c'.look := by
  rcases c.view_cases with ⟨t, rest, reads⟩ | ⟨t, here, ends⟩ | ⟨d, here, breaks⟩
  · obtain ⟨_, _, reads', _⟩ := laws.reads h reads
    rwa [reads.look, reads'.look]
  · obtain ⟨_, _, ends', same⟩ := laws.ends h ends
    rwa [ends.look, ends'.look]
  · obtain ⟨_, _, breaks', _⟩ := laws.broken h breaks
    rwa [breaks.look, breaks'.look]

theorem concludes (h : At s c c') (concludes : c.Concludes s.brackets) :
    c'.Concludes s.brackets := by
  rcases concludes with ⟨t, rest, reads, concluding⟩ | ⟨t, here, ends⟩
  · obtain ⟨t', rest', reads', alike, _⟩ := laws.reads h reads
    exact .inl ⟨t', rest', reads', alike.1 ▸ concluding⟩
  · obtain ⟨t', here', ends', _⟩ := laws.ends h ends
    exact .inr ⟨t', here', ends'⟩

theorem endOfStatement {d e : Command} (h : At s c c') (name : e.name = d.name) :
    (Simulation.everywhere Q At Lenient Faults After).Agree (fun _ _ => True) (At s)
      (Grammar.endOfStatement s.brackets d c) (Grammar.endOfStatement s.brackets e c') := by
  rcases c.view_cases with ⟨t, rest, reads⟩ | ⟨t, here, ends⟩ | ⟨d, here, breaks⟩
  · obtain ⟨t', rest', reads', ⟨same, _⟩, _⟩ := laws.reads h reads
    by_cases concluding : t.lexeme.isSeparator = true ∨
      0 < s.brackets ∧ t.lexeme = .symbol .rightBracket
    · rcases concluding with separates | ⟨inside, closes⟩
      · obtain ⟨_, _, read, _, next⟩ := laws.separator h reads separates
        obtain ⟨rfl, rfl⟩ := reads'.unique read
        rw [Grammar.endOfStatement_of_separator reads separates,
          Grammar.endOfStatement_of_separator reads' (same ▸ separates)]
        exact ⟨trivial, next⟩
      · rw [Grammar.endOfStatement_of_rightBracket reads inside closes,
          Grammar.endOfStatement_of_rightBracket reads' inside (same ▸ closes)]
        exact ⟨trivial, h⟩
    · rw [Grammar.endOfStatement_of_other reads concluding,
        Grammar.endOfStatement_of_other reads' (same ▸ concluding), reject_eq, reject_eq, name]
      exact Simulation.agree_fail (laws.refuse h reads.shows reads'.shows rfl)
  · obtain ⟨t', here', ends', same⟩ := laws.ends h ends
    rw [Grammar.endOfStatement_of_ends ends, Grammar.endOfStatement_of_ends ends']
    exact ⟨trivial, same⟩
  · obtain ⟨d', here', breaks', same⟩ := laws.broken h breaks
    rw [Grammar.endOfStatement_of_breaks breaks, Grammar.endOfStatement_of_breaks breaks']
    exact Simulation.agree_fail same

/-- A relation that keeps step with the tokens is kept by the readers. -/
theorem lawful : (Simulation.everywhere Q At Lenient Faults After).Lawful where
  level := .inr fun _ => rfl
  bracketed := Spot.brackets_behind_leftBracket
  quoted := Spot.brackets_behind_leftQuote
  outermost := rfl
  column := laws.column
  token {s c c' rest t} h reads _ := by
    obtain ⟨t', rest', reads', alike, next⟩ := laws.reads h reads
    refine ⟨t', rest', reads', alike, fun _ => ?_⟩
    unfold Simulation.Behind
    split
    · next same => exact same ▸ next
    · exact next
  separator {s c c' rest t} h reads separates := by
    obtain ⟨t', rest', reads', same, _⟩ := laws.separator h reads separates
    exact ⟨t', c', .inl ⟨⟨rest', reads'⟩, .inl (same ▸ separates), rfl⟩⟩
  finish h ends := by
    obtain ⟨t', here', ends', _⟩ := laws.ends h ends
    exact ⟨t', here', .inr ends'⟩
  broken h breaks := by
    obtain ⟨d', here', breaks', same⟩ := laws.broken h breaks
    exact same.imp_right fun same => ⟨d', here', breaks', same⟩
  look := laws.look
  refuse := laws.refuse
  statements _ := trivial
  conclude h _ := laws.concludes h
  endOfStatement h _ := laws.endOfStatement h
  resume h _ := laws.skipSeparators h
  unclosed h _ ends := by
    obtain ⟨t', here', ends', _⟩ := laws.ends h ends
    exact .inr ⟨t', here', ends'⟩
  braces := laws.braces
  exhausted h ends := by
    obtain ⟨t', here', ends', _⟩ := laws.ends h ends
    exact ⟨t', here', ends'⟩
  surplus h inner reads := by
    obtain ⟨t', rest', reads', alike, _⟩ := laws.reads inner reads
    exact (laws.surplus h inner reads reads' alike).imp_right fun same => ⟨t', rest', reads', same⟩
  withLog := laws.withLog
  after := laws.after

end Synchronous
end TinyTcl
