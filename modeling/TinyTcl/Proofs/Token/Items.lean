import TinyTcl.Proofs.Token.Balance

/-! The grammar of delimiters. Whatever opens in a text without lexical faults is closed again, and
what stands in between is a row of items of its own (`items_ofText`). The proof turns the machine
that reads well nested lexemes one by one into the nested rows: behind each lexeme there is left the
rest of the innermost row, its closing delimiter, and what is left of the rows around it
(`Residue`). -/
namespace TinyTcl

/-- A lexeme that stands for itself in a script: no delimiter, no dollar sign and no end of file. -/
def Lexeme.IsPlain : Lexeme → Prop
  | number _ | name _ => True
  | symbol s => s ∉ [.leftBracket, .rightBracket, .leftQuote, .rightQuote, .leftBrace, .rightBrace,
      .dollar, .endOfFile]

mutual

/-- A row of items: plain lexemes, dollar signs with or without a name, and what delimiters enclose.
A closing brace may stand alone anywhere, a closing bracket only `outside` of all brackets. -/
inductive Items : (outside : Bool) → List Lexeme → Prop where
  | nil {outside : Bool} : Items outside []
  | plain {outside : Bool} {l : Lexeme} {rest : List Lexeme} : l.IsPlain → Items outside rest →
      Items outside (l :: rest)
  | dollar {outside : Bool} {rest : List Lexeme} : Items outside rest →
      Items outside (.symbol .dollar :: rest)
  | reference {outside : Bool} (name : Text) {rest : List Lexeme} : Items outside rest →
      Items outside (.symbol .dollar :: .name name :: rest)
  | bracket {outside : Bool} {inner rest : List Lexeme} : Items false inner → Items outside rest →
      Items outside (.symbol .leftBracket :: inner ++ .symbol .rightBracket :: rest)
  | quote {outside : Bool} {inner rest : List Lexeme} : QuotedItems false inner →
      Items outside rest → Items outside (.symbol .leftQuote :: inner ++ .symbol .rightQuote :: rest)
  | block {outside : Bool} (body : Text) {rest : List Lexeme} : Items outside rest →
      Items outside (.symbol .leftBrace :: .name body :: .symbol .rightBrace :: rest)
  | strayBrace {outside : Bool} {rest : List Lexeme} : Items outside rest →
      Items outside (.symbol .rightBrace :: rest)
  | strayBracket {rest : List Lexeme} : Items true rest → Items true (.symbol .rightBracket :: rest)

/-- A row of items between quotes: literal texts, variables and substitutions. `behindLiteral` says
that a literal text stands in front, so that no other one may follow at once. -/
inductive QuotedItems : (behindLiteral : Bool) → List Lexeme → Prop where
  | nil {behindLiteral : Bool} : QuotedItems behindLiteral []
  | literal (text : Text) {rest : List Lexeme} : QuotedItems true rest →
      QuotedItems false (.name text :: rest)
  | reference {behindLiteral : Bool} (name : Text) {rest : List Lexeme} : QuotedItems false rest →
      QuotedItems behindLiteral (.symbol .dollar :: .name name :: rest)
  | substitution {behindLiteral : Bool} {inner rest : List Lexeme} : Items false inner →
      QuotedItems false rest →
      QuotedItems behindLiteral (.symbol .leftBracket :: inner ++ .symbol .rightBracket :: rest)

end

/-- The lexeme that opens what a delimiter encloses. -/
def Delimiter.opening : Delimiter → Lexeme
  | .bracket => .symbol .leftBracket
  | .quote => .symbol .leftQuote

/-- The lexeme that closes what a delimiter encloses. -/
def Delimiter.closing : Delimiter → Lexeme
  | .bracket => .symbol .rightBracket
  | .quote => .symbol .rightQuote

/-- A row of items between some delimiters. -/
def RowWithin (around : List Delimiter) (behindLiteral : Bool) : List Lexeme → Prop :=
  match around with
  | [] => Items true
  | .bracket :: _ => Items false
  | .quote :: _ => QuotedItems behindLiteral

/-- What is left of a row of items behind a phase. -/
def Phase.Remains (around : List Delimiter) : Phase → List Lexeme → Prop
  | whole, ls => RowWithin around false ls
  | literal, ls => RowWithin around true ls
  | dollar, ls => InScript around ∧ RowWithin around false ls ∨
      ∃ name rest, ls = .name name :: rest ∧ RowWithin around false rest
  | brace, ls => ∃ text rest, ls = .name text :: .symbol .rightBrace :: rest ∧
      RowWithin around false rest
  | body, ls => ∃ rest, ls = .symbol .rightBrace :: rest ∧ RowWithin around false rest

/-- What is left of a stream behind a phase, between some delimiters: the rest of the innermost
row, its closing delimiter, and what is left behind that. -/
def Residue : List Delimiter → Phase → List Lexeme → Prop
  | [], phase, ls => ∃ row, ls = row ++ [.symbol .endOfFile] ∧ phase.Remains [] row
  | d :: outer, phase, ls => ∃ row rest, ls = row ++ d.closing :: rest ∧
      phase.Remains (d :: outer) row ∧ Residue outer .whole rest

section Residues

variable {phase next : Phase} {around : List Delimiter} {l : Lexeme} {rest : List Lexeme}

/-- A lexeme that opens and closes nothing belongs to the innermost row. -/
theorem Residue.cons (h : Residue around next rest)
    (row : ∀ row, next.Remains around row → phase.Remains around (l :: row)) :
    Residue around phase (l :: rest) := by
  cases around with
  | nil =>
    obtain ⟨items, rfl, remains⟩ := h
    exact ⟨l :: items, rfl, row items remains⟩
  | cons d outer =>
    obtain ⟨items, others, rfl, remains, later⟩ := h
    exact ⟨l :: items, others, rfl, row items remains, later⟩

/-- What delimiters enclose belongs as a whole to the row around it. -/
theorem Residue.enclosed {d : Delimiter} (h : Residue (d :: around) .whole rest)
    (row : ∀ inner row, RowWithin (d :: around) false inner → RowWithin around false row →
      phase.Remains around (d.opening :: inner ++ d.closing :: row)) :
    Residue around phase (d.opening :: rest) := by
  obtain ⟨inner, others, rfl, inside, later⟩ := h
  cases around with
  | nil =>
    obtain ⟨items, rfl, remains⟩ := later
    exact ⟨d.opening :: inner ++ d.closing :: items, by simp, row inner items inside remains⟩
  | cons e outer =>
    obtain ⟨items, behind, rfl, remains, later⟩ := later
    exact ⟨d.opening :: inner ++ d.closing :: items, behind, by simp,
      row inner items inside remains, later⟩

end Residues

/-- In a script a row does not depend on what stands in front of it. -/
theorem row_of_inScript {around : List Delimiter} (script : InScript around) :
    ∃ outside, ∀ behindLiteral, RowWithin around behindLiteral = Items outside := by
  rcases around with _ | ⟨_ | _, outer⟩
  · exact ⟨true, fun _ => rfl⟩
  · exact ⟨false, fun _ => rfl⟩
  · exact absurd rfl script

private theorem Phase.remains_of_row {phase : Phase} {around : List Delimiter} {ls : List Lexeme}
    (script : InScript around) (ready : phase.IsReady)
    (row : ∀ behindLiteral, RowWithin around behindLiteral ls) : phase.Remains around ls := by
  cases phase with
  | whole => exact row false
  | literal => exact row true
  | dollar => exact .inl ⟨script, row false⟩
  | brace => exact absurd rfl ready.1
  | body => exact absurd rfl ready.2

/-- What a script admits next, and opens and closes nothing, stands in front of the rest of a
row. -/
theorem Phase.remains_of_inScript {phase next : Phase} {around : List Delimiter} {l : Lexeme}
    (script : InScript around) (ready : phase.IsReady) (leads : l.inScript = some next)
    (opens : ∀ d : Delimiter, l ≠ d.opening) (closes : l ≠ .symbol .rightBracket)
    {row : List Lexeme} (h : next.Remains around row) : phase.Remains around (l :: row) := by
  obtain ⟨outside, items⟩ := row_of_inScript script
  refine remains_of_row script ready fun behindLiteral => ?_
  rw [items]
  have plain (same : next = .whole) (isPlain : l.IsPlain) : Items outside (l :: row) := by
    subst same
    exact .plain isPlain (items false ▸ h)
  cases l with
  | number text => exact plain (Option.some.inj leads).symm trivial
  | name text =>
    by_cases free : keyword? text = none
    · simp only [Lexeme.inScript, free, if_true, Option.some.injEq] at leads
      exact plain leads.symm trivial
    · simp only [Lexeme.inScript, free, if_false] at leads
      cases leads
  | symbol s =>
    cases s
    case leftBrace =>
      cases leads
      obtain ⟨text, rest, rfl, later⟩ := h
      exact .block text (items false ▸ later)
    case dollar =>
      cases leads
      rcases h with ⟨_, later⟩ | ⟨name, rest, rfl, later⟩
      · exact .dollar (items false ▸ later)
      · exact .reference name (items false ▸ later)
    case rightBrace =>
      cases leads
      exact .strayBrace (items false ▸ h)
    case leftBracket => exact absurd rfl (opens .bracket)
    case leftQuote => exact absurd rfl (opens .quote)
    case rightBracket => exact absurd rfl closes
    case rightQuote | endOfFile => cases leads
    all_goals exact plain (Option.some.inj leads).symm (by simp [Lexeme.IsPlain])

/-- What may stand next between quotes stands in front of the rest of a row. -/
theorem Phase.remains_of_inQuotes {phase next : Phase} {outer : List Delimiter} {l : Lexeme}
    (leads : l.inQuotes phase = some next) (opens : ∀ d : Delimiter, l ≠ d.opening)
    (closes : l ≠ .symbol .rightQuote) {row : List Lexeme}
    (h : next.Remains (.quote :: outer) row) : phase.Remains (.quote :: outer) (l :: row) := by
  unfold Lexeme.inQuotes at leads
  split at leads
  case h_1 text =>
    cases leads
    exact .literal text h
  case h_2 | h_3 =>
    cases leads
    obtain ⟨script, _⟩ | ⟨name, rest, rfl, later⟩ := h
    · exact absurd rfl script
    · exact .reference name later
  case h_4 | h_5 => exact absurd rfl (opens .bracket)
  case h_6 | h_7 => exact absurd rfl closes
  case h_8 => cases leads

/-- What may stand next: the further lexemes of a block or a variable, or what its surroundings
admit. -/
theorem Phase.next_cases {phase next : Phase} {around : List Delimiter} {l : Lexeme}
    (leads : phase.next around l = some next) :
    l.enclose around = around ∧
      (∀ row, next.Remains around row → phase.Remains around (l :: row)) ∨
    InScript around ∧ phase.IsReady ∧ l.inScript = some next ∨
    ∃ outer, around = .quote :: outer ∧ l.inQuotes phase = some next := by
  unfold Phase.next at leads
  split at leads
  case h_1 text =>
    cases leads
    exact .inl ⟨rfl, fun row ⟨rest, same, later⟩ => ⟨text, rest, by rw [same], later⟩⟩
  case h_2 => cases leads
  case h_3 =>
    cases leads
    exact .inl ⟨rfl, fun row later => ⟨row, rfl, later⟩⟩
  case h_4 => cases leads
  case h_5 name =>
    cases leads
    exact .inl ⟨rfl, fun row later => .inr ⟨name, row, rfl, later⟩⟩
  case h_6 notBrace notBody _ _ _ =>
    by_cases quoted : around.head? = some .quote
    · rw [if_pos quoted] at leads
      obtain ⟨outer, rfl⟩ := List.head?_eq_some_iff.mp quoted
      exact .inr (.inr ⟨outer, rfl, leads⟩)
    · rw [if_neg quoted] at leads
      exact .inr (.inl ⟨quoted, ⟨notBrace, notBody⟩, leads⟩)

/-- A lexeme of a script, in front of what is left. -/
theorem Residue.inScript {phase next : Phase} {around : List Delimiter} {l : Lexeme}
    {rest : List Lexeme} (script : InScript around) (ready : phase.IsReady)
    (leads : l.inScript = some next) (left : Residue (l.enclose around) next rest) :
    Residue around phase (l :: rest) := by
  obtain ⟨outside, items⟩ := row_of_inScript script
  have whole {ls : List Lexeme} (row : Items outside ls) : phase.Remains around ls :=
    Phase.remains_of_row script ready fun behindLiteral => items behindLiteral ▸ row
  have other (same : l.enclose around = around) (opens : ∀ d : Delimiter, l ≠ d.opening)
      (closes : l ≠ .symbol .rightBracket) : Residue around phase (l :: rest) :=
    (same ▸ left).cons fun _ => Phase.remains_of_inScript script ready leads opens closes
  cases l with
  | number text | name text =>
    apply other rfl
    · rintro (_ | _) <;> simp [Delimiter.opening]
    · simp
  | symbol s =>
    cases s
    case leftBracket =>
      cases leads
      exact Residue.enclosed (d := .bracket) left fun inner row inside others =>
        whole (.bracket inside (items false ▸ others))
    case leftQuote =>
      cases leads
      exact Residue.enclosed (d := .quote) left fun inner row inside others =>
        whole (.quote inside (items false ▸ others))
    case rightBracket =>
      cases leads
      rcases around with _ | ⟨_ | _, outer⟩
      · exact left.cons fun row others => Phase.remains_of_row script ready fun _ =>
          .strayBracket others
      · exact ⟨[], rest, rfl, whole .nil, left⟩
      · exact absurd rfl script
    case rightQuote | endOfFile => cases leads
    all_goals
      apply other rfl
      · rintro (_ | _) <;> simp [Delimiter.opening]
      · simp

/-- A lexeme between quotes, in front of what is left. -/
theorem Residue.inQuotes {phase next : Phase} {outer : List Delimiter} {l : Lexeme}
    {rest : List Lexeme} (leads : l.inQuotes phase = some next)
    (left : Residue (l.enclose (.quote :: outer)) next rest) :
    Residue (.quote :: outer) phase (l :: rest) := by
  have complete : phase = .whole ∨ phase = .literal := by
    unfold Lexeme.inQuotes at leads
    split at leads
    all_goals first | exact .inl rfl | exact .inr rfl | cases leads
  have other (same : l.enclose (.quote :: outer) = .quote :: outer)
      (opens : ∀ d : Delimiter, l ≠ d.opening) (closes : l ≠ .symbol .rightQuote) :
      Residue (.quote :: outer) phase (l :: rest) :=
    (same ▸ left).cons fun _ => Phase.remains_of_inQuotes leads opens closes
  cases l with
  | number text => rcases complete with rfl | rfl <;> cases leads
  | name text =>
    apply other rfl
    · rintro (_ | _) <;> simp [Delimiter.opening]
    · simp
  | symbol s =>
    cases s
    case leftBracket =>
      have next : next = .whole := by rcases complete with rfl | rfl <;> cases leads <;> rfl
      subst next
      refine Residue.enclosed (d := .bracket) left fun inner row inside others => ?_
      rcases complete with rfl | rfl
      · exact .substitution inside others
      · exact .substitution inside others
    case rightQuote =>
      have next : next = .whole := by rcases complete with rfl | rfl <;> cases leads <;> rfl
      subst next
      refine ⟨[], rest, rfl, ?_, left⟩
      rcases complete with rfl | rfl
      · exact .nil
      · exact .nil
    case dollar =>
      apply other rfl
      · rintro (_ | _) <;> simp [Delimiter.opening]
      · simp
    all_goals rcases complete with rfl | rfl <;> cases leads

/-- A stream that is well nested up to its end leaves no row open. -/
theorem WellNested.residue {phase : Phase} {around : List Delimiter} {ls : List Lexeme}
    (h : WellNested False phase around ls) : Residue around phase ls := by
  induction ls generalizing phase around with
  | nil => exact h.elim
  | cons l rest ih =>
    rcases h with ⟨rfl, rfl, ready, rfl, _⟩ | ⟨next, leads, later⟩
    · exact ⟨[], rfl, Phase.remains_of_row (by simp [InScript]) ready fun _ => .nil⟩
    have left := ih later
    rcases Phase.next_cases leads with ⟨unchanged, row⟩ | ⟨script, ready, admits⟩ |
      ⟨outer, rfl, admits⟩
    · exact (unchanged ▸ left).cons row
    · exact left.inScript script ready admits
    · exact left.inQuotes admits

/-- The tokens of a text without lexical faults are a row of items and the end of file. -/
theorem items_ofText {t : Text} {start : Position}
    (sound : (TokenStream.ofText t start).fault = none) :
    ∃ row, lexemes (TokenStream.ofText t start).tokens = row ++ [.symbol .endOfFile] ∧
      Items true row := by
  have nested := wellNested_ofText t start
  simp only [sound, ne_eq, not_true] at nested
  exact nested.residue

end TinyTcl
