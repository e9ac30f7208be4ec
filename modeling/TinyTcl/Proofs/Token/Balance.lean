import TinyTcl.Proofs.Token.Cut

/-! The tokens of a text are well nested. A stream is read lexeme by lexeme in a context: the
delimiters that are open, and what was read last (`Phase.next`). What the scan reads, this machine
reads to the end or to the fault (`wellNested_ofText`), also where the ends of lines are left out
(`WellNested.filter`). -/
namespace TinyTcl

/-- What was read last, as far as it bears on what may follow. -/
inductive Phase where
  /-- Something that is complete. -/
  | whole
  /-- A literal part of a quoted string. -/
  | literal
  /-- A dollar sign. -/
  | dollar
  /-- The opening brace of a block. -/
  | brace
  /-- The body of a block. -/
  | body
deriving DecidableEq

/-- The phase behind a lexeme of a script; none if the lexeme may not stand there. A name that
stands alone spells no keyword. -/
def Lexeme.inScript : Lexeme → Option Phase
  | name t => if keyword? t = none then some .whole else none
  | symbol .leftBrace => some .brace
  | symbol .dollar => some .dollar
  | symbol .rightQuote | symbol .endOfFile => none
  | _ => some .whole

/-- The phase behind a lexeme directly between quotes; none if the lexeme may not stand there. No
two literal parts stand next to each other. -/
def Lexeme.inQuotes : Phase → Lexeme → Option Phase
  | .whole, name _ => some .literal
  | .whole, symbol .dollar | .literal, symbol .dollar => some .dollar
  | .whole, symbol .leftBracket | .literal, symbol .leftBracket => some .whole
  | .whole, symbol .rightQuote | .literal, symbol .rightQuote => some .whole
  | _, _ => none

/-- The phase behind a lexeme between some delimiters; none if the lexeme may not stand there. -/
def Phase.next (around : List Delimiter) : Phase → Lexeme → Option Phase
  | brace, .name _ => some body
  | brace, _ => none
  | body, .symbol .rightBrace => some whole
  | body, _ => none
  | dollar, .name _ => some whole
  | phase, l => if around.head? = some .quote then l.inQuotes phase else l.inScript

/-- Whether no block has been begun. -/
def Phase.IsReady (phase : Phase) : Prop := phase ≠ .brace ∧ phase ≠ .body

/-- Lexemes that stand well nested behind a phase, between some delimiters: up to an end of file
where nothing is open, or, if the stream is `cut` short, up to anywhere. -/
def WellNested (cut : Prop) : Phase → List Delimiter → List Lexeme → Prop
  | _, _, [] => cut
  | phase, around, l :: rest =>
    (l = .symbol .endOfFile ∧ rest = [] ∧ phase.IsReady ∧ around = [] ∧ ¬ cut) ∨
    ∃ next, phase.next around l = some next ∧ WellNested cut next (l.enclose around) rest

/-- Whether some delimiters are those around a piece of script, not of a quoted string. -/
def InScript (around : List Delimiter) : Prop := around.head? ≠ some .quote

section Steps

variable {cut : Prop} {phase : Phase} {around : List Delimiter} {l : Lexeme} {rest : List Lexeme}

/-- In a script a lexeme leads to the phase that it always leads to. -/
theorem Phase.next_of_inScript {next : Phase} (script : InScript around) (ready : phase.IsReady)
    (leads : l.inScript = some next) : phase.next around l = some next := by
  cases phase with
  | brace => exact absurd rfl ready.1
  | body => exact absurd rfl ready.2
  | whole | literal => simp only [Phase.next, if_neg script, leads]
  | dollar =>
    cases l with
    | name t =>
      by_cases plain : keyword? t = none
      · simp only [Lexeme.inScript, plain, if_true] at leads
        exact leads
      · simp only [Lexeme.inScript, plain, if_false] at leads
        cases leads
    | number t => simp only [Phase.next, if_neg script, leads]
    | symbol s => simp only [Phase.next, if_neg script, leads]

/-- In a script anything may follow a dollar sign that may follow something complete. -/
theorem Phase.next_of_whole {next : Phase} (script : InScript around) (ready : phase.IsReady)
    (leads : whole.next around l = some next) : phase.next around l = some next := by
  apply next_of_inScript script ready
  simpa only [Phase.next, if_neg script] using leads

/-- The end of file is no part of anything. -/
@[simp] theorem Phase.next_endOfFile : phase.next around (.symbol .endOfFile) = none := by
  cases phase <;> simp [Phase.next, Lexeme.inQuotes, Lexeme.inScript]

private theorem WellNested.of_whole (script : InScript around) (ready : phase.IsReady)
    {ls : List Lexeme} (h : WellNested cut .whole around ls) :
    WellNested cut phase around ls := by
  cases ls with
  | nil => exact h
  | cons l rest =>
    rcases h with ⟨last, none, _, outside, sound⟩ | ⟨next, leads, later⟩
    · exact .inl ⟨last, none, ready, outside, sound⟩
    · exact .inr ⟨next, Phase.next_of_whole script ready leads, later⟩

end Steps

/-! ### The scan -/

namespace Scan

/-- What a scan may have read last, by what it stands in. A literal part reaches as far as it can,
so no other one follows it. -/
def Admits (phase : Phase) (inside : List Enclosure) (t : Text) : Prop :=
  match inside with
  | .quote _ :: _ => phase = .whole ∨ phase = .literal ∧ (Span.literal t).1 = []
  | _ => phase.IsReady

private theorem isReady_whole : Phase.whole.IsReady := by simp [Phase.IsReady]

private theorem isReady_dollar : Phase.dollar.IsReady := by simp [Phase.IsReady]

private theorem admits_whole (inside : List Enclosure) (t : Text) : Admits .whole inside t := by
  unfold Admits
  split
  · exact .inl rfl
  · exact isReady_whole

private theorem admits_of_isReady {phase : Phase} {inside : List Enclosure}
    (script : InScript (inside.map Enclosure.delimiter)) (ready : phase.IsReady) (t : Text) :
    Admits phase inside t := by
  unfold Admits
  split
  · exact absurd rfl script
  · exact ready

private theorem Admits.isReady {phase : Phase} {inside : List Enclosure} {t : Text}
    (h : Admits phase inside t) : phase.IsReady := by
  unfold Admits at h
  split at h
  · rcases h with rfl | ⟨rfl, _⟩
    · exact isReady_whole
    · simp [Phase.IsReady]
  · exact h

theorem inScript_iff {inside : List Enclosure} :
    InScript (inside.map Enclosure.delimiter) ↔
      ∀ opened outer, inside = .quote opened :: outer → False := by
  rcases inside with _ | ⟨_ | opened, outer⟩
  · simp [InScript]
  · simp [InScript, Enclosure.delimiter]
  · simp [InScript, Enclosure.delimiter]

/-- Behind a literal part of a string no other literal part can be read. -/
theorem literal_literal (t : Text) : (Span.literal (Span.literal t).2).1 = [] := by
  fun_induction Span.literal t with
  | case1 => rfl
  | case2 => rfl
  | case3 => rfl
  | case4 c rest ih => exact ih
  | case5 c rest starts => simp [Span.literal, starts]
  | case6 c rest starts ih => exact ih
  | case7 c rest _ _ _ _ ih => exact ih

/-- Lexemes that lead from one phase to another, and from some open delimiters to others. -/
def Leads (phase : Phase) (around : List Delimiter) (ls : List Lexeme) (next : Phase)
    (inner : List Delimiter) : Prop :=
  ∀ (cut : Prop) (later : List Lexeme), WellNested cut next inner later →
    WellNested cut phase around (ls ++ later)

private theorem Leads.nil {phase : Phase} {around : List Delimiter} :
    Leads phase around [] phase around :=
  fun _ _ later => later

private theorem Leads.cons {phase middle next : Phase} {around inner : List Delimiter} {l : Lexeme}
    {ls : List Lexeme} (first : phase.next around l = some middle)
    (others : Leads middle (l.enclose around) ls next inner) :
    Leads phase around (l :: ls) next inner :=
  fun cut later nested => .inr ⟨middle, first, others cut later nested⟩

private theorem inScript_operator {c : Char} {s : Symbol} (h : operator? c = some s) :
    (Lexeme.symbol s).inScript = some .whole := by
  unfold operator? at h
  split at h <;> cases h <;> rfl

private theorem inScript_ofWord (t : Text) : (Lexeme.ofWord t).inScript = some .whole := by
  unfold Lexeme.ofWord
  split
  · next s found =>
    have keyword := List.find?_some found
    simp only [Bool.and_eq_true] at keyword
    cases s <;> first | rfl | cases keyword.1
  · next plain => simp only [Lexeme.inScript, plain, if_true]

/-- No keyword starts with a digit. -/
theorem keyword?_of_isDigit {c : Char} (digit : isDigit c = true) (t : Text) :
    keyword? (c :: t) = none := by
  cases found : keyword? (c :: t) with
  | none => rfl
  | some s =>
    have spelled := Lexeme.text_keyword? found
    have keyword := List.find?_some found
    simp only [Bool.and_eq_true] at keyword
    cases s
    case puts | expr | unset | set =>
      obtain ⟨rfl, _⟩ := List.cons.inj spelled
      revert digit
      decide
    all_goals cases keyword.1

private theorem inScript_number {c : Char} (digit : isDigit c = true) (rest : Text) :
    ∃ l, Piece.lexemes [(number (c :: rest)).1] = [l] ∧ l.inScript = some .whole ∧
      ∀ around, l.enclose around = around := by
  have whole := source_number (c :: rest)
  have nonempty := source_number_ne_nil digit (t := rest)
  revert whole nonempty
  simp only [number]
  split
  · exact fun _ _ => ⟨_, rfl, rfl, fun _ => rfl⟩
  · intro whole nonempty
    refine ⟨_, rfl, ?_, fun _ => rfl⟩
    simp only [Piece.source_token] at whole nonempty
    obtain ⟨d, others, starts⟩ := List.exists_cons_of_ne_nil nonempty
    rw [starts] at whole ⊢
    obtain ⟨rfl, _⟩ := List.cons.inj whole
    simp only [Lexeme.inScript, keyword?_of_isDigit digit, if_true]

/-- A dollar sign is read with the name behind it. -/
theorem leads_reference_name {phase : Phase} {around : List Delimiter} {c : Char}
    (first : phase.next around (.symbol .dollar) = some .dollar) (starts : startsName c = true)
    (rest : Text) : Leads phase around (Piece.lexemes (reference (c :: rest)).1) .whole around := by
  simp only [reference, starts, if_true, Piece.lexemes_token, Piece.lexemes_nil]
  exact .cons first (.cons rfl .nil)

private theorem leads_reference {phase : Phase} {around : List Delimiter} (rest : Text)
    (first : phase.next around (.symbol .dollar) = some .dollar) :
    ∃ next : Phase, next.IsReady ∧
      Leads phase around (Piece.lexemes (reference rest).1) next around := by
  cases rest with
  | nil => exact ⟨.dollar, isReady_dollar, .cons first .nil⟩
  | cons c behind =>
    by_cases starts : startsName c = true
    · exact ⟨.whole, isReady_whole, leads_reference_name first starts behind⟩
    · refine ⟨.dollar, isReady_dollar, ?_⟩
      simp only [reference, starts]
      exact .cons first .nil

/-- A step in a script reads what may stand there. -/
theorem leads_scriptStep {phase : Phase} {inside inside' : List Enclosure} {fresh fresh' : Bool}
    {place : Nat} {c : Char} {rest rest' : Text} {pieces : List Piece}
    (script : InScript (inside.map Enclosure.delimiter)) (ready : phase.IsReady)
    (h : scriptStep inside fresh place c rest = .read pieces inside' fresh' rest') :
    ∃ next, Admits next inside' rest' ∧ Leads phase (inside.map Enclosure.delimiter)
      (Piece.lexemes pieces) next (inside'.map Enclosure.delimiter) := by
  have unchanged : Admits phase inside rest' := admits_of_isReady script ready rest'
  have single {l : Lexeme} (leads : l.inScript = some .whole)
      (same : l.enclose (inside.map Enclosure.delimiter) = inside'.map Enclosure.delimiter) :
      ∃ next, Admits next inside' rest' ∧ Leads phase (inside.map Enclosure.delimiter) [l] next
        (inside'.map Enclosure.delimiter) :=
    ⟨.whole, admits_whole inside' rest',
      .cons (Phase.next_of_inScript script ready leads) (same ▸ .nil)⟩
  have around := enclosing_scriptStep h
  revert h around
  fun_cases scriptStep inside fresh place c rest
  all_goals intro h
  all_goals cases h
  all_goals intro around
  case case1.refl | case2.refl | case6.refl => exact ⟨phase, unchanged, .nil⟩
  case case7.refl =>
    have first := Phase.next_of_inScript script ready (l := .symbol .dollar) rfl
    obtain ⟨next, ready', leads⟩ := leads_reference rest first
    exact ⟨next, admits_of_isReady script ready' _, leads⟩
  case case11.refl =>
    have first := Phase.next_of_inScript script ready (l := .symbol .leftBrace) rfl
    exact ⟨.whole, admits_whole _ _, .cons first (.cons rfl (.cons rfl .nil))⟩
  case case13.refl digit =>
    obtain ⟨l, lexemes, leads, unchanged⟩ := inScript_number digit rest
    rw [lexemes]
    exact single leads (unchanged _)
  case case14.refl => exact single (inScript_ofWord _) around
  case case15.refl found => exact single (inScript_operator found) around
  all_goals exact single rfl around

/-- A step in a quoted string reads what may stand there. -/
theorem leads_quoteStep {phase : Phase} {opened : Nat} {outer inside' : List Enclosure}
    {fresh' : Bool} {place : Nat} {c : Char} {rest rest' : Text} {pieces : List Piece}
    (admits : Admits phase (.quote opened :: outer) (c :: rest))
    (h : quoteStep opened outer place c rest = .read pieces inside' fresh' rest') :
    ∃ next, Admits next inside' rest' ∧ Leads phase (.quote :: outer.map Enclosure.delimiter)
      (Piece.lexemes pieces) next (inside'.map Enclosure.delimiter) := by
  have literal := literal_literal (c :: rest)
  revert h literal
  fun_cases quoteStep opened outer place c rest
  all_goals intro h
  all_goals cases h
  all_goals intro literal
  case case1.refl =>
    refine ⟨.whole, admits_whole _ _, .cons ?_ .nil⟩
    rcases admits with rfl | ⟨rfl, _⟩ <;> rfl
  case case2.refl =>
    refine ⟨.whole, admits_whole _ _, .cons ?_ .nil⟩
    rcases admits with rfl | ⟨rfl, _⟩ <;> rfl
  case case3.refl notQuote notBracket _ ended =>
    have first : phase.next (.quote :: outer.map Enclosure.delimiter) (.symbol .dollar) =
        some .dollar := by
      rcases admits with rfl | ⟨rfl, _⟩ <;> rfl
    obtain ⟨_, d, behind, rfl, starts⟩ :=
      ((Span.literal_eq_nil ended).resolve_left notQuote).resolve_left notBracket
    exact ⟨.whole, admits_whole _ _, leads_reference_name first starts behind⟩
  case case5.refl nonempty _ ends =>
    rw [ends] at literal
    rcases admits with rfl | ⟨_, none⟩
    · exact ⟨.literal, .inr ⟨rfl, literal⟩, .cons rfl .nil⟩
    · rw [ends] at none
      exact absurd none nonempty

/-- A step reads what may stand there. -/
theorem leads_step {phase : Phase} {inside inside' : List Enclosure} {fresh fresh' : Bool}
    {place : Nat} {c : Char} {rest rest' : Text} {pieces : List Piece}
    (admits : Admits phase inside (c :: rest))
    (h : step inside fresh place c rest = .read pieces inside' fresh' rest') :
    ∃ next, Admits next inside' rest' ∧ Leads phase (inside.map Enclosure.delimiter)
      (Piece.lexemes pieces) next (inside'.map Enclosure.delimiter) := by
  unfold step at h
  split at h
  · exact leads_quoteStep admits h
  · next script =>
    have script : InScript (inside.map Enclosure.delimiter) := inScript_iff.mpr script
    exact leads_scriptStep script admits.isReady h

/-- Where a step stops, what it has read may stand there. -/
theorem leads_stop {phase : Phase} {inside : List Enclosure} {fresh : Bool} {place place' : Nat}
    {c : Char} {rest : Text} {pieces : List Piece} {fault : LexicalFault}
    (admits : Admits phase inside (c :: rest))
    (h : step inside fresh place c rest = .stop pieces fault place') :
    ∃ next around, Leads phase (inside.map Enclosure.delimiter) (Piece.lexemes pieces) next
      around := by
  rcases pieces_of_stop h with rfl | ⟨rfl, _⟩
  · exact ⟨phase, _, .nil⟩
  · have script : InScript (inside.map Enclosure.delimiter) := by
      apply inScript_iff.mpr
      rintro opened outer rfl
      change quoteStep opened outer place c rest = _ at h
      revert h
      fun_cases quoteStep opened outer place c rest
      all_goals
        intro h
        cases h
    exact ⟨.brace, _, .cons (Phase.next_of_inScript script admits.isReady rfl) .nil⟩

end Scan

/-- What a scan reads is well nested, behind everything that it admits. -/
theorem wellNested_scan {phase : Phase} {inside : List Enclosure} {fresh : Bool} {place : Nat}
    {t : Text} (admits : Scan.Admits phase inside t) :
    WellNested ((scan inside fresh place t).stopped ≠ none) phase
      (inside.map Enclosure.delimiter) (Piece.lexemes (scan inside fresh place t).pieces ++
        if (scan inside fresh place t).stopped = none then [.symbol .endOfFile] else []) := by
  fun_induction scan inside fresh place t generalizing phase with
  | case1 => exact .inl ⟨rfl, rfl, admits.isReady, rfl, by simp⟩
  | case2 | case3 => exact Option.some_ne_none _
  | case4 inside fresh place c rest pieces inside' fresh' rest' step ih =>
    obtain ⟨next, admits, leads⟩ := Scan.leads_step admits step
    rw [Scanned.behind, Piece.lexemes_append, List.append_assoc]
    exact leads _ _ (ih admits)
  | case5 inside fresh place c rest pieces fault place' step =>
    obtain ⟨next, around, leads⟩ := Scan.leads_stop admits step
    exact leads _ _ (Option.some_ne_none _)

/-- The tokens of a text are well nested, also in front of a fault. -/
theorem wellNested_ofText (t : Text) (start : Position) :
    WellNested ((TokenStream.ofText t start).fault ≠ none) .whole []
      (lexemes (TokenStream.ofText t start).tokens) := by
  rw [lexemes_ofText, ne_eq, fault_ofText]
  exact wellNested_scan (Scan.admits_whole [] t)

/-! ### Leaving out line ends -/

theorem Phase.next_endOfLine {phase next : Phase} {around : List Delimiter}
    (h : phase.next around (.symbol .endOfLine) = some next) :
    InScript around ∧ phase.IsReady ∧ next = .whole := by
  have ready : phase.IsReady := by
    constructor
    · rintro rfl
      cases h
    · rintro rfl
      cases h
  by_cases quoted : around.head? = some .quote
  · cases phase <;> simp [Phase.next, quoted, Lexeme.inQuotes] at h
  · have leads := Phase.next_of_inScript quoted ready (l := .symbol .endOfLine) rfl
    exact ⟨quoted, ready, Option.some.inj (h.symm.trans leads)⟩

/-- Without the ends of lines well nested lexemes are still well nested. -/
theorem WellNested.filter {cut : Prop} {phase : Phase} {around : List Delimiter}
    {ls : List Lexeme} (h : WellNested cut phase around ls) :
    WellNested cut phase around (ls.filter (· != .symbol .endOfLine)) := by
  induction ls generalizing phase around with
  | nil => exact h
  | cons l rest ih =>
    by_cases lineEnd : l = .symbol .endOfLine
    · subst lineEnd
      rcases h with ⟨last, _⟩ | ⟨next, leads, later⟩
      · cases last
      · obtain ⟨script, ready, rfl⟩ := Phase.next_endOfLine leads
        exact (ih later).of_whole script ready
    · rw [List.filter_cons_of_pos (by simpa using lineEnd)]
      rcases h with ⟨last, rfl, others⟩ | ⟨next, leads, later⟩
      · exact .inl ⟨last, rfl, others⟩
      · exact .inr ⟨next, leads, ih later⟩

end TinyTcl
