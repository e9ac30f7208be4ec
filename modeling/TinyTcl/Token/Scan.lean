import TinyTcl.Diagnostic
import TinyTcl.Token.Piece
import TinyTcl.Token.Span

/-! The scan that cuts a script into pieces. One `step` reads the next token, or a gap, and says
what encloses the rest; `scan` repeats it to the end of the text. Nothing is lost (`sources_step`,
`sources_scan`): the pieces read, put together, are the text in front of the scan. A text without
lexical faults gives its tokens and one end of file; else the stream holds the tokens in front of the
fault, and the fault follows them. -/
namespace TinyTcl

/-- A delimiter that waits for its partner, with the number of characters in front of it. -/
inductive Enclosure where
  | bracket (opened : Nat)
  | quote (opened : Nat)
deriving DecidableEq, Repr

/-- What a text is cut into, and why and where (in characters from its start) the scan stopped
before the end, if it did. -/
structure Scanned where
  pieces : List Piece
  stopped : Option (LexicalFault × Nat)
deriving DecidableEq, Repr

/-- The same result with more pieces in front. -/
def Scanned.behind (pieces : List Piece) (s : Scanned) : Scanned :=
  { s with pieces := pieces ++ s.pieces }

namespace Scan

/-- The outcome of reading the next token or gap. -/
inductive Step where
  /-- The pieces read, the delimiters open after them, whether a command may begin there, and the
  rest of the text. -/
  | read (pieces : List Piece) (inside : List Enclosure) (fresh : Bool) (rest : Text)
  /-- The pieces in front of a fault, the fault, and the number of characters in front of the
  delimiter or character that it is about. -/
  | stop (pieces : List Piece) (fault : LexicalFault) (place : Nat)

/-- The symbols that are written as one character and change nothing in the scan
(`SINGLE_CHAR_TOKENS`). -/
def operator? : Char → Option Symbol
  | '+' => some .plus
  | '-' => some .minus
  | '*' => some .times
  | '/' => some .divide
  | '(' => some .leftParen
  | ')' => some .rightParen
  | '}' => some .rightBrace
  | _ => none

/-- A dollar sign and the name after it, if one follows (`Lexer.variable`). The name is never a
keyword. -/
def reference (rest : Text) : List Piece × Text :=
  match rest with
  | c :: _ =>
    if startsName c then
      ([.token (.symbol .dollar) ['$'], .token (.name (Span.word rest).1) (Span.word rest).1],
        (Span.word rest).2)
    else ([.token (.symbol .dollar) ['$']], rest)
  | [] => ([.token (.symbol .dollar) ['$']], rest)

/-- A number, or a word that starts with digits (`Lexer.number`). -/
def number (t : Text) : Piece × Text :=
  let (literal, rest) := Span.digits t
  let (tail, rest) := Span.word rest
  (if tail.isEmpty then .token (.number literal) literal
    else .token (.name (literal ++ tail)) (literal ++ tail), rest)

/-- A step in a script or a bracketed part of it (one round of `Lexer.scan`). A comment is read only
where a command may begin (`fresh`). -/
def scriptStep (inside : List Enclosure) (fresh : Bool) (place : Nat) (c : Char) (rest : Text) :
    Step :=
  if isSpacing c then .read [.gap [c]] inside fresh rest
  else if c = '\\' then
    match rest with
    | '\n' :: rest => .read [.gap ['\\', '\n']] inside fresh rest
    | _ => .stop [] (.unexpectedCharacter c) place
  else if c = '\n' then .read [.token (.symbol .endOfLine) [c]] inside true rest
  else if c = ';' then .read [.token (.symbol .semicolon) [c]] inside true rest
  else if c = '#' ∧ fresh = true then
    .read [.gap (c :: (Span.comment rest).1)] inside true (Span.comment rest).2
  else if c = '$' then .read (reference rest).1 inside false (reference rest).2
  else if c = '[' then
    .read [.token (.symbol .leftBracket) [c]] (.bracket place :: inside) true rest
  else if c = ']' then .read [.token (.symbol .rightBracket) [c]] inside.tail false rest
  else if c = '"' then .read [.token (.symbol .leftQuote) [c]] (.quote place :: inside) false rest
  else if c = '{' then
    match Span.body 0 rest with
    | some (body, rest) =>
      .read [.token (.symbol .leftBrace) [c], .token (.name body) body,
        .token (.symbol .rightBrace) ['}']] inside false rest
    | none => .stop [.token (.symbol .leftBrace) [c]] .missingBrace place
  else if isDigit c then .read [(number (c :: rest)).1] inside false (number (c :: rest)).2
  else if startsName c then
    let (word, rest) := Span.word (c :: rest)
    .read [.token (.ofWord word) word] inside false rest
  else
    match operator? c with
    | some s => .read [.token (.symbol s) [c]] inside false rest
    | none => .stop [] (.unexpectedCharacter c) place

/-- A step in a quoted string that was opened at `opened` (one round of `Lexer.quoted`). Its literal
text is a token only if something follows it. -/
def quoteStep (opened : Nat) (outer : List Enclosure) (place : Nat) (c : Char) (rest : Text) :
    Step :=
  if c = '"' then .read [.token (.symbol .rightQuote) [c]] outer false rest
  else if c = '[' then
    .read [.token (.symbol .leftBracket) [c]] (.bracket place :: .quote opened :: outer) true rest
  else
    match Span.literal (c :: rest) with
    | ([], _) => .read (reference rest).1 (.quote opened :: outer) false (reference rest).2
    | (_, []) => .stop [] .unterminatedString opened
    | (literal, next) =>
      .read [.token (.name (Text.unescape false literal)) literal] (.quote opened :: outer) false
        next

/-- Reads on from a character, `place` characters after the start. -/
def step (inside : List Enclosure) (fresh : Bool) (place : Nat) (c : Char) (rest : Text) : Step :=
  match inside with
  | .quote opened :: outer => quoteStep opened outer place c rest
  | _ => scriptStep inside fresh place c rest

theorem sources_reference (rest : Text) :
    Piece.sources (reference rest).1 ++ (reference rest).2 = '$' :: rest := by
  unfold reference
  split
  · split
    · simpa using Span.word_append _
    · rfl
  · rfl

theorem sources_reference_ne_nil (rest : Text) : Piece.sources (reference rest).1 ≠ [] := by
  unfold reference
  split
  · split <;> simp
  · simp

theorem source_number (t : Text) : (number t).1.source ++ (number t).2 = t := by
  have digits := Span.digits_append t
  have tail := Span.word_append (Span.digits t).2
  simp only [number]
  split
  · next h => simp_all [List.isEmpty_iff]
  · simp_all [List.append_assoc]

theorem source_number_ne_nil {c : Char} {t : Text} (h : isDigit c = true) :
    (number (c :: t)).1.source ≠ [] := by
  have digits : (Span.digits (c :: t)).1 ≠ [] := by
    unfold Span.digits
    split
    · split <;> simp [h]
    · simp [h]
  simp only [number]
  split <;> simp [digits]

theorem sources_scriptStep {inside inside' : List Enclosure} {fresh fresh' : Bool} {place : Nat}
    {c : Char} {rest rest' : Text} {pieces : List Piece}
    (h : scriptStep inside fresh place c rest = .read pieces inside' fresh' rest') :
    Piece.sources pieces ++ rest' = c :: rest ∧ Piece.sources pieces ≠ [] := by
  revert h
  fun_cases scriptStep inside fresh place c rest
  all_goals intro h
  all_goals try cases h
  all_goals try simp [Span.comment_append]
  case case2.refl backslash => exact backslash.symm
  case case7.refl dollar =>
    exact dollar ▸ ⟨sources_reference rest, sources_reference_ne_nil rest⟩
  case case11.refl body => exact Span.body_append body
  case case13.refl digit => exact ⟨source_number (c :: rest), source_number_ne_nil digit⟩
  case case14.refl first _ taken =>
    have whole := Span.word_append (c :: rest)
    have nonempty : (Span.word (c :: rest)).1 ≠ [] := by
      simp [Span.word, continuesName_of_startsName first]
    rw [taken] at whole nonempty
    exact ⟨whole, nonempty⟩

theorem sources_quoteStep {opened : Nat} {outer inside' : List Enclosure} {fresh' : Bool}
    {place : Nat} {c : Char} {rest rest' : Text} {pieces : List Piece}
    (h : quoteStep opened outer place c rest = .read pieces inside' fresh' rest') :
    Piece.sources pieces ++ rest' = c :: rest ∧ Piece.sources pieces ≠ [] := by
  have whole := Span.literal_append (c :: rest)
  revert h
  fun_cases quoteStep opened outer place c rest
  all_goals intro h
  all_goals try cases h
  all_goals try simp
  case case3.refl notQuote notBracket _ literal =>
    have dollar := (Span.literal_eq_nil literal).resolve_left notQuote
    rw [(dollar.resolve_left notBracket).1]
    exact ⟨sources_reference rest, sources_reference_ne_nil rest⟩
  case case5.refl nonempty _ literal =>
    rw [literal] at whole
    exact ⟨whole, nonempty⟩

/-- A step reads at least one character and loses none. -/
theorem sources_step {inside inside' : List Enclosure} {fresh fresh' : Bool} {place : Nat}
    {c : Char} {rest rest' : Text} {pieces : List Piece}
    (h : step inside fresh place c rest = .read pieces inside' fresh' rest') :
    Piece.sources pieces ++ rest' = c :: rest ∧ Piece.sources pieces ≠ [] := by
  unfold step at h
  split at h
  · exact sources_quoteStep h
  · exact sources_scriptStep h

theorem isPlain_reference (rest : Text) : ∀ p ∈ (reference rest).1, p.IsPlain := by
  unfold reference
  split
  · split
    · next starts =>
      simp [Piece.IsPlain, Piece.opensBlock, Span.word, continuesName_of_startsName starts]
    · simp [Piece.IsPlain, Piece.opensBlock]
  · simp [Piece.IsPlain, Piece.opensBlock]

theorem isPlain_number {c : Char} {t : Text} (h : isDigit c = true) :
    (number (c :: t)).1.IsPlain := by
  refine ⟨source_number_ne_nil h, ?_⟩
  simp only [number]
  split <;> rfl

/-- What a word reads as opens no block. -/
theorem opensBlock_ofWord (t s : Text) :
    (Piece.token (.ofWord t) s).opensBlock = false := by
  have other := Lexeme.ofWord_ne_symbol (s := .leftBrace) rfl t
  unfold Piece.opensBlock
  split
  · simp_all
  · rfl

theorem opensBlock_operator {c : Char} {s : Symbol} (h : operator? c = some s) (t : Text) :
    (Piece.token (.symbol s) t).opensBlock = false := by
  unfold operator? at h
  split at h <;> cases h <;> rfl

/-- A step reads plain pieces or a block. -/
theorem isPlain_of_step {inside inside' : List Enclosure} {fresh fresh' : Bool} {place : Nat}
    {c : Char} {rest rest' : Text} {pieces : List Piece}
    (h : step inside fresh place c rest = .read pieces inside' fresh' rest') :
    (∀ p ∈ pieces, p.IsPlain) ∨ ∃ body, pieces =
      [.token (.symbol .leftBrace) ['{'], .token (.name body) body,
        .token (.symbol .rightBrace) ['}']] := by
  have whole := (sources_step h).2
  revert h
  unfold step
  split
  · next opened outer =>
    fun_cases quoteStep opened outer place c rest
    all_goals intro h
    all_goals try cases h
    all_goals try simp [Piece.IsPlain, Piece.opensBlock]
    case case3.refl => exact .inl (isPlain_reference rest)
    case case5.refl nonempty _ _ => exact nonempty
  · fun_cases scriptStep inside fresh place c rest
    all_goals intro h
    all_goals try cases h
    all_goals try simp [Piece.IsPlain, Piece.opensBlock]
    case h_2.case7.refl => exact .inl (isPlain_reference rest)
    case h_2.case11.refl brace _ _ => exact brace
    case h_2.case13.refl digit => exact isPlain_number digit
    case h_2.case14.refl => exact ⟨by simpa using whole, opensBlock_ofWord _ _⟩
    case h_2.case15.refl found => exact opensBlock_operator found _

/-- Where a step stops, it has read nothing or the opening brace of a block. -/
theorem pieces_of_stop {inside : List Enclosure} {fresh : Bool} {place place' : Nat} {c : Char}
    {rest : Text} {pieces : List Piece} {fault : LexicalFault}
    (h : step inside fresh place c rest = .stop pieces fault place') :
    pieces = [] ∨ pieces = [.token (.symbol .leftBrace) ['{']] ∧ c = '{' := by
  revert h
  unfold step
  split
  · next opened outer =>
    fun_cases quoteStep opened outer place c rest
    all_goals intro h
    all_goals cases h
    all_goals simp
  · fun_cases scriptStep inside fresh place c rest
    all_goals intro h
    all_goals cases h
    all_goals simp
    assumption

/-- What is left after a step is shorter. -/
theorem length_lt_of_step {inside inside' : List Enclosure} {fresh fresh' : Bool} {place : Nat}
    {c : Char} {rest rest' : Text} {pieces : List Piece}
    (h : step inside fresh place c rest = .read pieces inside' fresh' rest') :
    rest'.length < (c :: rest).length := by
  have ⟨whole, nonempty⟩ := sources_step h
  have := List.length_pos_iff.mpr nonempty
  rw [← whole, List.length_append]
  omega

end Scan

/-- Cuts a text into pieces (`Lexer.scan`, with the calls of `Lexer.substitution` and `Lexer.quoted`
as `inside`). The delimiters in `inside` are open in front of the text, innermost first; `fresh`
says whether a command may begin at once; `place` characters stand in front. -/
def scan (inside : List Enclosure) (fresh : Bool) (place : Nat) : Text → Scanned
  | [] =>
    match inside with
    | [] => ⟨[], none⟩
    | .bracket opened :: _ => ⟨[], some (.missingBracket, opened)⟩
    | .quote opened :: _ => ⟨[], some (.unterminatedString, opened)⟩
  | c :: rest =>
    match _h : Scan.step inside fresh place c rest with
    | .read pieces inside fresh rest =>
      (scan inside fresh (place + (Piece.sources pieces).length) rest).behind pieces
    | .stop pieces fault place => ⟨pieces, some (fault, place)⟩
termination_by t => t.length
decreasing_by exact Scan.length_lt_of_step _h

/-- A whole script, read from its start. -/
def Scanned.ofText (t : Text) : Scanned := scan [] true 0 t

/-- A scan that reaches the end has cut the whole text into pieces. -/
theorem sources_scan {inside : List Enclosure} {fresh : Bool} {place : Nat} {t : Text}
    (h : (scan inside fresh place t).stopped = none) :
    Piece.sources (scan inside fresh place t).pieces = t := by
  fun_induction scan inside fresh place t with
  | case1 => rfl
  | case2 | case3 => simp at h
  | case4 inside fresh place c rest pieces inside' fresh' rest' step ih =>
    simp only [Scanned.behind, Piece.sources_append] at h ⊢
    rw [ih h]
    exact (Scan.sources_step step).1
  | case5 => simp at h

/-! ### The tokens of a text -/

/-- Tokens in order, and the fault that follows them, if one does. -/
structure TokenStream where
  tokens : List Token
  fault : Option Diagnostic
deriving DecidableEq, Repr

namespace TokenStream

/-- The tokens of a text that starts at a place (`Lexer.tokenize`). -/
def ofText (t : Text) (start : Position) : TokenStream :=
  let scanned := Scanned.ofText t
  let tokens := Piece.tokensFrom start scanned.pieces
  match scanned.stopped with
  | none => ⟨tokens ++ [.ofSymbol .endOfFile (start.after t)], none⟩
  | some (fault, place) =>
    ⟨tokens, some (.ofCause (.lexical fault) (start.after (t.take place)))⟩

/-- The same stream without the ends of lines, as in a braced expression. -/
def joinLines (s : TokenStream) : TokenStream :=
  { s with tokens := s.tokens.filter fun t => t.lexeme != .symbol .endOfLine }

end TokenStream
end TinyTcl
