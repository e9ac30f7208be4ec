import TinyTcl.Proofs.Token.Nesting

/-! The tokens of a text tile it. Each token covers an extent of the text, in order; it stands at the
place of the first character of its extent, and its text is what the extent says. Between two
extents there are only blanks, joined lines and comments, and directly between quotes there is
nothing at all. Main statement: `exists_tiling`.

The proof is in two halves that meet in `Piece.Laid`, the grammar of the pieces of a text. A scan
yields pieces of that grammar (`laid_scan`), whatever was read before; and pieces of that grammar
tile the text they are cut from (`tiles_of_laid`), wherever it starts. -/
namespace TinyTcl

/-! ### What may stand between tokens -/

/-- Whether what follows some lexemes stands directly between quotes. -/
def InQuote (seen : List Lexeme) : Prop := (enclosing [] seen).head? = some .quote

/-- Whether a command may begin behind some lexemes. -/
def BeginsCommand (seen : List Lexeme) : Prop :=
  ∀ l, seen.getLast? = some l → l.isSeparator = true ∨ l = .symbol .leftBracket

/-- Whether a lexeme stands where a line or the text ends. -/
def EndsLine (l : Lexeme) : Prop := l = .symbol .endOfLine ∨ l = .symbol .endOfFile

/-- The characters of a comment behind its sign. They are in one line, except that a backslash
takes the end of the line in. -/
inductive IsComment : Text → Prop where
  | nil : IsComment []
  | char {c : Char} {t : Text} : c ≠ '\n' → IsComment t → IsComment (c :: t)
  | joined {t : Text} : IsComment t → IsComment ('\\' :: '\n' :: t)

/-- What may stand between the lexemes seen and the next one: blanks and joined lines, and where a
command may begin, a comment up to the end of its line. -/
inductive IsGap (seen : List Lexeme) (next : Lexeme) : Text → Prop where
  | nil : IsGap seen next []
  | blank {c : Char} {t : Text} : isSpacing c = true → IsGap seen next t → IsGap seen next (c :: t)
  | joined {t : Text} : IsGap seen next t → IsGap seen next ('\\' :: '\n' :: t)
  | comment {t : Text} : BeginsCommand seen → IsComment t → EndsLine next →
      IsGap seen next ('#' :: t)

/-! ### Tokens on a text -/

/-- Whether a lexeme is a literal part of a quoted string: a name directly between quotes that no
dollar sign stands in front of. -/
def IsLiteral (seen : List Lexeme) : Lexeme → Prop
  | .name _ => InQuote seen ∧ seen.getLast? ≠ some (.symbol .dollar)
  | _ => False

/-- Whether characters are a spelling of a lexeme behind others. A literal part of a string is
spelled with backslashes, everything else as it is. -/
def Spells (seen : List Lexeme) (l : Lexeme) (s : Text) : Prop :=
  (IsLiteral seen l → l.text = Text.unescape false s) ∧ (¬ IsLiteral seen l → l.text = s)

/-- The characters of a text from `start` up to, not including, `stop`. -/
structure Extent where
  start : Nat
  stop : Nat
deriving DecidableEq, Repr

/-- The characters in an extent. -/
def Text.within (t : Text) (e : Extent) : Text := (t.take e.stop).drop e.start

/-- A token lies on an extent of a text, which starts at `start` and has been read up to
`offset`. -/
structure Lies (t : Text) (start : Position) (seen : List Lexeme) (offset : Nat) (token : Token)
    (e : Extent) : Prop where
  behind : offset ≤ e.start
  forward : e.start ≤ e.stop
  inside : e.stop ≤ t.length
  place : token.position = start.after (t.take e.start)
  gap : IsGap seen token.lexeme (t.within ⟨offset, e.start⟩)
  close : InQuote seen → e.start = offset
  spelled : Spells seen token.lexeme (t.within e)

/-- Tokens lie one behind the other on a text, from `offset` to its end. -/
def Tiles (t : Text) (start : Position) : List Lexeme → Nat → List (Token × Extent) → Prop
  | _, offset, [] => offset = t.length
  | seen, offset, (token, e) :: rest =>
    Lies t start seen offset token e ∧ Tiles t start (seen ++ [token.lexeme]) e.stop rest

/-- The grammar of the pieces of a text, behind the lexemes seen. -/
inductive Piece.Laid : List Lexeme → List Piece → Prop where
  | nil {seen : List Lexeme} : Laid seen []
  | blank {seen : List Lexeme} {c : Char} {rest : List Piece} : ¬ InQuote seen →
      isSpacing c = true → Laid seen rest → Laid seen (gap [c] :: rest)
  | joined {seen : List Lexeme} {rest : List Piece} : ¬ InQuote seen →
      Laid seen rest → Laid seen (gap ['\\', '\n'] :: rest)
  | comment {seen : List Lexeme} {t : Text} {rest : List Piece} : ¬ InQuote seen →
      BeginsCommand seen → IsComment t →
      (rest = [] ∨ ∃ s behind, rest = token (.symbol .endOfLine) s :: behind) →
      Laid seen rest → Laid seen (gap ('#' :: t) :: rest)
  | token {seen : List Lexeme} {l : Lexeme} {s : Text} {rest : List Piece} : Spells seen l s →
      l ≠ .symbol .endOfFile → Laid (seen ++ [l]) rest → Laid seen (token l s :: rest)

/-! ### A scan lays its pieces -/

private theorem isComment_comment (t : Text) : IsComment (Span.comment t).1 := by
  fun_induction Span.comment t with
  | case1 rest ih => exact .joined ih
  | case2 => exact .nil
  | case3 c rest _ other ih => exact .char other ih
  | case4 => exact .nil

/-- A comment ends where its line or the text does. -/
theorem comment_stops (t : Text) :
    (Span.comment t).2 = [] ∨ ∃ rest, (Span.comment t).2 = '\n' :: rest := by
  fun_induction Span.comment t with
  | case1 rest ih => exact ih
  | case2 rest => exact .inr ⟨rest, rfl⟩
  | case3 c rest _ _ ih => exact ih
  | case4 => exact .inl rfl

private theorem spells_symbol (seen : List Lexeme) (s : Symbol) : Spells seen (.symbol s) s.text :=
  ⟨fun literal => literal.elim, fun _ => rfl⟩

private theorem spells_of_text {seen : List Lexeme} {l : Lexeme} {s : Text}
    (outside : ¬ InQuote seen) (same : l.text = s) :
    Spells seen l s := by
  refine ⟨fun literal => ?_, fun _ => same⟩
  cases l with
  | name t => exact absurd literal.1 outside
  | number t => exact literal.elim
  | symbol s => exact literal.elim

namespace Scan

/-- What the lexemes read so far tell about the state of a scan. -/
structure Follows (seen : List Lexeme) (inside : List Enclosure) (fresh : Bool) : Prop where
  around : enclosing [] seen = inside.map Enclosure.delimiter
  named : InQuote seen → seen.getLast? ≠ some (.symbol .dollar)
  begins : fresh = true → BeginsCommand seen

theorem inQuote_iff {seen : List Lexeme} {inside : List Enclosure} {fresh : Bool}
    (h : Follows seen inside fresh) :
    InQuote seen ↔ ∃ opened outer, inside = .quote opened :: outer := by
  rw [InQuote, h.around]
  cases inside with
  | nil => simp
  | cons first outer => cases first <;> simp [Enclosure.delimiter]

private theorem laid_reference {seen : List Lexeme} {rest : Text} {tail : List Piece}
    (laid : Piece.Laid (seen ++ Piece.lexemes (reference rest).1) tail) :
    Piece.Laid seen ((reference rest).1 ++ tail) := by
  have dollar := spells_symbol seen .dollar
  cases rest with
  | nil => exact .token dollar (by simp) laid
  | cons c rest =>
    by_cases starts : startsName c = true
    · have name : Spells (seen ++ [.symbol .dollar]) (.name (Span.word (c :: rest)).1)
          (Span.word (c :: rest)).1 := ⟨fun literal => absurd (by simp) literal.2, fun _ => rfl⟩
      simp only [reference, starts, if_true] at laid ⊢
      exact .token dollar (by simp) (.token name (by simp) (by simpa using laid))
    · simp only [reference, starts] at laid ⊢
      exact .token dollar (by simp) laid

/-- A dollar sign between quotes is read with the name behind it. -/
theorem getLast_reference {c : Char} (starts : startsName c = true) (rest : Text)
    (seen : List Lexeme) :
    (seen ++ Piece.lexemes (reference (c :: rest)).1).getLast? ≠ some (.symbol .dollar) := by
  simp [reference, starts]

private theorem follows_scriptStep {seen : List Lexeme} {inside inside' : List Enclosure}
    {fresh fresh' : Bool} {place : Nat} {c : Char} {rest rest' : Text} {pieces : List Piece}
    (follows : Follows seen inside fresh) (script : ¬ InQuote seen)
    (h : scriptStep inside fresh place c rest = .read pieces inside' fresh' rest') :
    Follows (seen ++ Piece.lexemes pieces) inside' fresh' := by
  have around : enclosing [] (seen ++ Piece.lexemes pieces) = inside'.map Enclosure.delimiter := by
    rw [enclosing_append, follows.around, enclosing_scriptStep h]
  have outside (seen' : List Lexeme)
      (same : enclosing [] seen' = inside.map Enclosure.delimiter) : ¬ InQuote seen' := by
    rwa [InQuote, same, ← follows.around]
  revert h around
  fun_cases scriptStep inside fresh place c rest
  all_goals intro h
  all_goals cases h
  all_goals intro around
  case case1.refl | case2.refl => simpa using follows
  case case6.refl comment => simpa [comment.2] using follows
  all_goals refine ⟨around, ?_, ?_⟩
  all_goals try simp [BeginsCommand, Lexeme.isSeparator, Symbol.isSeparator]
  -- What is left opens nothing, and so stands outside of quotes as what came before does.
  all_goals exact fun quoted => absurd quoted (outside _ around)

private theorem follows_quoteStep {seen : List Lexeme} {opened : Nat}
    {outer inside' : List Enclosure} {fresh fresh' : Bool} {place : Nat} {c : Char}
    {rest rest' : Text} {pieces : List Piece}
    (follows : Follows seen (.quote opened :: outer) fresh)
    (h : quoteStep opened outer place c rest = .read pieces inside' fresh' rest') :
    Follows (seen ++ Piece.lexemes pieces) inside' fresh' := by
  have around : enclosing [] (seen ++ Piece.lexemes pieces) = inside'.map Enclosure.delimiter := by
    rw [enclosing_append, follows.around]
    exact enclosing_quoteStep h
  revert h around
  fun_cases quoteStep opened outer place c rest
  all_goals intro h
  all_goals cases h
  all_goals intro around
  all_goals refine ⟨around, ?_, ?_⟩
  all_goals try simp [BeginsCommand]
  case case3.refl.refine_1 notQuote notBracket _ literal =>
    obtain ⟨_, d, behind, rfl, starts⟩ :=
      ((Span.literal_eq_nil literal).resolve_left notQuote).resolve_left notBracket
    exact fun _ => by simpa using getLast_reference starts behind seen

/-- The state of a scan follows from the lexemes read. -/
theorem follows_step {seen : List Lexeme} {inside inside' : List Enclosure}
    {fresh fresh' : Bool} {place : Nat} {c : Char} {rest rest' : Text} {pieces : List Piece}
    (follows : Follows seen inside fresh)
    (h : step inside fresh place c rest = .read pieces inside' fresh' rest') :
    Follows (seen ++ Piece.lexemes pieces) inside' fresh' := by
  unfold step at h
  split at h
  · exact follows_quoteStep follows h
  · next script =>
    refine follows_scriptStep follows (fun quoted => ?_) h
    obtain ⟨opened, outer, same⟩ := (inQuote_iff follows).mp quoted
    exact script opened outer same

theorem text_number (t : Text) : ∃ l, (number t).1 = .token l (number t).1.source ∧
    l.text = (number t).1.source ∧ l ≠ .symbol .endOfFile := by
  simp only [number]
  split
  · exact ⟨_, rfl, rfl, by simp⟩
  · exact ⟨_, rfl, rfl, by simp⟩

private theorem text_operator {c : Char} {s : Symbol} (h : operator? c = some s) :
    s.text = [c] ∧ s ≠ .endOfFile := by
  unfold operator? at h
  split at h <;> cases h <;> exact ⟨rfl, by decide⟩

private theorem laid_scriptStep {seen : List Lexeme} {inside inside' : List Enclosure}
    {fresh fresh' : Bool} {place : Nat} {c : Char} {rest rest' : Text} {pieces tail : List Piece}
    (follows : Follows seen inside fresh) (script : ¬ InQuote seen)
    (h : scriptStep inside fresh place c rest = .read pieces inside' fresh' rest')
    (stops : inside' = inside → rest' = (Span.comment rest).2 →
      tail = [] ∨ ∃ s behind, tail = .token (.symbol .endOfLine) s :: behind)
    (laid : Piece.Laid (seen ++ Piece.lexemes pieces) tail) :
    Piece.Laid seen (pieces ++ tail) := by
  have plain {l : Lexeme} {s : Text} (same : l.text = s) := spells_of_text script same
  revert h stops laid
  fun_cases scriptStep inside fresh place c rest
  all_goals intro h
  all_goals cases h
  all_goals intro stops laid
  case case1.refl spacing =>
    exact .blank script spacing (by simpa using laid)
  case case2.refl => exact .joined script (by simpa using laid)
  case case6.refl comment =>
    exact comment.1 ▸ .comment script (follows.begins comment.2) (isComment_comment rest)
      (stops rfl rfl) (by simpa using laid)
  case case7.refl => exact laid_reference laid
  case case11.refl brace _ _ =>
    have outer : ¬ InQuote (seen ++ [.symbol .leftBrace]) := by
      rwa [InQuote, enclosing_append]
    exact .token (plain (brace ▸ rfl)) (by simp) (.token (spells_of_text outer rfl) (by simp)
      (.token (spells_symbol _ _) (by simp) (by simpa using laid)))
  case case13.refl =>
    obtain ⟨l, same, text, notEnd⟩ := text_number (c :: rest)
    rw [same] at laid ⊢
    exact .token (plain text) notEnd laid
  case case14.refl =>
    exact .token (plain (Lexeme.text_ofWord _)) (Lexeme.ofWord_ne_symbol rfl _) laid
  case case15.refl found =>
    obtain ⟨text, notEnd⟩ := text_operator found
    exact .token (plain text) (by simpa using notEnd) laid
  case case4.refl same | case5.refl same | case8.refl same | case9.refl same | case10.refl same =>
    exact .token (plain (same ▸ rfl)) (by simp) laid

private theorem laid_quoteStep {seen : List Lexeme} {opened : Nat} {outer inside' : List Enclosure}
    {fresh fresh' : Bool} {place : Nat} {c : Char} {rest rest' : Text} {pieces tail : List Piece}
    (follows : Follows seen (.quote opened :: outer) fresh)
    (h : quoteStep opened outer place c rest = .read pieces inside' fresh' rest')
    (laid : Piece.Laid (seen ++ Piece.lexemes pieces) tail) :
    Piece.Laid seen (pieces ++ tail) := by
  have quoted : InQuote seen := (inQuote_iff follows).mpr ⟨opened, outer, rfl⟩
  revert h laid
  fun_cases quoteStep opened outer place c rest
  all_goals intro h
  all_goals cases h
  all_goals intro laid
  case case1.refl quote => exact .token (quote ▸ spells_symbol seen .rightQuote) (by simp) laid
  case case2.refl bracket =>
    exact .token (bracket ▸ spells_symbol seen .leftBracket) (by simp) laid
  case case3.refl => exact laid_reference laid
  case case5.refl literal _ _ =>
    exact .token ⟨fun _ => rfl, fun other => absurd ⟨quoted, follows.named quoted⟩ other⟩ (by simp)
      laid

end Scan

private theorem pieces_scan_nil (inside : List Enclosure) (fresh : Bool) (place : Nat) :
    (scan inside fresh place []).pieces = [] := by
  cases inside with
  | nil => simp [scan]
  | cons first outer => cases first <;> simp [scan]

/-- In a script, the first piece of a line end is its token. -/
theorem pieces_lineEnd {inside : List Enclosure} (fresh : Bool) (place : Nat) (rest : Text)
    (script : ∀ opened outer, inside ≠ .quote opened :: outer) :
    ∃ s behind, (scan inside fresh place ('\n' :: rest)).pieces =
      .token (.symbol .endOfLine) s :: behind := by
  have step : Scan.step inside fresh place '\n' rest =
      .read [.token (.symbol .endOfLine) ['\n']] inside true rest := by
    unfold Scan.step
    split
    · next opened outer => exact absurd rfl (script opened outer)
    · simp [Scan.scriptStep, isSpacing]
  rw [scan_of_read step]
  exact ⟨_, _, rfl⟩

/-- A scan lays its pieces behind whatever was read before. -/
theorem laid_scan {inside : List Enclosure} {fresh : Bool} {place : Nat} {t : Text}
    {seen : List Lexeme} (follows : Scan.Follows seen inside fresh) :
    Piece.Laid seen (scan inside fresh place t).pieces := by
  fun_induction scan inside fresh place t generalizing seen with
  | case1 | case2 | case3 => exact .nil
  | case4 inside fresh place c rest pieces inside' fresh' rest' step ih =>
    have laid := ih (Scan.follows_step follows step)
    unfold Scan.step at step
    split at step
    · exact Scan.laid_quoteStep follows step laid
    · next script =>
      refine Scan.laid_scriptStep follows (fun quoted => ?_) step ?_ laid
      · obtain ⟨opened, outer, same⟩ := (Scan.inQuote_iff follows).mp quoted
        exact script opened outer same
      · rintro rfl rfl
        rcases comment_stops rest with none | ⟨behind, line⟩
        · exact .inl (none ▸ pieces_scan_nil _ _ _)
        · exact .inr (line ▸ pieces_lineEnd _ _ _ script)
  | case5 inside fresh place c rest pieces fault place' step =>
    rcases Scan.pieces_of_stop step with rfl | ⟨rfl, _⟩
    · exact .nil
    · exact .token (spells_symbol seen .leftBrace) (by simp) .nil

/-! ### Pieces tile the text they are cut from -/

namespace Text

private theorem within_self (t : Text) (n : Nat) : t.within ⟨n, n⟩ = [] := by
  simp [within]

private theorem within_append (t : Text) {l m n : Nat} (lm : l ≤ m) (mn : m ≤ n) :
    t.within ⟨l, n⟩ = t.within ⟨l, m⟩ ++ t.within ⟨m, n⟩ := by
  have split : n - l = (m - l) + (n - m) := by omega
  have back : l + (m - l) = m := by omega
  simp only [within, List.drop_take, split, List.take_add, List.drop_drop, back]

/-- A part of a text lies behind what is in front of it. -/
theorem within_middle (front s rest : Text) :
    (front ++ (s ++ rest)).within ⟨front.length, front.length + s.length⟩ = s := by
  simp [within, List.drop_take]

private theorem take_front (front rest : Text) : (front ++ rest).take front.length = front := by
  simp

end Text

namespace Piece

/-- The tokens of pieces on their extents, and the end of file behind them. The pieces start at
`p`, behind `offset` characters. -/
def placed (p : Position) (offset : Nat) : List Piece → List (Token × Extent)
  | [] => [(.ofSymbol .endOfFile p, ⟨offset, offset⟩)]
  | gap s :: rest => placed (p.after s) (offset + s.length) rest
  | token l s :: rest =>
    (⟨l, p⟩, ⟨offset, offset + s.length⟩) :: placed (p.after s) (offset + s.length) rest

private theorem map_fst_placed (p : Position) (offset : Nat) (ps : List Piece) :
    (placed p offset ps).map Prod.fst =
      tokensFrom p ps ++ [.ofSymbol .endOfFile (p.after (sources ps))] := by
  induction ps generalizing p offset with
  | nil => rfl
  | cons piece rest ih => cases piece <;> simp [placed, tokensFrom, ih]

end Piece

/-- A gap in front of tiles belongs to the first of them. -/
theorem Tiles.extend {t : Text} {start : Position} {seen : List Lexeme} {offset behind : Nat}
    {token : Token} {e : Extent} {rest : List (Token × Extent)}
    (h : Tiles t start seen behind ((token, e) :: rest)) (outside : ¬ InQuote seen)
    (ordered : offset ≤ behind) (gap : IsGap seen token.lexeme (t.within ⟨offset, e.start⟩)) :
    Tiles t start seen offset ((token, e) :: rest) := by
  obtain ⟨lies, others⟩ := h
  exact ⟨{ lies with
    behind := Nat.le_trans ordered lies.behind
    gap
    close := fun quoted => absurd quoted outside }, others⟩

private theorem Piece.exists_placed (p : Position) (offset : Nat) (ps : List Piece) :
    ∃ token e rest, placed p offset ps = (token, e) :: rest := by
  induction ps generalizing p offset with
  | nil => exact ⟨_, _, _, rfl⟩
  | cons piece rest ih =>
    cases piece with
    | gap s => exact ih _ _
    | token l s => exact ⟨_, _, _, rfl⟩

/-- A gap piece goes to the gap of the token behind it. -/
theorem tiles_gap {t front s : Text} {start : Position} {seen : List Lexeme} {rest : List Piece}
    (whole : t = front ++ (s ++ Piece.sources rest)) (outside : ¬ InQuote seen)
    (gap : ∀ next g, IsGap seen next g → IsGap seen next (s ++ g))
    (tiles : Tiles t start seen (front ++ s).length
      (Piece.placed (start.after (front ++ s)) (front ++ s).length rest)) :
    Tiles t start seen front.length
      (Piece.placed (start.after front) front.length (.gap s :: rest)) := by
  rw [Position.after_append, List.length_append] at tiles
  simp only [Piece.placed]
  obtain ⟨token, e, others, shape⟩ :=
    Piece.exists_placed ((start.after front).after s) (front.length + s.length) rest
  rw [shape] at tiles ⊢
  apply tiles.extend outside (Nat.le_add_right _ _)
  rw [Text.within_append t (Nat.le_add_right _ s.length) tiles.1.behind, whole,
    Text.within_middle, ← whole]
  exact gap _ _ tiles.1.gap

/-- Pieces of the grammar tile the text they are cut from. -/
theorem tiles_of_laid {seen : List Lexeme} {pieces : List Piece} (laid : Piece.Laid seen pieces)
    (start : Position) (t front : Text) (whole : t = front ++ Piece.sources pieces) :
    Tiles t start seen front.length
      (Piece.placed (start.after front) front.length pieces) := by
  induction laid generalizing front with
  | nil =>
    simp only [Piece.sources_nil, List.append_nil] at whole
    subst whole
    exact ⟨⟨Nat.le_refl _, Nat.le_refl _, Nat.le_refl _, by simp [Token.ofSymbol],
      by rw [Text.within_self]; exact .nil, fun _ => rfl,
      by rw [Text.within_self]; exact spells_symbol _ .endOfFile⟩, rfl⟩
  | blank outside spacing _ ih =>
    exact tiles_gap whole outside (fun _ _ => .blank spacing) (ih _ (by simpa using whole))
  | joined outside _ ih =>
    exact tiles_gap whole outside (fun _ _ => .joined) (ih _ (by simpa using whole))
  | @comment seen text rest outside begins comment stops _ ih =>
    have tiles := ih (front ++ '#' :: text) (by simpa using whole)
    have here : t.within ⟨front.length, front.length + ('#' :: text).length⟩ = '#' :: text := by
      rw [whole]
      exact Text.within_middle _ _ _
    have gap {next : Lexeme} (ends : EndsLine next) : IsGap seen next
        (t.within ⟨front.length, front.length + ('#' :: text).length⟩) := by
      rw [here]
      exact .comment begins comment ends
    rw [Position.after_append, List.length_append] at tiles
    -- Behind a comment a token follows at once, so the comment is the whole gap.
    rcases stops with rfl | ⟨s, behind, rfl⟩
    · exact tiles.extend outside (Nat.le_add_right _ _) (gap (.inr rfl))
    · exact tiles.extend outside (Nat.le_add_right _ _) (gap (.inl rfl))
  | @token seen l s rest spells _ _ ih =>
    have here : t.within ⟨front.length, front.length + s.length⟩ = s := by
      rw [whole]
      exact Text.within_middle _ _ _
    have tiles := ih (front ++ s) (by simpa using whole)
    rw [Position.after_append, List.length_append] at tiles
    refine ⟨⟨Nat.le_refl _, Nat.le_add_right _ _, ?_, ?_, ?_, fun _ => rfl, ?_⟩, tiles⟩
    · simp [whole]
    · rw [whole, Text.take_front]
    · rw [Text.within_self]
      exact .nil
    · rwa [here]

/-- Only the end of the text is an end of file. -/
theorem Piece.Laid.ne_endOfFile {seen : List Lexeme} {pieces : List Piece}
    (laid : Laid seen pieces) {l : Lexeme} (inside : l ∈ lexemes pieces) :
    l ≠ .symbol .endOfFile := by
  induction laid with
  | nil => simp at inside
  | blank _ _ _ ih | joined _ _ ih | comment _ _ _ _ _ ih => exact ih inside
  | token _ other _ ih =>
    rcases List.mem_cons.mp inside with rfl | inside
    · exact other
    · exact ih inside

/-- **The tokens of a text tile it.** A text without lexical faults ends with its only end of file,
and its tokens lie one behind the other on it from the first character to the last. -/
theorem exists_tiling {t : Text} {start : Position}
    (sound : (TokenStream.ofText t start).fault = none) :
    (∃ tokens, (TokenStream.ofText t start).tokens =
        tokens ++ [.ofSymbol .endOfFile (start.after t)] ∧
      ∀ token ∈ tokens, token.lexeme ≠ .symbol .endOfFile) ∧
    ∃ laid : List (Token × Extent), laid.map Prod.fst = (TokenStream.ofText t start).tokens ∧
      Tiles t start [] 0 laid := by
  have reached : (Scanned.ofText t).stopped = none := by
    revert sound
    simp only [TokenStream.ofText]
    split <;> simp_all
  have tokens : (TokenStream.ofText t start).tokens =
      Piece.tokensFrom start (Scanned.ofText t).pieces ++ [.ofSymbol .endOfFile (start.after t)] := by
    simp only [TokenStream.ofText, reached]
  have laid : Piece.Laid [] (Scanned.ofText t).pieces :=
    laid_scan ⟨rfl, by simp [InQuote], fun _ => by simp [BeginsCommand]⟩
  have whole : Piece.sources (Scanned.ofText t).pieces = t := sources_scan reached
  refine ⟨⟨_, tokens, fun token inside => ?_⟩, ?_⟩
  · apply laid.ne_endOfFile
    rw [← Piece.map_lexeme_tokensFrom start]
    exact List.mem_map_of_mem inside
  · refine ⟨_, ?_, tiles_of_laid laid start t [] (by simp [whole])⟩
    rw [Piece.map_fst_placed, tokens, Position.after_nil, whole]

/-- A comment, a joined line, an escape, a variable and a substitution in a string. -/
theorem exists_tiling_note :
    (TokenStream.ofText "# note\nset x \\\n 5; puts \"a\\t$x[expr 1]\"".toList .start).fault =
      none ∧
    ∃ laid : List (Token × Extent), laid.map Prod.fst =
        (TokenStream.ofText "# note\nset x \\\n 5; puts \"a\\t$x[expr 1]\"".toList .start).tokens ∧
      Tiles "# note\nset x \\\n 5; puts \"a\\t$x[expr 1]\"".toList .start [] 0 laid := by
  have sound : (TokenStream.ofText "# note\nset x \\\n 5; puts \"a\\t$x[expr 1]\"".toList
      .start).fault = none := by decide +kernel
  exact ⟨sound, (exists_tiling sound).2⟩

end TinyTcl
