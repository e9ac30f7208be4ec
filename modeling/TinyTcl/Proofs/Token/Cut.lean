import TinyTcl.Proofs.Token.Places
import TinyTcl.Proofs.Token.Tiling

/-! What holds of every stream of tokens that is cut from a text, to its end or to a fault: the end
of file stands only where nothing is open, closing delimiters close what is innermost, and blocks
have bodies. Leaving out the ends of lines changes none of this. -/
namespace TinyTcl

/-- The lexemes of some tokens. -/
def lexemes (tokens : List Token) : List Lexeme := tokens.map Token.lexeme

@[simp] theorem lexemes_nil : lexemes [] = [] := rfl

@[simp] theorem lexemes_cons (t : Token) (rest : List Token) :
    lexemes (t :: rest) = t.lexeme :: lexemes rest := rfl

@[simp] theorem lexemes_append (ts us : List Token) :
    lexemes (ts ++ us) = lexemes ts ++ lexemes us := List.map_append

/-- A stream of tokens that is cut from a text. -/
structure TokenStream.Cut (s : TokenStream) : Prop where
  ends : s.fault = none → ∃ t ∈ s.tokens, t.lexeme = .symbol .endOfFile
  closes {before after : List Token} {t : Token} : s.tokens = before ++ t :: after →
    t.lexeme = .symbol .endOfFile → enclosing [] (lexemes before) = []
  matched : Matched [] (lexemes s.tokens)
  bodies {before after : List Token} {t u : Token} : s.tokens = before ++ t :: u :: after →
    t.lexeme = .symbol .leftBrace → ∃ text, u.lexeme = .name text
  lexical {d : Diagnostic} : s.fault = some d → ∃ f, d.cause = .lexical f

theorem mem_of_eq_append {α : Type} {as before after : List α} {a : α}
    (h : as = before ++ a :: after) : a ∈ as := by
  rw [h]
  exact List.mem_append_right _ List.mem_cons_self

theorem endOfFile_not_mem_lexemes (t : Text) :
    .symbol .endOfFile ∉ Piece.lexemes (Scanned.ofText t).pieces := by
  have laid : Piece.Laid [] (Scanned.ofText t).pieces :=
    laid_scan ⟨rfl, by simp [InQuote], fun _ => by simp [BeginsCommand]⟩
  exact fun inside => laid.ne_endOfFile inside rfl

theorem ne_endOfFile_of_mem_scan {t : Text} {p : Position} {token : Token}
    (h : token ∈ Piece.tokensFrom p (Scanned.ofText t).pieces) :
    token.lexeme ≠ .symbol .endOfFile := by
  intro last
  apply endOfFile_not_mem_lexemes t
  rw [← Piece.map_lexeme_tokensFrom p, ← last]
  exact List.mem_map_of_mem h

private theorem bodies_scan {t : Text} {p : Position} {before after : List Token} {brace : Token}
    (h : Piece.tokensFrom p (Scanned.ofText t).pieces = before ++ brace :: after)
    (opens : brace.lexeme = .symbol .leftBrace) :
    (Scanned.ofText t).stopped ≠ none ∧ after = [] ∨
      ∃ text place others, after = ⟨.name text, place⟩ :: others := by
  obtain ⟨front, s, rest, whole, -, -, behind⟩ := Piece.tokensFrom_eq_append h
  have formed := formed_ofText t
  rw [whole, opens] at formed
  rcases formed.block_of_leftBrace.2 with ⟨stops, rfl⟩ | ⟨body, others, rfl⟩
  · exact .inl ⟨stops, by rw [← behind]; rfl⟩
  · exact .inr ⟨body, _, _, behind.symm⟩

/-- A stream is the tokens of the pieces of its text, and the end of file if there is no fault. -/
theorem tokens_ofText (t : Text) (start : Position) :
    (∃ d, (TokenStream.ofText t start).fault = some d ∧ (∃ f, d.cause = .lexical f) ∧
      (TokenStream.ofText t start).tokens = Piece.tokensFrom start (Scanned.ofText t).pieces) ∨
    (Scanned.ofText t).stopped = none ∧ (TokenStream.ofText t start).fault = none ∧
      (TokenStream.ofText t start).tokens = Piece.tokensFrom start (Scanned.ofText t).pieces ++
        [.ofSymbol .endOfFile (start.after t)] := by
  rcases stopped : (Scanned.ofText t).stopped with _ | ⟨fault, place⟩
  · refine .inr ⟨rfl, ?_, ?_⟩ <;> simp only [TokenStream.ofText, stopped]
  · refine .inl ⟨.ofCause (.lexical fault) (start.after (t.take place)), ?_, ⟨fault, rfl⟩, ?_⟩ <;>
      simp only [TokenStream.ofText, stopped]

theorem fault_ofText (t : Text) (start : Position) :
    (TokenStream.ofText t start).fault = none ↔ (Scanned.ofText t).stopped = none := by
  unfold TokenStream.ofText
  dsimp only
  split
  · next reached => simp [reached]
  · next stopped => simp [stopped]

theorem lexemes_ofText (t : Text) (start : Position) :
    lexemes (TokenStream.ofText t start).tokens = Piece.lexemes (Scanned.ofText t).pieces ++
      if (Scanned.ofText t).stopped = none then [.symbol .endOfFile] else [] := by
  unfold TokenStream.ofText
  dsimp only
  split
  · next reached => simp [lexemes, Piece.map_lexeme_tokensFrom, reached, Token.ofSymbol]
  · next stopped => simp [lexemes, Piece.map_lexeme_tokensFrom, stopped]

/-- In front of another token the last one does not stand. -/
theorem eq_append_of_concat_eq {α : Type} {front before after : List α} {last a : α}
    (h : front ++ [last] = before ++ a :: after) :
    after = [] ∧ before = front ∧ a = last ∨
      ∃ others, front = before ++ a :: others ∧ after = others ++ [last] := by
  rcases List.eq_nil_or_concat after with rfl | ⟨others, b, rfl⟩
  · obtain ⟨rfl, same⟩ := List.append_inj' h rfl
    cases same
    exact .inl ⟨rfl, rfl, rfl⟩
  · rw [List.concat_eq_append, ← List.cons_append, ← List.append_assoc] at h
    obtain ⟨rfl, same⟩ := List.append_inj' h rfl
    cases same
    exact .inr ⟨others, rfl, List.concat_eq_append⟩

/-- A token of a text is one of its pieces, or the end of file behind all of them. -/
theorem split_ofText {t : Text} {start : Position} {before after : List Token} {token : Token}
    (h : (TokenStream.ofText t start).tokens = before ++ token :: after) :
    (∃ front s rest, (Scanned.ofText t).pieces = front ++ .token token.lexeme s :: rest ∧
      Piece.tokensFrom start front = before ∧
      token.position = start.after (Piece.sources front)) ∨
    token.lexeme = .symbol .endOfFile ∧ token.position = start.after t ∧
      Piece.sources (Scanned.ofText t).pieces = t := by
  have among {after : List Token}
      (inside : Piece.tokensFrom start (Scanned.ofText t).pieces = before ++ token :: after) :
      ∃ front s rest, (Scanned.ofText t).pieces = front ++ .token token.lexeme s :: rest ∧
        Piece.tokensFrom start front = before ∧
        token.position = start.after (Piece.sources front) := by
    obtain ⟨front, s, rest, whole, same, place, _⟩ := Piece.tokensFrom_eq_append inside
    exact ⟨front, s, rest, whole, same, place⟩
  rcases tokens_ofText t start with ⟨_, _, _, tokens⟩ | ⟨reached, _, tokens⟩
  · exact .inl (among (tokens ▸ h))
  · rw [tokens] at h
    rcases eq_append_of_concat_eq h with ⟨_, _, rfl⟩ | ⟨others, inside, _⟩
    · exact .inr ⟨rfl, rfl, sources_scan reached⟩
    · exact .inl (among inside)

/-- A token stands in its text. -/
theorem position_of_mem {t : Text} {start : Position} {token : Token}
    (h : token ∈ (TokenStream.ofText t start).tokens) :
    ∃ u v, t = u ++ v ∧ token.position = start.after u := by
  obtain ⟨before, after, whole⟩ := List.append_of_mem h
  rcases split_ofText whole with ⟨front, s, rest, pieces, _, place⟩ | ⟨_, place, _⟩
  · obtain ⟨others, same⟩ := sources_ofText_append t
    rw [pieces, Piece.sources_append, List.append_assoc] at same
    exact ⟨_, _, same.symm, place⟩
  · exact ⟨t, [], (List.append_nil t).symm, place⟩

/-- The body of a block is a part of the text, between its braces. -/
theorem block_ofText {t : Text} {start p : Position} {before after : List Token} {brace : Token}
    {body : Text}
    (h : (TokenStream.ofText t start).tokens = before ++ brace :: ⟨.name body, p⟩ :: after)
    (opens : brace.lexeme = .symbol .leftBrace) :
    ∃ front others, (Scanned.ofText t).pieces = front ++ .token (.symbol .leftBrace) ['{'] ::
        .token (.name body) body :: .token (.symbol .rightBrace) ['}'] :: others ∧
      p = start.after (Piece.sources front ++ ['{']) := by
  have formed := formed_ofText t
  have whole : (TokenStream.ofText t start).tokens =
      (before ++ [brace]) ++ ⟨.name body, p⟩ :: after := by simp [h]
  rcases split_ofText whole with ⟨front, s, rest, pieces, seen, place⟩ | ⟨last, _⟩
  · obtain ⟨lead, b, gap, rfl, first, place', behind⟩ := Piece.tokensFrom_eq_append seen
    rw [opens, List.append_assoc, List.cons_append] at pieces
    rw [pieces] at formed
    obtain ⟨rfl, block⟩ := formed.block_of_leftBrace
    rcases block with ⟨_, none⟩ | ⟨body', others, next⟩
    · simp at none
    · cases gap with
      | nil =>
        cases next
        exact ⟨lead, others, pieces, by simpa using place⟩
      | cons first gap =>
        -- The piece behind the brace is a token, so nothing stands in between.
        simp only [List.cons_append, List.cons.injEq] at next
        rw [next.1] at behind
        cases behind
  · cases last

/-- Whether the next token belongs to a block, behind its opening brace. -/
def InBlock (before : List Token) : Prop :=
  (∃ front, lexemes before = front ++ [.symbol .leftBrace]) ∨
    ∃ front body, lexemes before = front ++ [.symbol .leftBrace, .name body]

theorem Piece.InBlock.tokensFrom {ps : List Piece} (h : InBlock ps) (p : Position) :
    TinyTcl.InBlock (tokensFrom p ps) := by
  rcases h with ⟨front, rfl⟩ | ⟨front, body, rfl⟩
  · exact .inl ⟨lexemes front, by simp [TinyTcl.lexemes, map_lexeme_tokensFrom]⟩
  · exact .inr ⟨lexemes front, body, by simp [TinyTcl.lexemes, map_lexeme_tokensFrom]⟩

/-- Outside of blocks, and of the end of file, a place tells which token stands there. -/
theorem before_eq_of_position_eq {t : Text} {start : Position}
    {before before' after after' : List Token} {token token' : Token}
    (h : (TokenStream.ofText t start).tokens = before ++ token :: after)
    (h' : (TokenStream.ofText t start).tokens = before' ++ token' :: after')
    (same : token.position = token'.position) (outside : ¬ InBlock before)
    (other : token.lexeme ≠ .symbol .endOfFile) : before = before' := by
  obtain ⟨front, s, rest, pieces, rfl, place⟩ :=
    (split_ofText h).resolve_right fun last => other last.1
  have formed := formed_ofText t
  have outside : ¬ Piece.InBlock front := fun inside => outside (inside.tokensFrom start)
  rcases split_ofText h' with ⟨front', s', rest', pieces', rfl, place'⟩ | ⟨_, place', reached⟩
  · rw [formed.eq_of_sources_eq pieces pieces' ?_ outside]
    have whole : Piece.sources front ++ (s ++ Piece.sources rest) =
        Piece.sources front' ++ (s' ++ Piece.sources rest') := by
      simpa using congrArg Piece.sources (pieces.symm.trans pieces')
    exact Position.eq_of_after_eq whole (by rw [← place, ← place', same])
  · have all : Piece.sources front = t := by
      have whole : Piece.sources front ++ (s ++ Piece.sources rest) = t ++ [] := by
        simpa [pieces] using reached
      exact Position.eq_of_after_eq whole (by rw [← place, ← place', same])
    rw [pieces] at reached
    have nothing : s = [] ∧ Piece.sources rest = [] := by simpa [all] using reached
    obtain ⟨_, _, _, _, rfl⟩ := (pieces ▸ formed).block_of_empty nothing.1
    simp at nothing

theorem cut_ofText (t : Text) (start : Position) : (TokenStream.ofText t start).Cut := by
  have matched : Matched [] (lexemes (Piece.tokensFrom start (Scanned.ofText t).pieces)) := by
    rw [lexemes, Piece.map_lexeme_tokensFrom]
    exact matched_scan [] true 0 t
  rcases tokens_ofText t start with ⟨d, fault, lexical, tokens⟩ | ⟨reached, fault, tokens⟩
  · refine ⟨?_, ?_, ?_, ?_, ?_⟩
    · simp [fault]
    · intro before after token same last
      rw [tokens] at same
      exact absurd last (ne_endOfFile_of_mem_scan (mem_of_eq_append same))
    · rwa [tokens]
    · intro before after t u same opens
      rcases bodies_scan (tokens ▸ same) opens with ⟨_, none⟩ | ⟨text, place, others, some⟩
      · cases none
      · cases some
        exact ⟨text, rfl⟩
    · rintro e same
      cases fault.symm.trans same
      exact lexical
  · refine ⟨?_, ?_, ?_, ?_, ?_⟩
    · intro _
      exact ⟨.ofSymbol .endOfFile (start.after t), by simp [tokens], rfl⟩
    · intro before after token same last
      rw [tokens] at same
      rcases eq_append_of_concat_eq same with ⟨_, rfl, _⟩ | ⟨others, inside, _⟩
      · rw [lexemes, Piece.map_lexeme_tokensFrom]
        have closed := enclosing_scan reached
        exact closed
      · exact absurd last (ne_endOfFile_of_mem_scan (mem_of_eq_append inside))
    · rw [tokens, lexemes_append, matched_append]
      exact ⟨matched, by simp [Token.ofSymbol], by simp [Token.ofSymbol], trivial⟩
    · intro before after brace u same opens
      rw [tokens] at same
      rcases eq_append_of_concat_eq same with ⟨none, _⟩ | ⟨others, inside, behind⟩
      · cases none
      · rcases bodies_scan inside opens with ⟨stops, _⟩ | ⟨text, place, more, rfl⟩
        · exact absurd reached stops
        · cases behind
          exact ⟨text, rfl⟩
    · simp [fault]

/-! ### Leaving out line ends -/

theorem lexemes_joinLines (s : TokenStream) :
    lexemes s.joinLines.tokens = (lexemes s.tokens).filter (· != .symbol .endOfLine) := by
  simp only [lexemes, TokenStream.joinLines, List.filter_map]
  rfl

private theorem enclosing_filter (keep : Token → Bool)
    (rest : ∀ t, keep t = false → t.lexeme = .symbol .endOfLine) (around : List Delimiter)
    (tokens : List Token) :
    enclosing around (lexemes (tokens.filter keep)) = enclosing around (lexemes tokens) := by
  induction tokens generalizing around with
  | nil => rfl
  | cons t others ih =>
    cases kept : keep t with
    | true =>
      rw [List.filter_cons_of_pos kept]
      exact ih _
    | false =>
      rw [List.filter_cons_of_neg (by simp [kept]), lexemes_cons, enclosing_cons, rest t kept]
      exact ih around

private theorem matched_filter {keep : Token → Bool} {around : List Delimiter} {tokens : List Token}
    (rest : ∀ t, keep t = false → t.lexeme = .symbol .endOfLine)
    (h : Matched around (lexemes tokens)) : Matched around (lexemes (tokens.filter keep)) := by
  induction tokens generalizing around with
  | nil => trivial
  | cons t others ih =>
    cases kept : keep t with
    | true =>
      rw [List.filter_cons_of_pos kept]
      exact ⟨h.1, h.2.1, ih h.2.2⟩
    | false =>
      rw [List.filter_cons_of_neg (by simp [kept])]
      have later := h.2.2
      rw [rest t kept] at later
      exact ih later

theorem TokenStream.split_joinLines {s : TokenStream} {before after : List Token} {t : Token}
    (h : s.joinLines.tokens = before ++ t :: after) : ∃ front others, s.tokens = front ++ t :: others ∧
      (∀ around, enclosing around (lexemes front) = enclosing around (lexemes before)) ∧
      t :: after = (t :: others).filter (fun t => t.lexeme != .symbol .endOfLine) := by
  obtain ⟨front, behind, whole, rfl, later⟩ := List.filter_eq_append_iff.mp h
  obtain ⟨gone, others, rfl, left, kept, rfl⟩ := List.filter_eq_cons_iff.mp later
  refine ⟨front ++ gone, others, by simpa using whole, fun around => ?_, by
    simp only [List.filter_cons, kept, if_true]⟩
  have left : gone.filter (fun t => t.lexeme != .symbol .endOfLine) = [] := by
    simpa using left
  rw [← enclosing_filter (fun t => t.lexeme != .symbol .endOfLine) (by simp), List.filter_append,
    left, List.append_nil]

/-- A body is left where it was, behind its opening brace. -/
theorem TokenStream.Cut.block_of_joinLines {s : TokenStream} (h : s.Cut) {before after : List Token}
    {t u : Token} (same : s.joinLines.tokens = before ++ t :: u :: after)
    (opens : t.lexeme = .symbol .leftBrace) :
    ∃ front others text, s.tokens = front ++ t :: u :: others ∧ u.lexeme = .name text := by
  obtain ⟨front, others, whole, _, next⟩ := split_joinLines same
  rw [List.filter_cons_of_pos (by simp [opens])] at next
  cases others with
  | nil => cases next
  | cons v others =>
    obtain ⟨text, name⟩ := h.bodies whole opens
    rw [List.filter_cons_of_pos (by simp [name])] at next
    cases next
    exact ⟨front, others, text, whole, name⟩

theorem TokenStream.Cut.joinLines {s : TokenStream} (h : s.Cut) : s.joinLines.Cut := by
  refine ⟨?_, ?_, matched_filter (by simp) h.matched, ?_, h.lexical⟩
  · intro sound
    obtain ⟨t, inside, last⟩ := h.ends sound
    exact ⟨t, List.mem_filter.mpr ⟨inside, by simp [last]⟩, last⟩
  · intro before after t same last
    obtain ⟨front, others, whole, around, _⟩ := split_joinLines same
    exact (around []).symm.trans (h.closes whole last)
  · intro before after t u same opens
    obtain ⟨_, _, text, _, name⟩ := h.block_of_joinLines same opens
    exact ⟨text, name⟩

end TinyTcl
