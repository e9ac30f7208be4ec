import TinyTcl.Proofs.Token.Cut

/-! What stands where in a script. A token carries a place, and at its place in the script its own
text stands (`shown_ofText`); only a name directly between quotes may be spelled otherwise. The body
of a block is a part of the script at the place of its token, so what stands somewhere in a body
stands there in the script as well (`Text.Shows.inner`). -/
namespace TinyTcl

/-- At a place of a script, whose first character is at `start`, a text stands. -/
def Text.Shows (source : Text) (start p : Position) (s : Text) : Prop :=
  ∃ before behind, source = before ++ (s ++ behind) ∧ p = start.after before

namespace Text.Shows

variable {source body s : Text} {start p q : Position}

theorem of_append (before s behind : Text) (start : Position) :
    Text.Shows (before ++ (s ++ behind)) start (start.after before) s :=
  ⟨before, behind, rfl, rfl⟩

theorem whole (source : Text) (start : Position) : source.Shows start start source :=
  ⟨[], [], by simp, rfl⟩

/-- Every place of a script shows at least nothing. -/
theorem nil (before behind : Text) (start : Position) :
    Text.Shows (before ++ behind) start (start.after before) [] :=
  ⟨before, behind, rfl, rfl⟩

/-- What stands in a part of a script stands in the script. -/
theorem inner (h : source.Shows start q body) (k : body.Shows q p s) : source.Shows start p s := by
  obtain ⟨front, others, rfl, rfl⟩ := h
  obtain ⟨before, behind, rfl, rfl⟩ := k
  exact ⟨front ++ before, behind ++ others, by simp, by simp⟩

end Text.Shows

/-- Tokens stand where they say, behind lexemes that leave the delimiters in `around` open. Directly
between quotes this is not asked of names, for which other characters may be written there. -/
def Shown (shows : Position → Text → Prop) : List Delimiter → List Token → Prop
  | _, [] => True
  | around, t :: rest =>
    ((t.lexeme.hasOwnText = true → around.head? ≠ some .quote) → shows t.position t.lexeme.text) ∧
      Shown shows (t.lexeme.enclose around) rest

section Shown

variable {shows : Position → Text → Prop} {around : List Delimiter}

@[simp] theorem shown_nil : Shown shows around [] := trivial

@[simp] theorem shown_cons {t : Token} {rest : List Token} : Shown shows around (t :: rest) ↔
    ((t.lexeme.hasOwnText = true → around.head? ≠ some .quote) → shows t.position t.lexeme.text) ∧
      Shown shows (t.lexeme.enclose around) rest := Iff.rfl

@[simp] theorem shown_append {ts us : List Token} : Shown shows around (ts ++ us) ↔
    Shown shows around ts ∧ Shown shows (enclosing around (lexemes ts)) us := by
  induction ts generalizing around with
  | nil => simp
  | cons t rest ih => simp [ih, and_assoc]

/-- A symbol stands where it says, between quotes as well. -/
theorem Shown.symbol {s : Symbol} {p : Position} {rest : List Token}
    (h : Shown shows around (.ofSymbol s p :: rest)) : shows p s.text :=
  h.1 fun varies => by cases varies

/-- Outside of quotes every token stands where it says. -/
theorem Shown.outside {t : Token} {rest : List Token} (h : Shown shows around (t :: rest))
    (script : around.head? ≠ some .quote) : shows t.position t.lexeme.text :=
  h.1 fun _ => script

private theorem Shown.imp {shows' : Position → Text → Prop} {ts : List Token}
    (follows : ∀ p s, shows p s → shows' p s) (h : Shown shows around ts) :
    Shown shows' around ts := by
  induction ts generalizing around with
  | nil => trivial
  | cons t rest ih => exact ⟨fun own => follows _ _ (h.1 own), ih h.2⟩

/-- The ends of lines can be left out. -/
theorem Shown.filter {keep : Token → Bool} {ts : List Token}
    (lines : ∀ t, keep t = false → t.lexeme = .symbol .endOfLine) (h : Shown shows around ts) :
    Shown shows around (ts.filter keep) := by
  induction ts generalizing around with
  | nil => trivial
  | cons t rest ih =>
    cases kept : keep t with
    | true =>
      rw [List.filter_cons_of_pos kept]
      exact ⟨h.1, ih h.2⟩
    | false =>
      rw [List.filter_cons_of_neg (by simp [kept])]
      have later := h.2
      rw [lines t kept] at later
      exact ih later

end Shown

/-- The tokens of pieces stand in the text that the pieces are cut from. -/
theorem shown_of_laid {seen : List Lexeme} {pieces : List Piece} (laid : Piece.Laid seen pieces)
    (start : Position) (front : Text) {t others : Text}
    (whole : t = front ++ (Piece.sources pieces ++ others)) :
    Shown (t.Shows start) (enclosing [] seen) (Piece.tokensFrom (start.after front) pieces) := by
  induction laid generalizing front with
  | nil => trivial
  | @blank _ c _ _ _ _ ih =>
    have behind := ih (front ++ [c]) (by simpa using whole)
    simpa [Piece.tokensFrom] using behind
  | joined _ _ ih =>
    have behind := ih (front ++ ['\\', '\n']) (by simpa using whole)
    simpa [Piece.tokensFrom] using behind
  | @comment _ s _ _ _ _ _ _ ih =>
    have behind := ih (front ++ '#' :: s) (by simpa using whole)
    simpa [Piece.tokensFrom] using behind
  | @token seen l s rest spells _ _ ih =>
    have behind := ih (front ++ s) (by simpa using whole)
    rw [Position.after_append, enclosing_append] at behind
    refine ⟨fun own => ?_, behind⟩
    have plain : ¬ IsLiteral seen l := by
      cases l with
      | name text => exact fun literal => own rfl literal.1
      | number text => exact id
      | symbol s => exact id
    have here : t = front ++ (s ++ (Piece.sources rest ++ others)) := by simpa using whole
    rw [here, ← spells.2 plain]
    exact .of_append front l.text _ start

/-- **Tokens stand where they say.** At the place of a token of a text its own characters stand in
the text, unless it is a name directly between quotes. -/
theorem shown_ofText (t : Text) (start : Position) :
    Shown (t.Shows start) [] (TokenStream.ofText t start).tokens := by
  have laid : Piece.Laid [] (Scanned.ofText t).pieces :=
    laid_scan ⟨rfl, by simp [InQuote], fun _ => by simp [BeginsCommand]⟩
  obtain ⟨others, whole⟩ := sources_ofText_append t
  have shown := shown_of_laid laid start [] whole.symm
  rcases tokens_ofText t start with ⟨_, _, _, tokens⟩ | ⟨_, _, tokens⟩
  · rw [tokens]
    exact shown
  · rw [tokens, shown_append]
    refine ⟨shown, fun _ => ?_, trivial⟩
    exact ⟨t, [], (List.append_nil t).symm, rfl⟩

/-- The tokens of a part of a script stand in the script, with or without the ends of its lines. -/
theorem shown_inner {source body : Text} {start q : Position} (h : source.Shows start q body) :
    Shown (source.Shows start) [] (TokenStream.ofText body q).tokens ∧
      Shown (source.Shows start) [] (TokenStream.ofText body q).joinLines.tokens := by
  have shown := (shown_ofText body q).imp fun _ _ => h.inner
  exact ⟨shown, shown.filter (by simp)⟩

/-- A lexical fault is found at a place of its text. -/
theorem exists_shows_of_fault {t : Text} {start : Position} {d : Diagnostic}
    (h : (TokenStream.ofText t start).fault = some d) :
    ∃ f p, d = .ofCause (.lexical f) p ∧ t.Shows start p [] := by
  unfold TokenStream.ofText at h
  dsimp only at h
  split at h
  · cases h
  · next fault place _ =>
    cases h
    refine ⟨fault, _, rfl, t.take place, t.drop place, ?_, rfl⟩
    exact (List.take_append_drop place t).symm

end TinyTcl
