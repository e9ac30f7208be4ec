import TinyTcl.Proofs.Token.Cut

/-! The order of tokens. The tokens of a text stand one behind the other, between the place where the
text starts and the one where it ends (`ascends_ofText`). Every token has characters of its own, but
for the end of file and the body of an empty block, so the place of a token tells it from those in
front of it. -/
namespace TinyTcl

namespace Position

/-- One place is in front of another, or the same. -/
def AtMost (p q : Position) : Prop := p.line < q.line ∨ p.line = q.line ∧ p.column ≤ q.column

variable {p q r : Position}

theorem AtMost.refl (p : Position) : p.AtMost p := .inr ⟨rfl, Int.le_refl _⟩

theorem AtMost.trans (h : p.AtMost q) (k : q.AtMost r) : p.AtMost r := by
  unfold AtMost at *
  omega

theorem Before.atMost (h : p.Before q) : p.AtMost q := by
  unfold Before at h
  unfold AtMost
  omega

theorem Before.trans_atMost (h : p.Before q) (k : q.AtMost r) : p.Before r := by
  unfold Before at *
  unfold AtMost at k
  omega

private theorem atMost_after (p : Position) (t : Text) : p.AtMost (p.after t) := by
  cases t with
  | nil => exact .refl p
  | cons c rest => exact (before_after (by simp)).atMost

end Position

/-- Tokens stand one behind the other, from `low` on and not beyond `high`. Each takes characters, but
for an end of file and for the body of a block, which is written as it is; `body` says that the first
token is one, since an opening brace stands in front of it. -/
def Ascends : (body : Bool) → Position → List Token → Position → Prop
  | _, low, [], high => low.AtMost high
  | body, low, t :: rest, high => low.AtMost t.position ∧ ∃ s,
      (if body then t.lexeme = .name s else s = [] → t.lexeme = .symbol .endOfFile) ∧
      Ascends (decide (t.lexeme = .symbol .leftBrace)) (t.position.after s) rest high

section Ascends

variable {body : Bool} {low high : Position} {t : Token} {ts us : List Token}

theorem Ascends.atMost (h : Ascends body low ts high) : low.AtMost high := by
  induction ts generalizing body low with
  | nil => exact h
  | cons t rest ih =>
    obtain ⟨here, s, _, later⟩ := h
    exact here.trans ((Position.atMost_after _ s).trans (ih later))

/-- Tokens may be said to stand from an earlier place on. -/
theorem Ascends.earlier {low' : Position} (before : low'.AtMost low) (h : Ascends body low ts high) :
    Ascends body low' ts high := by
  cases ts with
  | nil => exact before.trans h
  | cons t rest => exact ⟨before.trans h.1, h.2⟩

/-- Tokens may be said to stand up to a later place. -/
theorem Ascends.later {high' : Position} (behind : high.AtMost high')
    (h : Ascends body low ts high) : Ascends body low ts high' := by
  induction ts generalizing body low with
  | nil => exact h.trans behind
  | cons t rest ih =>
    obtain ⟨here, s, spelled, later⟩ := h
    exact ⟨here, s, spelled, ih later⟩

theorem Ascends.of_append (h : Ascends body low (ts ++ us) high) :
    ∃ body' middle, Ascends body low ts middle ∧ Ascends body' middle us high := by
  induction ts generalizing body low with
  | nil => exact ⟨body, low, .refl low, h⟩
  | cons t rest ih =>
    obtain ⟨here, s, spelled, later⟩ := h
    obtain ⟨body', middle, first, last⟩ := ih later
    exact ⟨body', middle, ⟨here, s, spelled, first⟩, last⟩

theorem Ascends.behind (h : Ascends body low (t :: ts) high) : ∃ body', Ascends body' low ts high :=
  let ⟨here, s, _, later⟩ := h
  ⟨_, later.earlier (here.trans (Position.atMost_after _ s))⟩

/-- The body of a block, as it is written, ends in front of what is behind it. -/
theorem Ascends.text {text : Text} {q : Position}
    (h : Ascends true low (⟨.name text, q⟩ :: ts) high) :
    low.AtMost q ∧ (q.after text).AtMost high := by
  obtain ⟨here, s, same, later⟩ := h
  cases (same : Lexeme.name text = .name s)
  exact ⟨here, later.atMost⟩

/-- So does a text behind an opening brace. -/
theorem Ascends.braces {text : Text} {p q : Position}
    (h : Ascends body low (.ofSymbol .leftBrace p :: ⟨.name text, q⟩ :: ts) high) :
    low.AtMost q ∧ (q.after text).AtMost high := by
  obtain ⟨here, s, _, later⟩ := h
  obtain ⟨before, behind⟩ := Ascends.text later
  exact ⟨(here.trans (Position.atMost_after p s)).trans before, behind⟩

/-- Behind a token the others go on. -/
theorem Ascends.tail (h : Ascends body low (t :: ts) high) (plain : t.lexeme ≠ .symbol .leftBrace) :
    Ascends false low ts high := by
  obtain ⟨here, s, _, later⟩ := h
  rw [decide_eq_false plain] at later
  exact later.earlier (here.trans (Position.atMost_after _ s))

/-- A token that is neither a body nor an end of file takes characters. -/
theorem Ascends.strict (h : Ascends false low (t :: ts) high)
    (other : t.lexeme ≠ .symbol .endOfFile) : low.AtMost t.position ∧ ∃ next,
      t.position.Before next ∧ Ascends (decide (t.lexeme = .symbol .leftBrace)) next ts high := by
  obtain ⟨here, s, spelled, later⟩ := h
  exact ⟨here, _, Position.before_after fun none => other (spelled none), later⟩

/-- The ends of lines can be left out. -/
theorem Ascends.filter {keep : Token → Bool}
    (lines : ∀ t, keep t = false → t.lexeme = .symbol .endOfLine) (h : Ascends body low ts high) :
    Ascends body low (ts.filter keep) high := by
  induction ts generalizing body low with
  | nil => exact h
  | cons t rest ih =>
    cases kept : keep t with
    | true =>
      obtain ⟨here, s, spelled, later⟩ := h
      rw [List.filter_cons_of_pos kept]
      exact ⟨here, s, spelled, ih later⟩
    | false =>
      rw [List.filter_cons_of_neg (by simp [kept])]
      have line := lines t kept
      cases body with
      | true =>
        obtain ⟨_, s, spelled, _⟩ := h
        cases line.symm.trans spelled
      | false => exact ih (h.tail (by simp [line]))

end Ascends

/-- The tokens of the pieces that a scan can yield stand along the pieces; behind all of them others
may follow. -/
theorem ascends_of_formed {stopped : Prop} {pieces : List Piece}
    (formed : Piece.Formed stopped pieces) {us : List Token} (last : stopped → us = [])
    {p high : Position} (later : Ascends false (p.after (Piece.sources pieces)) us high) :
    Ascends false p (Piece.tokensFrom p pieces ++ us) high := by
  induction formed generalizing p with
  | nil => exact later
  | lone stops =>
    obtain rfl := last stops
    exact ⟨.refl p, ['{'], nofun, later⟩
  | @plain piece rest plain _ ih =>
    rw [Piece.sources_cons, Position.after_append] at later
    cases piece with
    | gap s => exact (ih later).earlier (Position.atMost_after p s)
    | token l s =>
      have other : l ≠ .symbol .leftBrace := by
        rintro rfl
        cases plain.2
      refine ⟨.refl p, s, fun none => absurd none plain.1, ?_⟩
      rw [decide_eq_false other]
      exact ih later
  | block body _ ih =>
    simp only [Piece.sources_cons, Piece.source_token, Position.after_append] at later
    exact ⟨.refl p, ['{'], nofun, .refl _, body, rfl, .refl _, ['}'], nofun, ih later⟩

/-- **Tokens ascend.** The tokens of a text stand one behind the other from its start to its end. -/
theorem ascends_ofText (t : Text) (start : Position) :
    Ascends false start (TokenStream.ofText t start).tokens (start.after t) := by
  have formed := formed_ofText t
  rcases tokens_ofText t start with ⟨_, _, _, tokens⟩ | ⟨reached, _, tokens⟩
  · obtain ⟨others, whole⟩ := sources_ofText_append t
    have ends : (start.after (Piece.sources (Scanned.ofText t).pieces)).AtMost (start.after t) := by
      rw [← whole, Position.after_append, whole]
      exact Position.atMost_after _ others
    have ascends := ascends_of_formed formed (fun _ => rfl) ends
    rwa [tokens, ← List.append_nil (Piece.tokensFrom _ _)]
  · have whole : Piece.sources (Scanned.ofText t).pieces = t := sources_scan reached
    rw [tokens]
    refine ascends_of_formed formed (fun stops => absurd reached stops) ?_
    rw [whole]
    exact ⟨.refl _, [], fun _ => rfl, .refl _⟩

end TinyTcl
