import TinyTcl.Proofs.Number.Decimal
import TinyTcl.Proofs.Token.Names

/-! Texts that are cut by themselves. A part of a text is cut into the same lexemes whatever stands
in front of it, outside of strings (`Text.Cuts`), and such parts are put together (`Cuts.append`). A
bare word and the decimal form of an integer are parts of this kind wherever something follows that
they do not go on with (`Text.EndsWord`). -/
namespace TinyTcl

/-- No word and no number goes on with this text. -/
def Text.EndsWord (rest : Text) : Prop := ∀ c ∈ rest.head?, TinyTcl.EndsWord c

theorem Text.endsWord_nil : Text.EndsWord [] := by
  rintro c ⟨⟩

theorem Text.endsWord_cons {c : Char} (h : TinyTcl.EndsWord c) (rest : Text) :
    Text.EndsWord (c :: rest) := by
  rintro d ⟨⟩
  exact h

theorem endsWord_blank : EndsWord ' ' := ⟨by decide +kernel, by decide⟩

theorem endsWord_semicolon : EndsWord ';' := ⟨by decide +kernel, by decide⟩

/-- Every keyword is a bare word. -/
theorem bareWord_keyword {s : Symbol} (keyword : s.isKeyword = true) : BareWord s.text := by
  obtain ⟨c, rest, text, letter, -, -⟩ := s.first_of_isKeyword keyword
  have letters := s.continuesName_of_isKeyword keyword
  rw [text] at letters ⊢
  exact .name letter fun d inside => letters d (List.mem_cons_of_mem _ inside)

/-- What is a word or a number by itself is one in front of what it does not go on with. -/
theorem Scan.scriptStep_append {inside : List Enclosure} {fresh : Bool} {place : Nat} {c : Char}
    {t rest : Text} {pieces : List Piece} (first : startsName c = true ∨ isDigit c = true)
    (h : scriptStep inside fresh place c t = .read pieces inside false [])
    (ends : rest.EndsWord) :
    scriptStep inside fresh place c (t ++ rest) = .read pieces inside false rest := by
  cases rest with
  | nil => rwa [List.append_nil]
  | cons d u =>
    have stop := ends d rfl
    rcases first with letter | digit
    · have word := Span.word_append_of_endsWord stop (c :: t) u
      rw [List.cons_append] at word
      rw [scriptStep_of_startsName letter, Step.read.injEq] at h ⊢
      obtain ⟨same, _, _, none⟩ := h
      simp only [word, same, none, List.nil_append, and_self]
    · have number := number_append_of_endsWord (u := u) stop (c :: t)
      rw [List.cons_append] at number
      rw [scriptStep_of_isDigit digit, Step.read.injEq] at h ⊢
      obtain ⟨same, _, _, none⟩ := h
      simp only [number, same, none, List.nil_append, and_self]

/-- In front of a rest, and inside of the first enclosures, a text is cut into these lexemes, and the
rest is inside of the others. -/
def Text.CutsIn (inside inside' : List Enclosure) (t : Text) (ls : List Lexeme) (rest : Text) :
    Prop :=
  ∀ fresh place, ∃ fresh' place' pieces, Piece.lexemes pieces = ls ∧
    scan inside fresh place (t ++ rest) = (scan inside' fresh' place' rest).behind pieces

namespace Text.CutsIn

variable {inside inside' inside'' : List Enclosure} {t u rest : Text} {ls ms : List Lexeme}

theorem append (h : CutsIn inside inside' t ls (u ++ rest))
    (k : CutsIn inside' inside'' u ms rest) :
    CutsIn inside inside'' (t ++ u) (ls ++ ms) rest := by
  intro fresh place
  obtain ⟨fresh', place', pieces, rfl, first⟩ := h fresh place
  obtain ⟨fresh'', place'', others, rfl, second⟩ := k fresh' place'
  refine ⟨fresh'', place'', pieces ++ others, Piece.lexemes_append _ _, ?_⟩
  rw [List.append_assoc, first, second]
  simp only [Scanned.behind, List.append_assoc]

theorem of_step {c : Char} (pieces : List Piece)
    (h : ∀ fresh place, ∃ fresh',
      Scan.step inside fresh place c (t ++ rest) = .read pieces inside' fresh' rest) :
    CutsIn inside inside' (c :: t) (Piece.lexemes pieces) rest := by
  intro fresh place
  obtain ⟨fresh', step⟩ := h fresh place
  exact ⟨fresh', _, pieces, rfl, scan_of_read step⟩

end Text.CutsIn

/-- In front of a rest, and outside of strings, a text is cut into these lexemes. -/
def Text.Cuts (t : Text) (ls : List Lexeme) (rest : Text) : Prop :=
  ∀ fresh place, ∃ fresh' place' pieces, Piece.lexemes pieces = ls ∧
    scan [] fresh place (t ++ rest) = (scan [] fresh' place' rest).behind pieces

namespace Text.Cuts

variable {t u rest : Text} {ls ms : List Lexeme}

theorem append (h : Cuts t ls (u ++ rest)) (k : Cuts u ms rest) :
    Cuts (t ++ u) (ls ++ ms) rest :=
  CutsIn.append h k

theorem of_step {c : Char} (pieces : List Piece)
    (h : ∀ fresh place, ∃ fresh',
      Scan.step [] fresh place c (t ++ rest) = .read pieces [] fresh' rest) :
    Cuts (c :: t) (Piece.lexemes pieces) rest :=
  CutsIn.of_step pieces h

theorem blank : Cuts [' '] [] rest :=
  of_step [.gap [' ']] fun fresh _ => ⟨fresh, rfl⟩

theorem semicolon : Cuts [';'] [.symbol .semicolon] rest :=
  of_step [.token (.symbol .semicolon) [';']] fun _ _ => ⟨true, rfl⟩

theorem lineEnd : Cuts ['\n'] [.symbol .endOfLine] rest :=
  of_step [.token (.symbol .endOfLine) ['\n']] fun _ _ => ⟨true, rfl⟩

private theorem minus : Cuts ['-'] [.symbol .minus] rest := by
  have digit : isDigit '-' = false := by decide +kernel
  have letter : startsName '-' = false := by decide +kernel
  refine of_step [.token (.symbol .minus) ['-']] fun _ _ => ⟨false, ?_⟩
  simp [Scan.step, Scan.scriptStep, isSpacing, digit, letter, Scan.operator?]

/-- A bare word is one lexeme. -/
theorem word (bare : BareWord t) (ends : rest.EndsWord) : Cuts t [.ofWord t] rest := by
  obtain ⟨c, u, rfl, step⟩ := Scan.step_bareWord bare
  have first : startsName c = true ∨ isDigit c = true := by
    generalize whole : c :: u = n at bare
    cases bare with
    | name letter others =>
      cases whole
      exact .inl letter
    | numbered digit cut more others =>
      cases whole
      exact .inr digit
  exact of_step _ fun fresh place =>
    ⟨false, Scan.scriptStep_append first (step fresh place) ends⟩

/-- Digits are a number. -/
theorem number (some : t ≠ []) (digits : ∀ c ∈ t, isDigit c = true) (ends : rest.EndsWord) :
    Cuts t [.number t] rest := by
  obtain ⟨c, u, rfl⟩ := List.exists_cons_of_ne_nil some
  have digit := digits c List.mem_cons_self
  have whole : Scan.number (c :: u) = (.token (.number (c :: u)) (c :: u), []) := by
    have kept : (c :: u).takeWhile isDigit = c :: u := List.takeWhile_eq_self_iff.mpr digits
    have none : (c :: u).dropWhile isDigit = [] := List.dropWhile_eq_nil_iff.mpr digits
    simp [Scan.number, Span.digits, kept, none, Span.word]
  refine of_step [.token (.number (c :: u)) (c :: u)] fun fresh place =>
    ⟨false, Scan.scriptStep_append (.inr digit) ?_ ends⟩
  rw [Scan.scriptStep_of_isDigit digit, whole]

theorem of_scan
    (h : ∀ fresh place, Piece.lexemes (scan [] fresh place t).pieces = ls ∧
      (scan [] fresh place t).stopped = none) : Cuts t ls [] := by
  intro fresh place
  obtain ⟨lexemes, reached⟩ := h fresh place
  refine ⟨false, 0, (scan [] fresh place t).pieces, lexemes, ?_⟩
  have nothing : scan [] false 0 [] = ⟨[], none⟩ := by simp [scan]
  rw [List.append_nil, nothing, Scanned.behind, List.append_nil, ← reached]

/-- Behind a dollar sign, at the end of a text, a bare word is a name. -/
theorem dollar (bare : BareWord t) : Cuts ('$' :: t) [.symbol .dollar, .name t] [] :=
  of_scan (scan_dollar bare)

/-- The name of a command with the blank behind it. -/
theorem keyword {s : Symbol} (h : s.isKeyword = true) :
    Cuts (s.text ++ [' ']) [.symbol s] rest :=
  s.ofWord_of_isKeyword h ▸
    .append (.word (bareWord_keyword h) (Text.endsWord_cons endsWord_blank rest)) .blank

/-- A text that is cut to its end is what is read of it. -/
theorem lexemes_ofText (h : Cuts t ls []) (start : Position) :
    lexemes (TokenStream.ofText t start).tokens = ls ++ [.symbol .endOfFile] := by
  obtain ⟨fresh, place, pieces, rfl, cut⟩ := h true 0
  rw [List.append_nil] at cut
  rw [TinyTcl.lexemes_ofText, Scanned.ofText, cut]
  simp [scan, Scanned.behind]

/-- Such a text has no fault. -/
theorem fault_ofText (h : Cuts t ls []) (start : Position) :
    (TokenStream.ofText t start).fault = none := by
  obtain ⟨fresh, place, pieces, -, cut⟩ := h true 0
  rw [List.append_nil] at cut
  rw [TinyTcl.fault_ofText, Scanned.ofText, cut]
  simp [scan, Scanned.behind]

end Text.Cuts

private theorem Text.isDigit_digit (n : Nat) : isDigit (digit n) = true := by
  simp [isDigit, digitValue?_digit]

/-- The lexemes of the decimal form of an integer: a sign is one of its own. -/
def Lexeme.ofInt (n : Int) : List Lexeme :=
  if n < 0 then [.symbol .minus, .number (Text.ofNat n.natAbs)]
  else [.number (Text.ofNat n.natAbs)]

theorem Text.Cuts.ofInt (n : Int) {rest : Text} (ends : rest.EndsWord) :
    Cuts (Text.ofInt n) (Lexeme.ofInt n) rest := by
  have magnitude : Cuts (Text.ofNat n.natAbs) [.number (Text.ofNat n.natAbs)] rest := by
    refine .number (Text.ofNat_ne_nil _) (fun c inside => ?_) ends
    obtain ⟨m, rfl⟩ := Text.exists_digit_of_mem_ofNat inside
    exact Text.isDigit_digit m
  unfold Text.ofInt Lexeme.ofInt
  split
  · exact .append .minus magnitude
  · exact magnitude

end TinyTcl
