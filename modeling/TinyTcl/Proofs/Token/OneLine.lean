import TinyTcl.Proofs.Token.Names
import TinyTcl.Proofs.Token.Tiling

/-! Lexemes in one line. The body of a block and the literal parts of a string may hold anything,
but numbers, words and the names of variables do not go over the end of a line (`inLines_ofText`),
also where the ends of lines are left out (`InLines.filter`). -/
namespace TinyTcl

/-- Whether a lexeme behind others is in one line, unless it may hold anything. -/
def Lexeme.InLine (seen : List Lexeme) : Lexeme → Prop
  | number t => '\n' ∉ t
  | name t => ¬ IsLiteral seen (.name t) → seen.getLast? ≠ some (.symbol .leftBrace) → '\n' ∉ t
  | symbol _ => True

/-- Lexemes are in one line each, unless they may hold anything. -/
def InLines : (seen : List Lexeme) → List Lexeme → Prop
  | _, [] => True
  | seen, l :: rest => l.InLine seen ∧ InLines (seen ++ [l]) rest

theorem inLines_append {seen ls ms : List Lexeme} :
    InLines seen (ls ++ ms) ↔ InLines seen ls ∧ InLines (seen ++ ls) ms := by
  induction ls generalizing seen with
  | nil => simp [InLines]
  | cons l rest ih => simp [InLines, ih, and_assoc]

/-- A word does not go over the end of a line. -/
theorem Lexeme.InLine.word {seen : List Lexeme} {t : Text} (h : (ofWord t).InLine seen)
    (outside : ¬ InQuote seen) (behind : seen.getLast? ≠ some (.symbol .leftBrace)) :
    '\n' ∉ t := by
  cases word : ofWord t with
  | number u => exact absurd word (by unfold ofWord; split <;> simp)
  | name u =>
    rw [word] at h
    have same : u = t := by rw [← text_ofWord t, word, text]
    exact same ▸ h (fun literal => outside literal.1) behind
  | symbol s =>
    have spelled : s.text = t := by rw [← text_ofWord t, word, text]
    have keyword : s.isKeyword = true := by
      cases plain : s.isKeyword with
      | true => rfl
      | false => exact absurd word (ofWord_ne_symbol plain t)
    rw [← spelled]
    cases s <;> first | decide | cases keyword

/-! ### The scan -/

private theorem not_mem_word (t : Text) : '\n' ∉ (Span.word t).1 := by
  intro inside
  have continues : continuesName '\n' = true := List.mem_takeWhile_imp inside
  revert continues
  decide +kernel

private theorem not_mem_digits (t : Text) : '\n' ∉ (Span.digits t).1 := by
  intro inside
  rcases Span.mem_digits inside with digit | point
  · revert digit
    decide +kernel
  · cases point

namespace Scan

private theorem inLines_reference (seen : List Lexeme) (rest : Text) :
    InLines seen (Piece.lexemes (reference rest).1) := by
  unfold reference
  split
  · split
    · exact ⟨trivial, fun _ _ => not_mem_word _, trivial⟩
    · exact ⟨trivial, trivial⟩
  · exact ⟨trivial, trivial⟩

private theorem inLines_number (seen : List Lexeme) (t : Text) :
    InLines seen (Piece.lexemes [(number t).1]) := by
  simp only [number]
  split
  · exact ⟨not_mem_digits t, trivial⟩
  · refine ⟨fun _ _ => ?_, trivial⟩
    rw [List.mem_append, not_or]
    exact ⟨not_mem_digits t, not_mem_word _⟩

private theorem inLines_scriptStep {seen : List Lexeme} {inside inside' : List Enclosure}
    {fresh fresh' : Bool} {place : Nat} {c : Char} {rest rest' : Text} {pieces : List Piece}
    (h : scriptStep inside fresh place c rest = .read pieces inside' fresh' rest') :
    InLines seen (Piece.lexemes pieces) := by
  revert h
  fun_cases scriptStep inside fresh place c rest
  all_goals intro h
  all_goals cases h
  case case1.refl | case2.refl | case6.refl => trivial
  case case7.refl => exact inLines_reference seen rest
  case case11.refl => exact ⟨trivial, fun _ behind => absurd (by simp) behind, trivial, trivial⟩
  case case13.refl => exact inLines_number seen _
  case case14.refl word cut =>
    have plain : '\n' ∉ word := by
      have plain := not_mem_word (c :: rest)
      rwa [cut] at plain
    refine ⟨?_, trivial⟩
    unfold Lexeme.ofWord
    split
    · trivial
    · exact fun _ _ => plain
  all_goals exact ⟨trivial, trivial⟩

private theorem inLines_quoteStep {seen : List Lexeme} {opened : Nat}
    {outer inside' : List Enclosure} {fresh fresh' : Bool} {place : Nat} {c : Char}
    {rest rest' : Text} {pieces : List Piece}
    (follows : Follows seen (.quote opened :: outer) fresh)
    (h : quoteStep opened outer place c rest = .read pieces inside' fresh' rest') :
    InLines seen (Piece.lexemes pieces) := by
  have quoted : InQuote seen := (inQuote_iff follows).mpr ⟨opened, outer, rfl⟩
  revert h
  fun_cases quoteStep opened outer place c rest
  all_goals intro h
  all_goals cases h
  case case3.refl => exact inLines_reference seen rest
  case case5.refl => exact ⟨fun other => absurd ⟨quoted, follows.named quoted⟩ other, trivial⟩
  all_goals exact ⟨trivial, trivial⟩

end Scan

private theorem inLines_scan {seen : List Lexeme} {inside : List Enclosure} {fresh : Bool}
    {place : Nat} {t : Text} (follows : Scan.Follows seen inside fresh) :
    InLines seen (Piece.lexemes (scan inside fresh place t).pieces) := by
  fun_induction scan inside fresh place t generalizing seen with
  | case1 | case2 | case3 => trivial
  | case4 inside fresh place c rest pieces inside' fresh' rest' step ih =>
    rw [Scanned.behind, Piece.lexemes_append, inLines_append]
    refine ⟨?_, ih (Scan.follows_step follows step)⟩
    unfold Scan.step at step
    split at step
    · exact Scan.inLines_quoteStep follows step
    · exact Scan.inLines_scriptStep step
  | case5 inside fresh place c rest pieces fault place' step =>
    rcases Scan.pieces_of_stop step with rfl | ⟨rfl, _⟩
    · trivial
    · exact ⟨trivial, trivial⟩

/-- The tokens of a text are in one line each, but for bodies of blocks and literal parts of
strings. -/
theorem inLines_ofText (t : Text) (start : Position) :
    InLines [] (lexemes (TokenStream.ofText t start).tokens) := by
  rw [lexemes_ofText, inLines_append]
  refine ⟨inLines_scan ⟨rfl, by simp [InQuote], fun _ => by simp [BeginsCommand]⟩, ?_⟩
  split
  · exact ⟨trivial, trivial⟩
  · trivial

/-! ### Leaving out line ends -/

/-- What stands behind the end of a line stands as well behind what is in front of it. -/
theorem InLines.filter {cut : Prop} {phase : Phase} {seen seen' ls : List Lexeme}
    (h : InLines seen ls) (nested : WellNested cut phase (enclosing [] seen) ls)
    (around : enclosing [] seen' = enclosing [] seen)
    (last : seen'.getLast? = seen.getLast? ∨
      ¬ InQuote seen ∧ seen.getLast? = some (.symbol .endOfLine)) :
    InLines seen' (ls.filter (· != .symbol .endOfLine)) := by
  induction ls generalizing phase seen seen' with
  | nil => trivial
  | cons l rest ih =>
    rcases nested with ⟨rfl, rfl, _⟩ | ⟨next, leads, nested⟩
    · exact ⟨trivial, trivial⟩
    have behind : l.enclose (enclosing [] seen) = enclosing [] (seen ++ [l]) := by
      rw [enclosing_append]
      rfl
    rw [behind] at nested
    by_cases lineEnd : l = .symbol .endOfLine
    · subst lineEnd
      rw [List.filter_cons_of_neg (by simp)]
      refine ih h.2 nested (around.trans behind) (.inr ⟨?_, List.getLast?_concat⟩)
      rw [InQuote, ← behind]
      exact (Phase.next_endOfLine leads).1
    · rw [List.filter_cons_of_pos (by simpa using lineEnd)]
      refine ⟨?_, ih h.2 nested ?_ (.inl (by simp))⟩
      · cases l with
        | number t => exact h.1
        | symbol s => trivial
        | name t =>
          intro literal brace
          refine h.1 (fun part => ?_) ?_
          · rcases last with same | ⟨outside, _⟩
            · refine literal ⟨?_, same ▸ part.2⟩
              rw [InQuote, around]
              exact part.1
            · exact outside part.1
          · rcases last with same | ⟨_, lineEnd⟩
            · exact same ▸ brace
            · simp [lineEnd]
      · rw [enclosing_append, around, enclosing_append]

/-- So it is without the ends of lines. -/
theorem inLines_joinLines (t : Text) (start : Position) :
    InLines [] (lexemes (TokenStream.ofText t start).joinLines.tokens) := by
  rw [lexemes_joinLines]
  exact (inLines_ofText t start).filter (wellNested_ofText t start) rfl (.inl rfl)

end TinyTcl
