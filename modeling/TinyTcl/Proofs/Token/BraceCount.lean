import TinyTcl.Proofs.Token.Braces
import TinyTcl.Proofs.Token.Words

/-! Braces that match, by counting. A text is passed over from the left, each backslash with the
character behind it (`Text.counted`); braces match if no front part of what is left closes more of
them than it opens, and the whole closes all (`Text.BracesMatch`). These are the texts that the
grammar of matching braces builds (`balanced_iff_bracesMatch`), and those that are one word between
braces (`lexemes_braces_iff`). -/
namespace TinyTcl

/-- What is left of a text without each backslash and the character behind it. A backslash with
nothing behind it is left. -/
def Text.counted : Text → Text
  | [] => []
  | '\\' :: _ :: rest => counted rest
  | c :: rest => c :: counted rest

/-- No front part closes more braces than it opens, the whole closes all that it opens, and no
backslash is left over at the end. -/
structure Text.BracesMatch (t : Text) : Prop where
  front : ∀ front back, t.counted = front ++ back → front.count '}' ≤ front.count '{'
  whole : t.counted.count '{' = t.counted.count '}'
  ends : '\\' ∉ t.counted

namespace Text

private theorem counted_plain {c : Char} (escape : c ≠ '\\') (t : Text) :
    counted (c :: t) = c :: counted t := by
  rw [counted.eq_3 _ _ fun _ _ same => absurd same escape]

/-- A text that leaves no backslash over is passed over by itself. -/
theorem counted_append {t : Text} (h : '\\' ∉ t.counted) (u : Text) :
    counted (t ++ u) = counted t ++ counted u := by
  fun_induction counted t with
  | case1 => rfl
  | case2 c rest ih => exact ih h
  | case3 c rest other ih =>
    have escape : c ≠ '\\' := fun same => h (same ▸ List.mem_cons_self)
    rw [List.cons_append, counted_plain escape, ih fun inside => h (List.mem_cons_of_mem _ inside),
      List.cons_append]

end Text

/-- Matching braces count as such. -/
theorem Balanced.bracesMatch {t : Text} (h : Balanced t) : t.BracesMatch := by
  induction h with
  | nil =>
    refine ⟨?_, rfl, by simp [Text.counted]⟩
    intro front back same
    obtain ⟨rfl, -⟩ := List.append_eq_nil_iff.mp same.symm
    exact Nat.le_refl _
  | escaped c _ ih => exact ⟨ih.front, ih.whole, ih.ends⟩
  | @plain c t escape opening closing _ ih =>
    have counted := Text.counted_plain escape t
    refine ⟨?_, ?_, ?_⟩
    · intro front back same
      cases front with
      | nil => exact Nat.le_refl _
      | cons d front =>
        rw [counted, List.cons_append] at same
        obtain ⟨rfl, tail⟩ := List.cons.inj same
        simpa [opening, closing] using ih.front front back tail
    · simpa [counted, opening, closing] using ih.whole
    · simpa [counted, Ne.symm escape] using ih.ends
  | @braces s t _ _ inner outer =>
    have counted : Text.counted ('{' :: (s ++ '}' :: t)) =
        '{' :: (s.counted ++ '}' :: t.counted) := by
      rw [Text.counted_plain (by decide), Text.counted_append inner.ends,
        Text.counted_plain (by decide)]
    refine ⟨?_, ?_, ?_⟩
    · intro front back same
      cases front with
      | nil => exact Nat.le_refl _
      | cons d front =>
        rw [counted, List.cons_append] at same
        obtain ⟨rfl, tail⟩ := List.cons.inj same
        -- The front part ends behind the brace that closes the first, or in front of it.
        rcases List.append_eq_append_iff.mp tail with ⟨gone, rfl, later⟩ | ⟨left, split, later⟩
        · cases gone with
          | nil =>
            have whole := inner.whole
            simp
            omega
          | cons d gone =>
            obtain ⟨rfl, behind⟩ := List.cons.inj later
            have whole := inner.whole
            have rest := outer.front gone back behind
            simp
            omega
        · have rest := inner.front front left split
          simp
          omega
    · have first := inner.whole
      have second := outer.whole
      simp [counted]
      omega
    · simpa [counted] using ⟨inner.ends, outer.ends⟩

/-- Braces that match by their count when `depth` of them are open in front are closed one after
another. The induction is on the text; the depth counts what is still open. -/
theorem Span.closes_of_counts {t : Text} (ends : '\\' ∉ t.counted) {depth : Nat}
    (front : ∀ front back, t.counted = front ++ back →
      front.count '}' ≤ front.count '{' + depth)
    (whole : t.counted.count '{' + depth = t.counted.count '}') : Closes depth t := by
  fun_induction Text.counted t generalizing depth with
  | case1 =>
    obtain rfl : depth = 0 := by simpa using whole
    exact Balanced.nil
  | case2 c rest ih => exact (ih ends front whole).behind ['\\', c] fun _ => .escaped c
  | case3 c rest other ih =>
    have escape : c ≠ '\\' := fun same => ends (same ▸ List.mem_cons_self)
    have later : '\\' ∉ Text.counted rest := fun inside => ends (List.mem_cons_of_mem c inside)
    have behind (front' back : Text) (same : Text.counted rest = front' ++ back) :=
      front (c :: front') back (congrArg (c :: ·) same)
    by_cases opening : c = '{'
    · subst opening
      obtain ⟨s, u, rfl, closed, closes⟩ : Closes (depth + 1) rest := by
        refine ih later (fun front' back same => ?_) ?_
        · have bound := behind front' back same
          simp at bound
          omega
        · simp at whole
          omega
      have opens := closes.behind ('{' :: (s ++ ['}'])) fun u balanced => by
        simpa using Balanced.braces closed balanced
      simpa using opens
    · by_cases closing : c = '}'
      · subst closing
        cases depth with
        | zero =>
          -- The brace alone closes what nothing opens.
          have bound := front ['}'] _ rfl
          simp at bound
        | succ depth =>
          refine ⟨[], rest, rfl, .nil, ih later (fun front' back same => ?_) ?_⟩
          · have bound := behind front' back same
            simp at bound
            omega
          · simp at whole
            omega
      · have plain : Closes depth rest := by
          refine ih later (fun front' back same => ?_) ?_
          · simpa [opening, closing] using behind front' back same
          · simpa [opening, closing] using whole
        exact plain.behind [c] fun _ => .plain escape opening closing

theorem balanced_iff_bracesMatch {t : Text} : Balanced t ↔ t.BracesMatch :=
  ⟨Balanced.bracesMatch, fun h => @Span.closes_of_counts t h.ends 0 h.front h.whole⟩

/-- Between braces a text with matching braces is one word. -/
theorem Text.Cuts.braces {t rest : Text} (h : Balanced t) :
    Cuts ('{' :: (t ++ ['}'])) [.symbol .leftBrace, .name t, .symbol .rightBrace] rest := by
  have body : Span.body 0 (t ++ '}' :: rest) = some (t, rest) := by
    rw [Span.body_append_of_balanced h]
    simp [Span.body]
  refine of_step [.token (.symbol .leftBrace) ['{'], .token (.name t) t,
    .token (.symbol .rightBrace) ['}']] fun fresh place => ⟨false, ?_⟩
  simp [Scan.step, Scan.scriptStep, isSpacing, body]

/-- A text is one word between braces if and only if its braces match. -/
theorem lexemes_braces_iff (t : Text) (start : Position) :
    lexemes (TokenStream.ofText ('{' :: (t ++ ['}'])) start).tokens =
        [.symbol .leftBrace, .name t, .symbol .rightBrace, .symbol .endOfFile] ∧
      (TokenStream.ofText ('{' :: (t ++ ['}'])) start).fault = none ↔ t.BracesMatch := by
  rw [← balanced_iff_bracesMatch]
  constructor
  · rintro ⟨cut, -⟩
    rw [lexemes_ofText, Scanned.ofText] at cut
    cases body : Span.body 0 (t ++ ['}']) with
    | none =>
      have step : Scan.step [] true 0 '{' (t ++ ['}']) =
          .stop [.token (.symbol .leftBrace) ['{']] .missingBrace 0 := by
        simp [Scan.step, Scan.scriptStep, isSpacing, body]
      rw [scan_of_stop step] at cut
      simp at cut
    | some found =>
      obtain ⟨b, rest⟩ := found
      have step : Scan.step [] true 0 '{' (t ++ ['}']) =
          .read [.token (.symbol .leftBrace) ['{'], .token (.name b) b,
            .token (.symbol .rightBrace) ['}']] [] false rest := by
        simp [Scan.step, Scan.scriptStep, isSpacing, body]
      rw [scan_of_read step] at cut
      obtain ⟨rfl, -⟩ : b = t ∧ _ := by simpa [Scanned.behind] using cut
      have whole := Span.body_append body
      obtain rfl : rest = [] := by simpa using whole
      exact balanced_iff.mpr body
  · intro balanced
    have cut : Text.Cuts ('{' :: (t ++ ['}'])) _ [] := .braces balanced
    exact ⟨cut.lexemes_ofText start, cut.fault_ofText start⟩

end TinyTcl
