import TinyTcl.Proofs.Token.Nesting

/-! Texts that can stand in braces. In such a text every brace has its partner (`Balanced`), and
these are the texts that end at the first closing brace behind them (`balanced_iff`). -/
namespace TinyTcl

/-- Texts in which braces match. A backslash takes the character behind it with it, and there must
be one. -/
inductive Balanced : Text → Prop where
  | nil : Balanced []
  | escaped (c : Char) {t : Text} (rest : Balanced t) : Balanced ('\\' :: c :: t)
  | plain {c : Char} {t : Text} (escape : c ≠ '\\') (opening : c ≠ '{') (closing : c ≠ '}')
      (rest : Balanced t) : Balanced (c :: t)
  | braces {s t : Text} (inner : Balanced s) (rest : Balanced t) :
      Balanced ('{' :: (s ++ '}' :: t))

namespace Span

/-- In a block, a balanced text is passed over as a whole. -/
theorem body_append_of_balanced {t : Text} (h : Balanced t) (depth : Nat) (rest : Text) :
    body depth (t ++ rest) = (body depth rest).map fun (b, r) => (t ++ b, r) := by
  induction h generalizing depth rest with
  | nil => simp
  | escaped c _ ih =>
    rw [List.cons_append, List.cons_append, body, ih, Option.map_map]
    rfl
  | plain escape opening closing _ ih =>
    simp [body, escape, closing, ih, Function.comp_def]
  | @braces s t _ _ outside inside =>
    have whole : '{' :: (s ++ '}' :: t) ++ rest = '{' :: (s ++ '}' :: (t ++ rest)) := by simp
    rw [whole, body, outside, body, inside, Option.map_map, Option.map_map, Option.map_map]
    congr 1
    funext ⟨b, r⟩
    simp

/-- A text with as many closing braces left over as blocks are open in front of it. -/
def Closes : (depth : Nat) → Text → Prop
  | 0, t => Balanced t
  | depth + 1, t => ∃ s rest, t = s ++ '}' :: rest ∧ Balanced s ∧ Closes depth rest

theorem Closes.behind {depth : Nat} {t : Text} (h : Closes depth t) (front : Text)
    (keeps : ∀ s, Balanced s → Balanced (front ++ s)) :
    Closes depth (front ++ t) := by
  cases depth with
  | zero => exact keeps t h
  | succ depth =>
    obtain ⟨s, rest, rfl, inner, later⟩ := h
    exact ⟨front ++ s, rest, by simp, keeps s inner, later⟩

theorem closes_of_body {depth : Nat} {t b r : Text} (h : body depth t = some (b, r)) :
    Closes depth b := by
  fun_induction body depth t generalizing b r with
  | case1 => cases h
  | case2 depth c rest ih =>
    obtain ⟨⟨b, _⟩, inner, same⟩ := Option.map_eq_some_iff.mp h
    cases same
    exact (ih inner).behind ['\\', c] fun _ => .escaped c
  | case3 depth rest ih =>
    obtain ⟨⟨b, _⟩, inner, same⟩ := Option.map_eq_some_iff.mp h
    cases same
    obtain ⟨s, t, rfl, closed, later⟩ := ih inner
    have opens := later.behind ('{' :: (s ++ ['}'])) fun u balanced => by
      simpa using Balanced.braces closed balanced
    simpa using opens
  | case4 rest =>
    cases h
    exact .nil
  | case5 depth rest ih =>
    obtain ⟨⟨b, _⟩, inner, same⟩ := Option.map_eq_some_iff.mp h
    cases same
    exact ⟨[], b, rfl, .nil, ih inner⟩
  | case6 depth c rest escape opening first later ih =>
    obtain ⟨⟨b, _⟩, inner, same⟩ := Option.map_eq_some_iff.mp h
    cases same
    have closing : c ≠ '}' := by
      cases depth with
      | zero => exact fun same => first rfl same
      | succ depth => exact fun same => later depth rfl same
    have escaped : c ≠ '\\' := by
      rintro rfl
      cases rest with
      | nil => cases inner
      | cons d rest => exact escape d rest rfl rfl
    exact (ih inner).behind [c] fun _ => .plain escaped opening closing

end Span

/-- The texts that end at the first closing brace behind them. -/
theorem balanced_iff {t : Text} : Balanced t ↔ Span.body 0 (t ++ ['}']) = some (t, []) := by
  constructor
  · intro h
    rw [Span.body_append_of_balanced h, Span.body]
    simp
  · exact Span.closes_of_body

instance (t : Text) : Decidable (Balanced t) := decidable_of_iff _ balanced_iff.symm

end TinyTcl
