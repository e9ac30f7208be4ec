import Mathlib.Algebra.Group.Nat.Defs
import TinyTcl.Token.Span

/-! What stands between quotes. The escape of a character can be read back, whatever follows it
(`readEscape_escaped`), and the quote itself shows in front. So a quoted text stands for one text
alone (`quoted_injective`), and it does not go over the end of a line (`lineEnd_not_mem_quoted`). -/
namespace TinyTcl.Text

/-! ### Code points -/

/-- The value of a hexadecimal digit. -/
def hexDigitValue (c : Char) : Nat :=
  if c.toNat ≤ '9'.toNat then c.toNat - '0'.toNat else c.toNat - 'a'.toNat + 10

/-- The number that is written in hexadecimal digits, behind the digits for `high`. -/
def hexValue (high : Nat) : Text → Nat
  | [] => high
  | c :: rest => hexValue (16 * high + hexDigitValue c) rest

private theorem hexValue_append (high : Nat) (t u : Text) :
    hexValue high (t ++ u) = hexValue (hexValue high t) u := by
  induction t generalizing high with
  | nil => rfl
  | cons c rest ih => exact ih _

private theorem hexDigitValue_hexDigit : ∀ n < 16, hexDigitValue (hexDigit n) = n := by decide

@[simp] theorem length_hex (width n : Nat) : (hex width n).length = width := by
  induction width generalizing n with
  | zero => rfl
  | succ width ih => simp [hex, ih]

/-- The digits of a number say the number. -/
theorem hexValue_hex (width n : Nat) : hexValue 0 (hex width n) = n % 16 ^ width := by
  induction width generalizing n with
  | zero => simp [hex, hexValue, Nat.mod_one]
  | succ width ih =>
    have last := hexDigitValue_hexDigit (n % 16) (Nat.mod_lt n (by decide))
    rw [hex, hexValue_append, ih, hexValue, hexValue, last, Nat.pow_succ', Nat.mod_mul]
    omega

/-- A character that is written by its code point in so many digits, and the rest. -/
def readCode (width : Nat) (t : Text) : Char × Text :=
  (Char.ofNat (hexValue 0 (t.take width)), t.drop width)

private theorem readCode_hex (width : Nat) {c : Char} (wide : c.toNat < 16 ^ width) (rest : Text) :
    readCode width (hex width c.toNat ++ rest) = (c, rest) := by
  have front : (hex width c.toNat ++ rest).take width = hex width c.toNat :=
    List.take_left' (length_hex width _)
  have behind : (hex width c.toNat ++ rest).drop width = rest :=
    List.drop_left' (length_hex width _)
  rw [readCode, front, behind, hexValue_hex, Nat.mod_eq_of_lt wide, Char.ofNat_toNat]

/-! ### Escapes -/

/-- The character that the first escape of a text stands for, and the rest. -/
def readEscape : Text → Option (Char × Text)
  | [] => none
  | '\\' :: 'x' :: rest => some (readCode 2 rest)
  | '\\' :: 'u' :: rest => some (readCode 4 rest)
  | '\\' :: 'U' :: rest => some (readCode 8 rest)
  | '\\' :: c :: rest => some (escapeValue c, rest)
  | c :: rest => some (c, rest)

private theorem enclosingQuote_cases (t : Text) :
    t.enclosingQuote = '\'' ∨ t.enclosingQuote = '"' := by
  unfold enclosingQuote
  split
  · exact .inr rfl
  · exact .inl rfl

/-- An escape is read back as the character it stands for. -/
theorem readEscape_escaped {quote : Char} (mark : quote = '\'' ∨ quote = '"') (c : Char)
    (rest : Text) : readEscape (escaped quote c ++ rest) = some (c, rest) := by
  fun_cases escaped quote c
  case case1 special =>
    simp only [Bool.or_eq_true, beq_iff_eq] at special
    rcases special with rfl | rfl
    · rfl
    · rcases mark with rfl | rfl <;> rfl
  case case2 lineEnd => rw [eq_of_beq lineEnd]; rfl
  case case3 lineStart => rw [eq_of_beq lineStart]; rfl
  case case4 tab => rw [eq_of_beq tab]; rfl
  case case5 plain _ _ _ _ =>
    have other : c ≠ '\\' := by
      rintro rfl
      simp at plain
    simp only [List.cons_append, List.nil_append]
    unfold readEscape
    split <;> simp_all
  case case6 narrow => exact congrArg some (readCode_hex 2 narrow rest)
  case case7 narrow => exact congrArg some (readCode_hex 4 narrow rest)
  case case8 =>
    have wide : c.toNat < 16 ^ 8 := c.val.toNat_lt
    exact congrArg some (readCode_hex 8 wide rest)

/-- Escaped texts differ if the texts do. -/
theorem flatMap_escaped_injective {quote : Char} (mark : quote = '\'' ∨ quote = '"') {t u : Text}
    (same : t.flatMap (escaped quote) = u.flatMap (escaped quote)) : t = u := by
  induction t generalizing u with
  | nil =>
    cases u with
    | nil => rfl
    | cons c u =>
      have first := readEscape_escaped mark c (u.flatMap (escaped quote))
      rw [← List.flatMap_cons, ← same] at first
      cases first
  | cons c t ih =>
    have first := readEscape_escaped mark c (t.flatMap (escaped quote))
    rw [← List.flatMap_cons, same] at first
    cases u with
    | nil => cases first
    | cons d u =>
      rw [List.flatMap_cons, readEscape_escaped mark d] at first
      obtain ⟨rfl, rest⟩ := Prod.mk.inj (Option.some.inj first)
      rw [ih rest.symm]

/-- A quoted text stands for one text alone. -/
theorem quoted_injective {t u : Text} (same : t.quoted = u.quoted) : t = u := by
  unfold quoted at same
  obtain ⟨mark, rest⟩ := List.cons.inj same
  rw [← mark] at rest
  exact flatMap_escaped_injective t.enclosingQuote_cases (List.append_cancel_right rest)

/-! ### Lines -/

private theorem hexDigit_ne_lineEnd : ∀ n < 16, hexDigit n ≠ '\n' := by decide

private theorem lineEnd_not_mem_hex (width n : Nat) : '\n' ∉ hex width n := by
  induction width generalizing n with
  | zero => simp [hex]
  | succ width ih =>
    have last := hexDigit_ne_lineEnd (n % 16) (Nat.mod_lt n (by decide))
    simpa [hex, ih] using last.symm

private theorem lineEnd_not_mem_escaped {quote : Char} (mark : quote = '\'' ∨ quote = '"')
    (c : Char) :
    '\n' ∉ escaped quote c := by
  fun_cases escaped quote c
  case case1 special =>
    simp only [Bool.or_eq_true, beq_iff_eq] at special
    rcases special with rfl | rfl
    · decide
    · rcases mark with rfl | rfl <;> decide
  case case5 lineEnd _ _ _ =>
    rw [List.mem_singleton]
    rintro rfl
    exact lineEnd rfl
  case case6 | case7 | case8 => simp [lineEnd_not_mem_hex]
  all_goals decide

/-- A quoted text is in one line. -/
theorem lineEnd_not_mem_quoted (t : Text) : '\n' ∉ t.quoted := by
  have mark := t.enclosingQuote_cases
  have quote : '\n' ≠ t.enclosingQuote := by
    rcases mark with same | same <;> rw [same] <;> decide
  simp [quoted, quote, lineEnd_not_mem_escaped mark]

end TinyTcl.Text
