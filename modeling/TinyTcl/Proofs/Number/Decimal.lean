import TinyTcl.Value.Basic

/-! Decimals read back. The decimal form of an integer is a numeral that denotes the integer: no
blank stands in it, its digits are read to the end, and their value is the number they were made
from. So a 64-bit integer is found again in its text (`Number.ofText?_ofInt`). -/
namespace TinyTcl

namespace Text

/-- The decimal form of a number is made of digits. -/
theorem exists_digit_of_mem_ofNat {n : Nat} {c : Char} (h : c ∈ ofNat n) : ∃ m, c = digit m := by
  induction n using Nat.strongRecOn with
  | _ n ih =>
    rw [ofNat] at h
    split at h
    · exact ⟨n, List.mem_singleton.mp h⟩
    · next large =>
      rcases List.mem_append.mp h with front | last
      · exact ih (n / 10) (by omega) front
      · exact ⟨n, List.mem_singleton.mp last⟩

theorem ofNat_ne_nil (n : Nat) : ofNat n ≠ [] := by
  rw [ofNat]
  split <;> simp

/-- A number below a power of ten has no more digits than the power has zeros. -/
theorem length_ofNat_le {n k : Nat} (positive : 0 < k) (h : n < Nat.pow 10 k) :
    (ofNat n).length ≤ k := by
  obtain ⟨k, rfl⟩ := Nat.exists_eq_add_one_of_ne_zero (Nat.ne_of_gt positive)
  induction k generalizing n with
  | zero =>
    have small : n < 10 := h
    rw [ofNat, if_pos small]
    exact Nat.le_refl 1
  | succ k ih =>
    rw [ofNat]
    split
    · simp
    · have bound : n < Nat.pow 10 (k + 1) * 10 := h
      have front := ih (n := n / 10) (Nat.succ_pos k) (Nat.div_lt_of_lt_mul (by rwa [Nat.mul_comm]))
      simp only [List.length_append, List.length_singleton]
      omega

/-- A text without blanks has nothing to trim. -/
theorem trim_eq_self {t : Text} (h : ∀ c ∈ t, isBlank c = false) : t.trim = t := by
  have front {u : Text} (h : ∀ c ∈ u, isBlank c = false) : u.dropWhile isBlank = u := by
    cases u with
    | nil => rfl
    | cons c rest => exact List.dropWhile_cons_of_neg (by simp [h c List.mem_cons_self])
  have back := front (u := t.reverse) fun c inside => h c (List.mem_reverse.mp inside)
  rw [trim, front h, back, List.reverse_reverse]

/-- What holds of the ten digits holds of every digit. -/
theorem digit_cases {P : Nat → Char → Prop}
    (each : ∀ m < 10, P m (Char.ofNat ('0'.toNat + m))) (n : Nat) : P (n % 10) (digit n) :=
  each (n % 10) (Nat.mod_lt n (by decide))

private theorem isBlank_digit (n : Nat) : isBlank (digit n) = false :=
  digit_cases (P := fun _ c => isBlank c = false) (by decide) n

end Text

theorem digitValue?_digit (n : Nat) : digitValue? (Text.digit n) = some (n % 10) :=
  Text.digit_cases (P := fun m c => digitValue? c = some m) (by decide) n

namespace Numeral

theorem valueOf_concat (digits : List Nat) (digit : Nat) :
    valueOf (digits ++ [digit]) = 10 * valueOf digits + digit := by
  simp [valueOf]

/-- Digits that reach the end of a text are read on into what is put behind it. -/
theorem splitDigits_append {t : Text} {digits : List Nat} (h : splitDigits t = (digits, []))
    (u : Text) : splitDigits (t ++ u) = (digits ++ (splitDigits u).1, (splitDigits u).2) := by
  induction t generalizing digits with
  | nil =>
    cases h
    rfl
  | cons c rest ih =>
    simp only [splitDigits, List.cons_append] at h ⊢
    split at h
    · next digit _ =>
      obtain ⟨rfl, none⟩ := Prod.mk.inj h
      rw [ih (Prod.ext rfl none)]
      rfl
    · cases h

/-- The digits of a decimal form denote the number. -/
theorem splitDigits_ofNat (n : Nat) : ∃ digits, splitDigits (Text.ofNat n) = (digits, []) ∧
    valueOf digits = n ∧ digits.length = (Text.ofNat n).length := by
  have single (n : Nat) : splitDigits [Text.digit n] = ([n % 10], []) := by
    simp [splitDigits, digitValue?_digit]
  induction n using Nat.strongRecOn with
  | _ n ih =>
    rw [Text.ofNat]
    split
    · next small =>
      refine ⟨[n % 10], single n, ?_, rfl⟩
      simp [valueOf, Nat.mod_eq_of_lt small]
    · next large =>
      obtain ⟨digits, front, value, length⟩ := ih (n / 10) (by omega)
      refine ⟨digits ++ [n % 10], ?_, ?_, by simp [length]⟩
      · rw [splitDigits_append front, single]
      · rw [valueOf_concat, value]
        omega

/-- Digits alone are an integer. -/
theorem ofTrimmed?_of_digits {t u : Text} {negative : Bool} {digits : List Nat}
    (sign : splitSign t = (negative, u)) (read : splitDigits u = (digits, []))
    (some : digits ≠ []) : ofTrimmed? t = .some (.integer negative digits) := by
  simp [ofTrimmed?, sign, read, some]

/-- No digit is a sign. -/
theorem splitSign_ofNat (n : Nat) : splitSign (Text.ofNat n) = (false, Text.ofNat n) := by
  obtain ⟨c, rest, same⟩ := List.exists_cons_of_ne_nil (Text.ofNat_ne_nil n)
  obtain ⟨m, rfl⟩ := Text.exists_digit_of_mem_ofNat (same ▸ List.mem_cons_self)
  have apart : Text.digit m ≠ '-' ∧ Text.digit m ≠ '+' :=
    Text.digit_cases (P := fun _ c => c ≠ '-' ∧ c ≠ '+') (by decide) m
  rw [same]
  unfold splitSign
  split
  · next h => exact absurd (List.cons.inj h).1 apart.1
  · next h => exact absurd (List.cons.inj h).1 apart.2
  · rfl

private theorem trim_ofInt (n : Int) : (Text.ofInt n).trim = Text.ofInt n := by
  apply Text.trim_eq_self
  intro c inside
  have digits (m : Nat) (h : c ∈ Text.ofNat m) : isBlank c = false := by
    obtain ⟨k, rfl⟩ := Text.exists_digit_of_mem_ofNat h
    exact Text.isBlank_digit k
  unfold Text.ofInt at inside
  split at inside
  · rcases List.mem_cons.mp inside with rfl | inside
    · decide
    · exact digits _ inside
  · exact digits _ inside

/-- The decimal form of an integer is an integer numeral that denotes it. -/
theorem ofText?_ofInt (n : Int) : ∃ negative digits,
    ofText? (Text.ofInt n) = some (.integer negative digits) ∧
      signed negative (valueOf digits) = n ∧
      digits.length = (Text.ofNat n.natAbs).length := by
  obtain ⟨digits, read, value, length⟩ := splitDigits_ofNat n.natAbs
  have some : digits ≠ [] := by
    rintro rfl
    exact Text.ofNat_ne_nil _ (List.length_eq_zero_iff.mp length.symm)
  rw [ofText?, trim_ofInt]
  unfold Text.ofInt
  split
  · next below =>
    refine ⟨true, digits, ofTrimmed?_of_digits rfl read some, ?_, length⟩
    simp only [signed, value, if_true]
    omega
  · next above =>
    refine ⟨false, digits, ofTrimmed?_of_digits (splitSign_ofNat _) read some, ?_, length⟩
    simp only [signed, value, Bool.false_eq_true, if_false]
    omega

end Numeral

/-- The magnitude of a 64-bit integer has far fewer digits than are read. -/
theorem Integer.length_magnitude_le (n : Integer) :
    (Text.ofNat n.val.natAbs).length ≤ maxDigits := by
  have short : (Text.ofNat n.val.natAbs).length ≤ 19 :=
    Text.length_ofNat_le (by decide) (Nat.lt_of_le_of_lt n.natAbs_le (by decide))
  exact Nat.le_trans short (by decide)

/-- **Integers read back.** The number that the decimal form of a 64-bit integer denotes is that
integer. -/
theorem Number.ofText?_ofInt (n : Integer) :
    Number.ofText? (Text.ofInt n.val) = .ok (some (.integer n)) := by
  obtain ⟨negative, digits, read, value, length⟩ := Numeral.ofText?_ofInt n.val
  have few : ¬ digits.length > maxDigits := by
    rw [length]
    exact Nat.not_lt.mpr n.length_magnitude_le
  simp only [Number.ofText?, read, Numeral.toNumber, if_neg few, value, ofInt_val]
  rfl

/-- An integer that does not fit, but is not too long to be written, is shown in the overflow. -/
theorem Number.ofInt_of_unfit {n : Int} (unfit : ¬ Integer.Fits n)
    (short : (Text.ofNat n.natAbs).length ≤ maxDigits) (place : Place) :
    ofInt n place = .error (place.fail (.overflow (Text.ofInt n))) := by
  simp only [ofInt, Integer.ofInt?_eq_none_iff.mpr unfit, if_neg (Nat.not_lt.mpr short)]

end TinyTcl
