import TinyTcl.Text.Basic

/-! Classes of characters keep apart: no digit of any script is a letter or a blank. The classes
are tables of code points, and two tables are compared row by row
(`Text.Ranges.contains_of_isDigit`). -/
namespace TinyTcl

/-- No digit lies in ranges that keep clear of the digits. The tables are compared as Booleans:
propositions take the kernel several times as long. -/
theorem Text.Ranges.contains_of_isDigit {ranges : Ranges} {c : Char}
    (zeros : (decimalZeros.all fun origin => ranges.rows.all fun r =>
      (origin + 10).ble r.1 || r.2.blt origin) = true)
    (raised : (raisedDigitRanges.rows.all fun s => ranges.rows.all fun r =>
      s.2.blt r.1 || r.2.blt s.1) = true)
    (digit : isDigit c = true) : ranges.contains c.toNat = false := by
  simp only [List.all_eq_true, Bool.or_eq_true, Nat.ble_eq, Nat.blt_eq] at zeros raised
  rw [Bool.eq_false_iff]
  intro other
  obtain ⟨r, listed, low, high⟩ := contains_iff.mp other
  rw [isDigit, Bool.or_eq_true] at digit
  rcases digit with value | other
  · obtain ⟨d, value⟩ := Option.isSome_iff_exists.mp value
    obtain ⟨origin, inside, same, below⟩ := digitValue?_eq_some_iff.mp value
    have apart := zeros origin inside r listed
    omega
  · obtain ⟨s, inside, above, below⟩ := contains_iff.mp other
    have apart := raised s inside r listed
    omega

/-- No digit of any script is a letter of one. -/
theorem isLetter_of_isDigit {c : Char} (digit : isDigit c = true) : isLetter c = false :=
  Text.Ranges.contains_of_isDigit (by decide +kernel) (by decide +kernel) digit

/-- No digit of any script is a blank. -/
theorem isBlank_of_isDigit {c : Char} (digit : isDigit c = true) : isBlank c = false :=
  Text.Ranges.contains_of_isDigit (by decide +kernel) (by decide +kernel) digit

theorem startsName_of_isDigit {c : Char} (digit : isDigit c = true) : startsName c = false := by
  have underscore : c ≠ '_' := by
    rintro rfl
    revert digit
    decide +kernel
  simp [startsName, isLetter_of_isDigit digit, underscore]

end TinyTcl
