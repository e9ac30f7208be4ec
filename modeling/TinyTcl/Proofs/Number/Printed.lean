import TinyTcl.Proofs.Number.Coercion
import TinyTcl.Value.Arithmetic

/-! Printed numbers as strings. Whatever layout a decimal is given, its text is a numeral
(`Decimal.Scaled.exists_written`), so the text of every finite number is read as a number again.
Reals are not checked for their range, so arithmetic also gives infinities and what is no number,
and the texts of these are no numerals.

Main statements: the text of a number is a numeral if and only if the number is finite
(`Number.isNumeric_text`), and then it gives an integer for an integer, the same one, and a real for
a real (`Number.exists_survives`). -/
namespace TinyTcl

namespace Number

/-- Whether a number lies on the number line. -/
def isFinite : Number → Bool
  | integer _ => true
  | real x => x.isFinite

/-! ### The bits of a real -/

open Float.Model in
private theorem isFinite_unpacked (f : UnpackedFloat) : f.isFinite = !(f.isNaN || f.isInf) := by
  cases f <;> rfl

/-- A real is finite, or infinite, or no number. -/
theorem isFinite_real (x : Float) : x.isFinite = !(x.isNaN || x.isInf) :=
  isFinite_unpacked x.toModel.unpack

open Float.Model in
private theorem isInf_unpack (b : BitVec 64) :
    (UnpackedFloat.unpack Format.binary64 b).isInf = true ↔
    @UnpackedFloat.unpackExponent .binary64 b = -1#_ ∧
      @UnpackedFloat.unpackMantissa .binary64 b = 0#_ := by
  unfold UnpackedFloat.unpack
  dsimp only
  by_cases exponent : @UnpackedFloat.unpackExponent .binary64 b = -1#_
  · rw [if_pos exponent]
    by_cases mantissa : @UnpackedFloat.unpackMantissa .binary64 b = 0#_
    · rw [if_pos mantissa]
      exact ⟨fun _ => ⟨exponent, mantissa⟩, fun _ => rfl⟩
    · rw [if_neg mantissa]
      exact ⟨fun h => Bool.noConfusion h, fun h => absurd h.2 mantissa⟩
  · rw [if_neg exponent]
    refine ⟨fun h => ?_, fun h => absurd h.1 exponent⟩
    by_cases least : @UnpackedFloat.unpackExponent .binary64 b = 0#_
    · rw [if_pos least] at h
      by_cases mantissa : @UnpackedFloat.unpackMantissa .binary64 b = 0#_
      · rw [dif_pos mantissa] at h
        cases h
      · rw [dif_neg mantissa] at h
        cases h
    · rw [if_neg least] at h
      cases h

/-- Infinite reals have all bits of the exponent set and none of the significand. -/
theorem isInf_iff (x : Float) :
    x.isInf = true ↔ x.toBits &&& 0x7FFFFFFFFFFFFFFF = 0x7FF0000000000000 := by
  refine (isInf_unpack x.toBits.toBitVec).trans ?_
  generalize x.toBits = bits
  have exponent : (@Float.Model.UnpackedFloat.unpackExponent .binary64
      bits.toBitVec).toNat = bits.toNat / 2 ^ 52 % 2 ^ 11 := by
    simp [Float.Model.UnpackedFloat.unpackExponent, BitVec.extractLsb, Nat.shiftRight_eq_div_pow]
  have mantissa : (@Float.Model.UnpackedFloat.unpackMantissa .binary64
      bits.toBitVec).toNat = bits.toNat % 2 ^ 52 := by
    simp [Float.Model.UnpackedFloat.unpackMantissa, BitVec.extractLsb]
  have magnitude : (bits &&& 0x7FFFFFFFFFFFFFFF).toNat = bits.toNat % 2 ^ 63 := by
    rw [UInt64.toNat_and]
    exact Nat.and_two_pow_sub_one_eq_mod bits.toNat 63
  rw [← BitVec.toNat_inj, ← BitVec.toNat_inj, ← UInt64.toNat_inj, exponent, mantissa, magnitude]
  simp
  omega

end Number

/-! ### Texts of decimals -/

namespace Text

/-- Whether a text is made of decimal digits alone. -/
def IsDecimal (t : Text) : Prop := ∀ c ∈ t, (digitValue? c).isSome = true

private theorem isDecimal_ofNat (n : Nat) : IsDecimal (ofNat n) := by
  intro c inside
  obtain ⟨m, rfl⟩ := exists_digit_of_mem_ofNat inside
  rw [digitValue?_digit]
  rfl

private theorem isDecimal_zeros (n : Nat) : IsDecimal (List.replicate n '0') := by
  intro c inside
  rw [List.eq_of_mem_replicate inside]
  decide

theorem IsDecimal.append {t u : Text} (h : IsDecimal t) (k : IsDecimal u) :
    IsDecimal (t ++ u) := by
  intro c inside
  exact (List.mem_append.mp inside).elim (h c) (k c)

end Text

namespace Numeral

section Layouts

variable {negative : Bool} {sign t u v : Text} {exponent : Int} (signed : SignText negative sign)
  (whole : t.IsDecimal) (some : t ≠ []) (written : ExponentText exponent v)

include signed whole some written

private theorem exists_point (fraction : u.IsDecimal) : ∃ digits digits',
    (real negative digits digits' exponent).Written (sign ++ (t ++ '.' :: (u ++ v))) := by
  obtain ⟨digits, spelled, nonempty⟩ := exists_digits_of_forall whole
  obtain ⟨digits', spelled', -⟩ := exists_digits_of_forall fraction
  exact ⟨digits, digits', .point signed spelled spelled' (.inl (nonempty some)) written⟩

private theorem exists_scientific (marked : v ≠ []) : ∃ digits digits',
    (real negative digits digits' exponent).Written (sign ++ (t ++ v)) := by
  obtain ⟨digits, spelled, nonempty⟩ := exists_digits_of_forall whole
  exact ⟨digits, [], .scientific signed spelled (nonempty some) written marked⟩

end Layouts

private theorem exists_exponentText {negative : Bool} {sign t : Text}
    (signed : SignText negative sign) (decimal : t.IsDecimal) (some : t ≠ []) :
    ∃ exponent, ExponentText exponent ('e' :: (sign ++ t)) := by
  obtain ⟨digits, spelled, nonempty⟩ := exists_digits_of_forall decimal
  exact ⟨_, .some (.inl rfl) signed spelled (nonempty some)⟩

end Numeral

/-- The text of a decimal is a real numeral in every layout. -/
theorem Decimal.Scaled.exists_written (d : Scaled) (layout : Layout) {negative : Bool}
    {sign : Text} (signed : Numeral.SignText negative sign) : ∃ whole fraction exponent,
      (Numeral.real negative whole fraction exponent).Written (sign ++ d.text layout) := by
  have decimal := Text.isDecimal_ofNat d.digits
  have some := Text.ofNat_ne_nil d.digits
  unfold text
  dsimp only
  generalize Text.ofNat d.digits = digits at decimal some ⊢
  have front (n : Nat) : Text.IsDecimal (digits.take n) :=
    fun c inside => decimal c (List.mem_of_mem_take inside)
  have back (n : Nat) : Text.IsDecimal (digits.drop n) :=
    fun c inside => decimal c (List.mem_of_mem_drop inside)
  have first (n : Nat) : digits.take (n + 1) ≠ [] := by simpa using some
  generalize d.exponent + digits.length - 1 = leading
  split
  · split
    · obtain ⟨whole, fraction, written⟩ := Numeral.exists_point signed
        (Text.isDecimal_zeros 1) (by simp) .none
        ((Text.isDecimal_zeros (-leading - 1).toNat).append decimal)
      exact ⟨whole, fraction, 0, by simpa using written⟩
    · split
      · obtain ⟨whole, fraction, written⟩ := Numeral.exists_point signed
          (decimal.append (Text.isDecimal_zeros (leading.toNat + 1 - digits.length)))
          (by simp [some]) .none (Text.isDecimal_zeros 1)
        exact ⟨whole, fraction, 0, by simpa using written⟩
      · obtain ⟨whole, fraction, written⟩ := Numeral.exists_point signed
          (front (leading.toNat + 1)) (first _) .none (back (leading.toNat + 1))
        exact ⟨whole, fraction, 0, by simpa using written⟩
  · have size := (Text.isDecimal_zeros (layout.exponentWidth -
      (Text.ofNat leading.natAbs).length)).append (Text.isDecimal_ofNat leading.natAbs)
    have size_some : List.replicate (layout.exponentWidth -
        (Text.ofNat leading.natAbs).length) '0' ++ Text.ofNat leading.natAbs ≠ [] := by
      simp [Text.ofNat_ne_nil]
    generalize List.replicate (layout.exponentWidth - (Text.ofNat leading.natAbs).length) '0' =
      zeros at size size_some ⊢
    obtain ⟨below, mark⟩ : ∃ below, Numeral.SignText below [if leading < 0 then '-' else '+'] := by
      split
      · exact ⟨true, .minus⟩
      · exact ⟨false, .plus⟩
    obtain ⟨exponent, marked⟩ := Numeral.exists_exponentText mark size size_some
    split
    · obtain ⟨whole, fraction, written⟩ := Numeral.exists_scientific signed (front 1) (first 0)
        marked (by simp)
      exact ⟨whole, fraction, exponent, by simpa using written⟩
    · obtain ⟨whole, fraction, written⟩ := Numeral.exists_point signed (front 1) (first 0)
        marked (back 1)
      exact ⟨whole, fraction, exponent, by simpa using written⟩

/-! ### Texts of numbers -/

namespace Number

private theorem exists_signText (minus : Bool) :
    ∃ negative, Numeral.SignText negative (if minus then ['-'] else []) := by
  cases minus
  · exact ⟨false, .none⟩
  · exact ⟨true, .minus⟩

/-- The text of a finite real is a real numeral. -/
theorem exists_written_of_isFinite {x : Float} (finite : x.isFinite = true) :
    ∃ negative whole fraction exponent,
      (Numeral.real negative whole fraction exponent).Written (textOfReal x) := by
  rw [isFinite_real, Bool.not_eq_true', Bool.or_eq_false_iff] at finite
  obtain ⟨number, bounded⟩ := finite
  have bounded : x.toBits &&& 0x7FFFFFFFFFFFFFFF ≠ 0x7FF0000000000000 := fun infinite =>
    absurd ((isInf_iff x).mpr infinite) (by simp [bounded])
  obtain ⟨negative, signed⟩ := exists_signText (x.toBits >>> 63 == 1)
  unfold textOfReal
  simp only [number, Bool.false_eq_true, if_false, beq_iff_eq, bounded] at signed ⊢
  refine ⟨negative, ?_⟩
  split
  · obtain ⟨whole, fraction, written⟩ := Numeral.exists_point signed (Text.isDecimal_zeros 1)
      (by simp) .none (Text.isDecimal_zeros 1)
    exact ⟨whole, fraction, 0, written⟩
  · exact Decimal.Scaled.exists_written _ _ signed

/-- Reals that are not finite have texts of their own. -/
theorem text_of_not_isFinite {x : Float} (h : x.isFinite = false) :
    textOfReal x ∈ ["inf".toList, "-inf".toList, "nan".toList] := by
  rw [isFinite_real, Bool.not_eq_false', Bool.or_eq_true] at h
  unfold textOfReal
  by_cases number : x.isNaN = true
  · rw [if_pos number]
    decide
  · have infinite := (isInf_iff x).mp (h.resolve_left number)
    simp only [number, infinite, Bool.false_eq_true, if_false, beq_self_eq_true, if_true]
    split <;> decide

private theorem ofText?_of_not_isFinite {x : Float} (h : x.isFinite = false) :
    Numeral.ofText? (textOfReal x) = none := by
  have texts : ∀ t ∈ ["inf".toList, "-inf".toList, "nan".toList], Numeral.ofText? t = none := by
    decide +kernel
  exact texts _ (text_of_not_isFinite h)

/-- What a number is found again as in its text: an integer as itself, a real as a real. -/
inductive Survives : Number → Number → Prop where
  | integer (n : Integer) : Survives (integer n) (integer n)
  | real (x y : Float) : Survives (real x) (real y)

/-- The text of a finite number is read as a number again. -/
theorem exists_survives {n : Number} (finite : n.isFinite = true) (place : Place) :
    ∃ m, (Value.string n.text).toNumber place = .ok m ∧ n.Survives m := by
  cases n with
  | integer n =>
    refine ⟨.integer n, ?_, .integer n⟩
    rw [text, Value.toNumber, ofText?_ofInt]
  | real x =>
    obtain ⟨negative, whole, fraction, exponent, written⟩ := exists_written_of_isFinite finite
    have read : Numeral.ofText? (textOfReal x) = some (.real negative whole fraction exponent) := by
      rw [Numeral.ofText?_eq_some_iff, written.trim_eq]
      exact written
    obtain ⟨y, number⟩ := Value.toNumber_of_real place read
    exact ⟨.real y, number, .real x y⟩

theorem isNumeric_text (n : Number) : (Value.string n.text).isNumeric = n.isFinite := by
  cases finite : n.isFinite with
  | true =>
    obtain ⟨m, number, _⟩ := exists_survives finite .unknown
    cases read : Numeral.ofText? n.text with
    | some numeral => rw [Value.isNumeric_eq, read, Option.isSome_some]
    | none =>
      rw [Value.toNumber_of_none .unknown read] at number
      cases number
  | false =>
    cases n with
    | integer n => cases finite
    | real x =>
      rw [Value.isNumeric_eq, text, ofText?_of_not_isFinite finite, Option.isSome_none]

end Number

namespace Value

/-- A value that is made of a number of a host program, or that arithmetic gives. -/
inductive Computed : Value → Prop where
  | boolean {b : Bool} {v : Value} (given : ofHost (.boolean b) = .ok v) : Computed v
  | integer {n : Int} {v : Value} (given : ofHost (.integer n) = .ok v) : Computed v
  | real {x : Float} {v : Value} (given : ofHost (.real x) = .ok v) : Computed v
  | arithmetic {operator : Text} {a b v : Value} {place : Place}
      (given : applyNamed operator a b place = .ok v) : Computed v
  | negated {a v : Value} {place : Place} (given : negate a place = .ok v) : Computed v

private theorem exists_number_of_map {e : Except Failure Number} {v : Value}
    (h : number <$> e = .ok v) : ∃ n, v = number n := by
  cases e with
  | error failure => cases h
  | ok n =>
    cases h
    exact ⟨n, rfl⟩

/-- Computed values are numbers. -/
theorem Computed.exists_number {v : Value} (h : v.Computed) : ∃ n, v = number n := by
  cases h with
  | boolean given => exact exists_number_of_map given
  | integer given => exact exists_number_of_map given
  | real given =>
    cases given
    exact ⟨_, rfl⟩
  | @arithmetic operator a b _ place given =>
    unfold applyNamed at given
    cases first : a.toNumber place with
    | error failure =>
      rw [first] at given
      cases given
    | ok m =>
      cases second : b.toNumber place with
      | error failure =>
        rw [first, second] at given
        cases given
      | ok n =>
        rw [first, second] at given
        cases named : Operator.ofText? operator with
        | none =>
          rw [named] at given
          cases given
        | some operator =>
          rw [named] at given
          exact exists_number_of_map given
  | @negated a _ place given =>
    unfold negate at given
    cases operand : a.toNumber place with
    | error failure =>
      rw [operand] at given
      cases given
    | ok m =>
      rw [operand] at given
      exact exists_number_of_map given

end Value
end TinyTcl
