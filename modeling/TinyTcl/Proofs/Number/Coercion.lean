import Mathlib.Data.List.Induction
import Mathlib.Data.Nat.Digits.Defs
import TinyTcl.Proofs.Number.Decimal
import TinyTcl.Proofs.Text.Classes

/-! Strings used as numbers. `Numeral.Written` says how numerals are written, independently of the
reader: a sign, digits, a point with a fraction, an exponent. The reader accepts just these texts
(`Numeral.ofTrimmed?_eq_some_iff`).

Main statement: a string is used as a number or refused, and it is refused if and only if it is no
numeral. An integer numeral gives the integer that its digits denote if that fits into 64 bits, and
an overflow if not; one of more than `maxDigits` digits is not read at all
(`Value.coercion_of_string`). -/
namespace TinyTcl

namespace Numeral

/-- Decimal digits with these values. -/
def Digits (t : Text) (digits : List Nat) : Prop :=
  List.Forall₂ (fun c digit => digitValue? c = some digit) t digits

/-- The sign of a numeral, which may be left out; is it negative? -/
inductive SignText : Bool → Text → Prop where
  | none : SignText false []
  | plus : SignText false ['+']
  | minus : SignText true ['-']

/-- The exponent of a numeral, which may be left out. -/
inductive ExponentText : Int → Text → Prop where
  | none : ExponentText 0 []
  | some {mark : Char} {negative : Bool} {sign t : Text} {digits : List Nat} :
      mark = 'e' ∨ mark = 'E' → SignText negative sign → Digits t digits → digits ≠ [] →
      ExponentText (signed negative (valueOf digits)) (mark :: (sign ++ t))

/-- How a numeral is written. -/
inductive Written : Numeral → Text → Prop where
  | integer {negative : Bool} {sign t : Text} {digits : List Nat} :
      SignText negative sign → Digits t digits → digits ≠ [] →
      Written (.integer negative digits) (sign ++ t)
  | point {negative : Bool} {sign t u v : Text} {whole fraction : List Nat} {exponent : Int} :
      SignText negative sign → Digits t whole → Digits u fraction → whole ≠ [] ∨ fraction ≠ [] →
      ExponentText exponent v →
      Written (.real negative whole fraction exponent) (sign ++ (t ++ '.' :: (u ++ v)))
  | scientific {negative : Bool} {sign t v : Text} {whole : List Nat} {exponent : Int} :
      SignText negative sign → Digits t whole → whole ≠ [] → ExponentText exponent v → v ≠ [] →
      Written (.real negative whole [] exponent) (sign ++ (t ++ v))

/-! ### The parts of a numeral -/

/-- No sign stands in front. -/
def Unsigned (t : Text) : Prop := ∀ c ∈ t.head?, c ≠ '-' ∧ c ≠ '+'

/-- No digit stands in front. -/
def Undigited (t : Text) : Prop := ∀ c ∈ t.head?, digitValue? c = none

private theorem exists_signText {t rest : Text} {negative : Bool}
    (h : splitSign t = (negative, rest)) :
    ∃ sign, SignText negative sign ∧ t = sign ++ rest := by
  unfold splitSign at h
  split at h
  · cases h
    exact ⟨_, .minus, rfl⟩
  · cases h
    exact ⟨_, .plus, rfl⟩
  · cases h
    exact ⟨_, .none, rfl⟩

private theorem splitSign_of_signText {negative : Bool} {sign t : Text} (h : SignText negative sign)
    (other : Unsigned t) : splitSign (sign ++ t) = (negative, t) := by
  cases h with
  | plus | minus => rfl
  | none =>
    rw [List.nil_append]
    unfold splitSign
    split
    · exact absurd rfl (other _ rfl).1
    · exact absurd rfl (other _ rfl).2
    · rfl

private theorem exists_digits {t rest : Text} {digits : List Nat}
    (h : splitDigits t = (digits, rest)) :
    ∃ front, Digits front digits ∧ t = front ++ rest := by
  induction t generalizing digits with
  | nil =>
    cases h
    exact ⟨[], .nil, rfl⟩
  | cons c others ih =>
    unfold splitDigits at h
    split at h
    · next digit value =>
      cases h
      obtain ⟨front, spelled, whole⟩ := ih rfl
      exact ⟨c :: front, .cons value spelled, congrArg (c :: ·) whole⟩
    · cases h
      exact ⟨[], .nil, rfl⟩

private theorem splitDigits_of_digits {t u : Text} {digits : List Nat} (h : Digits t digits)
    (ends : Undigited u) : splitDigits (t ++ u) = (digits, u) := by
  induction h with
  | nil =>
    cases u with
    | nil => rfl
    | cons c rest =>
      have none : digitValue? c = none := ends c rfl
      simp [splitDigits, none]
  | cons value _ ih => simp [splitDigits, value, ih]

/-- Signs, the point and the marks of an exponent are no digits. -/
theorem digitValue?_mark {c : Char} (h : c = '-' ∨ c = '+' ∨ c = '.' ∨ c = 'e' ∨ c = 'E') :
    digitValue? c = none := by
  rcases h with rfl | rfl | rfl | rfl | rfl <;> decide

private theorem unsigned_of_digits {t : Text} {digits : List Nat} (h : Digits t digits)
    (some : digits ≠ []) (u : Text) : Unsigned (t ++ u) := by
  cases h with
  | nil => exact absurd rfl some
  | cons value _ =>
    rintro c same
    obtain rfl := Option.some.inj same
    constructor
    · rintro rfl
      cases (digitValue?_mark (.inl rfl)).symm.trans value
    · rintro rfl
      cases (digitValue?_mark (.inr (.inl rfl))).symm.trans value

private theorem undigited_of_mark {c : Char} {t : Text} (h : c = '.' ∨ c = 'e' ∨ c = 'E') :
    Undigited (c :: t) := by
  rintro d same
  obtain rfl := Option.some.inj same
  exact digitValue?_mark (.inr (.inr h))

private theorem ExponentText.undigited {exponent : Int} {t : Text} (h : ExponentText exponent t) :
    Undigited t := by
  cases h with
  | none => simp [Undigited]
  | some mark _ _ _ => exact undigited_of_mark (.inr mark)

/-- The reader of exponents accepts what is written as one. -/
theorem exponentOf?_eq_some_iff {t : Text} {exponent : Int} :
    exponentOf? t = some exponent ↔ ExponentText exponent t := by
  constructor
  · intro h
    cases t with
    | nil =>
      cases h
      exact .none
    | cons c rest =>
      by_cases mark : (c == 'e' || c == 'E') = true
      · rcases first : splitSign rest with ⟨negative, u⟩
        rcases second : splitDigits u with ⟨digits, v⟩
        obtain ⟨sign, sign_text, rfl⟩ := exists_signText first
        obtain ⟨front, spelled, rfl⟩ := exists_digits second
        simp only [exponentOf?, mark, if_true, first, second] at h
        split at h
        case h_2 => cases h
        case h_1 read =>
          cases read
          cases h
          rw [List.append_nil]
          exact .some (by simpa using mark) sign_text spelled (by simp)
      · simp only [exponentOf?, mark, Bool.false_eq_true, if_false] at h
        cases h
  · intro h
    cases h with
    | none => rfl
    | @some c negative sign t digits mark sign_text spelled some =>
      have isMark : (c == 'e' || c == 'E') = true := by simpa using mark
      have first := splitSign_of_signText sign_text (unsigned_of_digits spelled some [])
      have second := splitDigits_of_digits spelled (u := []) (by simp [Undigited])
      rw [List.append_nil] at first second
      obtain ⟨digit, others, rfl⟩ := List.exists_cons_of_ne_nil some
      simp [exponentOf?, isMark, first, second]

/-- The reader of numerals accepts what is written as one, and says what is written. -/
theorem ofTrimmed?_eq_some_iff {t : Text} {n : Numeral} : ofTrimmed? t = some n ↔ n.Written t := by
  constructor
  · intro h
    rcases first : splitSign t with ⟨negative, u⟩
    rcases second : splitDigits u with ⟨whole, v⟩
    obtain ⟨sign, sign_text, rfl⟩ := exists_signText first
    obtain ⟨front, spelled, rfl⟩ := exists_digits second
    simp only [ofTrimmed?, first, second] at h
    split at h
    case h_1 =>
      split at h
      case isTrue => cases h
      case isFalse some =>
        cases h
        rw [List.append_nil]
        exact .integer sign_text spelled (by simpa using some)
    case h_2 rest =>
      rcases third : splitDigits rest with ⟨fraction, w⟩
      obtain ⟨front', spelled', rfl⟩ := exists_digits third
      simp only [third] at h
      split at h
      case isTrue => cases h
      case isFalse some =>
        obtain ⟨exponent, written, rfl⟩ := Option.map_eq_some_iff.mp h
        refine .point sign_text spelled spelled' ?_ (exponentOf?_eq_some_iff.mp written)
        simpa [← not_and_or] using some
    case h_3 marked _ =>
      split at h
      case isTrue => cases h
      case isFalse some =>
        obtain ⟨exponent, written, rfl⟩ := Option.map_eq_some_iff.mp h
        exact .scientific sign_text spelled (by simpa using some)
          (exponentOf?_eq_some_iff.mp written)
          marked
  · intro h
    cases h with
    | @integer negative sign t digits sign_text spelled some =>
      have first := splitSign_of_signText sign_text (unsigned_of_digits spelled some [])
      have second := splitDigits_of_digits spelled (u := []) (by simp [Undigited])
      rw [List.append_nil] at first second
      exact ofTrimmed?_of_digits first second some
    | @point negative sign t u v whole fraction exponent sign_text spelled spelled' some written =>
      have unsigned : Unsigned (t ++ '.' :: (u ++ v)) := by
        cases whole with
        | nil =>
          cases spelled
          simp [Unsigned]
        | cons => exact unsigned_of_digits spelled (by simp) _
      have first := splitSign_of_signText sign_text unsigned
      have second := splitDigits_of_digits spelled (undigited_of_mark (t := u ++ v) (.inl rfl))
      have third := splitDigits_of_digits spelled' written.undigited
      have some : (whole.isEmpty && fraction.isEmpty) = false := by
        simpa [← not_and_or] using some
      simp [ofTrimmed?, first, second, third, some, exponentOf?_eq_some_iff.mpr written]
    | @scientific negative sign t v whole exponent sign_text spelled some written marked =>
      have first := splitSign_of_signText sign_text (unsigned_of_digits spelled some v)
      have second := splitDigits_of_digits spelled written.undigited
      have read := exponentOf?_eq_some_iff.mpr written
      cases written with
      | none => exact absurd rfl marked
      | some mark => rcases mark with rfl | rfl <;> simp [ofTrimmed?, first, second, some, read]

/-! ### The characters of a numeral -/

/-- Decimal digits have values. -/
theorem exists_digits_of_forall {t : Text} (h : ∀ c ∈ t, (digitValue? c).isSome = true) :
    ∃ digits, Digits t digits ∧ (t ≠ [] → digits ≠ []) := by
  induction t with
  | nil => exact ⟨[], .nil, fun some => absurd rfl some⟩
  | cons c rest ih =>
    obtain ⟨digit, value⟩ := Option.isSome_iff_exists.mp (h c List.mem_cons_self)
    obtain ⟨digits, spelled, _⟩ := ih fun d inside => h d (List.mem_cons_of_mem _ inside)
    exact ⟨digit :: digits, .cons value spelled, fun _ => List.cons_ne_nil _ _⟩

/-- Whether a character can stand in a numeral. -/
def MayHold (c : Char) : Prop :=
  (digitValue? c).isSome = true ∨ c ∈ ['-', '+', '.', 'e', 'E']

private theorem Digits.mayHold {t : Text} {digits : List Nat} (h : Digits t digits) :
    ∀ c ∈ t, MayHold c := by
  induction h with
  | nil => simp
  | cons value _ ih =>
    intro c inside
    rcases List.mem_cons.mp inside with rfl | inside
    · exact .inl (Option.isSome_iff_exists.mpr ⟨_, value⟩)
    · exact ih c inside

private theorem SignText.mayHold {negative : Bool} {sign : Text} (h : SignText negative sign) :
    ∀ c ∈ sign, MayHold c := by
  cases h <;> simp [MayHold]

private theorem ExponentText.mayHold {exponent : Int} {t : Text} (h : ExponentText exponent t) :
    ∀ c ∈ t, MayHold c := by
  cases h with
  | none => simp
  | some mark sign digits _ =>
    intro c inside
    rcases List.mem_cons.mp inside with rfl | inside
    · exact .inr (by rcases mark with rfl | rfl <;> simp)
    · exact (List.mem_append.mp inside).elim (sign.mayHold c) (digits.mayHold c)

/-- A numeral is made of decimal digits, signs, points and marks of exponents. -/
theorem Written.mayHold {n : Numeral} {t : Text} (h : n.Written t) : ∀ c ∈ t, MayHold c := by
  intro c inside
  cases h with
  | integer sign digits _ =>
    exact (List.mem_append.mp inside).elim (sign.mayHold c) (digits.mayHold c)
  | point sign whole fraction _ exponent =>
    rcases List.mem_append.mp inside with first | inside
    · exact sign.mayHold c first
    rcases List.mem_append.mp inside with first | inside
    · exact whole.mayHold c first
    rcases List.mem_cons.mp inside with rfl | inside
    · exact .inr (by simp)
    · exact (List.mem_append.mp inside).elim (fraction.mayHold c) (exponent.mayHold c)
  | scientific sign whole _ exponent _ =>
    rcases List.mem_append.mp inside with first | inside
    · exact sign.mayHold c first
    · exact (List.mem_append.mp inside).elim (whole.mayHold c) (exponent.mayHold c)

/-- The marks of a numeral are no digits, with or without a value. -/
theorem isDigit_mark {c : Char} (mark : c ∈ ['-', '+', '.', 'e', 'E']) : isDigit c = false := by
  have marks : ['-', '+', '.', 'e', 'E'].any isDigit = false := by decide +kernel
  exact Bool.eq_false_iff.mpr (List.any_eq_false.mp marks c mark)

/-- No blanks stand around a numeral as it is written. -/
theorem Written.trim_eq {n : Numeral} {t : Text} (h : n.Written t) : t.trim = t := by
  have marks : ['-', '+', '.', 'e', 'E'].any isBlank = false := by decide
  apply Text.trim_eq_self
  intro c inside
  rcases h.mayHold c inside with value | mark
  · exact isBlank_of_isDigit (by simp [isDigit, value])
  · exact Bool.eq_false_iff.mpr (List.any_eq_false.mp marks c mark)

/-- The first digit counts most. -/
theorem valueOf_eq_ofDigits (digits : List Nat) :
    valueOf digits = Nat.ofDigits 10 digits.reverse := by
  induction digits using List.reverseRecOn with
  | nil => rfl
  | append_singleton front digit ih =>
    rw [valueOf_concat, ih, List.reverse_concat, Nat.ofDigits_cons]
    exact Nat.add_comm _ _

private theorem Digits.lt_ten {t : Text} {digits : List Nat} (h : Digits t digits) :
    ∀ digit ∈ digits, digit < 10 := by
  induction h with
  | nil => exact nofun
  | cons value _ ih =>
    obtain ⟨_, _, _, small⟩ := digitValue?_eq_some_iff.mp value
    exact List.forall_mem_cons.mpr ⟨small, ih⟩

/-- The value of digits is written with no more of them. -/
theorem Digits.length_ofNat_le {t : Text} {digits : List Nat} (h : Digits t digits)
    (some : digits ≠ []) : (Text.ofNat (valueOf digits)).length ≤ digits.length := by
  have value : valueOf digits < 10 ^ digits.reverse.length := by
    rw [valueOf_eq_ofDigits]
    exact Nat.ofDigits_lt_base_pow_length (by decide)
      fun digit inside => h.lt_ten digit (List.mem_reverse.mp inside)
  rw [List.length_reverse] at value
  exact Text.length_ofNat_le (List.length_pos_iff.mpr some) value

theorem natAbs_signed (negative : Bool) (n : Nat) : (signed negative n).natAbs = n := by
  cases negative <;> simp [signed]

theorem ofText?_eq_some_iff {t : Text} {n : Numeral} : ofText? t = some n ↔ n.Written t.trim :=
  ofTrimmed?_eq_some_iff

theorem length_magnitude_le {s : Text} {negative : Bool} {digits : List Nat}
    (h : ofText? s = some (integer negative digits)) (few : digits.length ≤ maxDigits) :
    (Text.ofNat (signed negative (valueOf digits)).natAbs).length ≤ maxDigits := by
  have written := ofText?_eq_some_iff.mp h
  generalize s.trim = t at written
  rw [natAbs_signed]
  cases written with
  | integer _ spelled some => exact Nat.le_trans (spelled.length_ofNat_le some) few

end Numeral

@[simp] theorem Diagnostic.cause_place (d : Diagnostic) (line column : Option Int) :
    (d.place line column).cause = d.cause := by
  unfold Diagnostic.place
  split <;> rfl

namespace Value

section Strings

variable {s : Text} {negative : Bool} {digits : List Nat} (place : Place)

theorem toNumber_of_none (h : Numeral.ofText? s = none) :
    (string s).toNumber place = .error (place.fail (.notNumeric s)) := by
  simp [toNumber, Number.ofText?, h]

theorem toNumber_of_real {whole fraction : List Nat} {exponent : Int}
    (h : Numeral.ofText? s = some (.real negative whole fraction exponent)) :
    ∃ x, (string s).toNumber place = .ok (.real x) := by
  refine ⟨(Numeral.real negative whole fraction exponent).toRealNumber, ?_⟩
  simp [toNumber, Number.ofText?, h, Numeral.toNumber, Except.map]

private theorem toNumber_of_long (h : Numeral.ofText? s = some (.integer negative digits))
    (long : maxDigits < digits.length) :
    (string s).toNumber place = .error (.tooManyDigits digits.length) := by
  simp [toNumber, Number.ofText?, h, Numeral.toNumber, long, Except.map, Failure.mapDiagnostic]

theorem toNumber_of_integer (h : Numeral.ofText? s = some (.integer negative digits))
    (few : digits.length ≤ maxDigits) {i : Integer}
    (fits : i.val = Numeral.signed negative (Numeral.valueOf digits)) :
    (string s).toNumber place = .ok (.integer i) := by
  have short : ¬ digits.length > maxDigits := Nat.not_lt.mpr few
  simp only [toNumber, Number.ofText?, h, Numeral.toNumber, short, if_false, ← fits,
    Number.ofInt_val, Except.map]

theorem toNumber_of_overflow (h : Numeral.ofText? s = some (.integer negative digits))
    (few : digits.length ≤ maxDigits)
    (large : ∀ i : Integer, i.val ≠ Numeral.signed negative (Numeral.valueOf digits)) :
    ∃ d, (string s).toNumber place = .error (.diagnostic d) ∧
      d.cause = .overflow (Text.ofInt (Numeral.signed negative (Numeral.valueOf digits))) := by
  have short : ¬ digits.length > maxDigits := Nat.not_lt.mpr few
  have unfit : ¬ Integer.Fits (Numeral.signed negative (Numeral.valueOf digits)) :=
    fun fits => large ⟨_, fits⟩ rfl
  have spelled := Numeral.length_magnitude_le h few
  refine ⟨.place ⟨.overflow _, .none, .none, .none⟩ place.line place.column, ?_,
    Diagnostic.cause_place _ _ _⟩
  simp only [toNumber, Number.ofText?, h, Numeral.toNumber, short, if_false,
    Number.ofInt_of_unfit unfit spelled, Except.map, Failure.mapDiagnostic, Place.fail]
  rfl

/-- A string is no numeral and refused, or too long, or too large, or a number. -/
theorem toNumber_cases (s : Text) :
    (Numeral.ofText? s = none ∧
      (string s).toNumber place = .error (place.fail (.notNumeric s))) ∨
    (∃ negative digits, Numeral.ofText? s = some (.integer negative digits) ∧
      maxDigits < digits.length ∧
      (string s).toNumber place = .error (.tooManyDigits digits.length)) ∨
    (∃ n d z, Numeral.ofText? s = some n ∧ (string s).toNumber place = .error (.diagnostic d) ∧
      d.cause = .overflow z) ∨
    ∃ n x, Numeral.ofText? s = some n ∧ (string s).toNumber place = .ok x := by
  rcases read : Numeral.ofText? s with _ | n
  · exact .inl ⟨rfl, toNumber_of_none place read⟩
  cases n with
  | real negative whole fraction exponent =>
    obtain ⟨x, number⟩ := toNumber_of_real place read
    exact .inr (.inr (.inr ⟨_, _, rfl, number⟩))
  | integer negative digits =>
    by_cases few : digits.length ≤ maxDigits
    · by_cases fits : ∃ i : Integer, i.val = Numeral.signed negative (Numeral.valueOf digits)
      · obtain ⟨i, fits⟩ := fits
        exact .inr (.inr (.inr ⟨_, _, rfl, toNumber_of_integer place read few fits⟩))
      · obtain ⟨d, fault, cause⟩ := toNumber_of_overflow place read few (not_exists.mp fits)
        exact .inr (.inr (.inl ⟨_, d, _, rfl, fault, cause⟩))
    · have long := Nat.not_le.mp few
      exact .inr (.inl ⟨negative, digits, rfl, long, toNumber_of_long place read long⟩)

theorem isNumeric_eq (s : Text) : (string s).isNumeric = (Numeral.ofText? s).isSome := rfl

end Strings

/-- **Strings as numbers.** A string is refused, by name, if and only if it is no numeral. An integer
numeral of at most `maxDigits` digits, zeros in front included, gives the integer that it denotes
if that is one of 64 bits, and an overflow if it is not; a longer one is not read, and tells so.
There is no other outcome without a number. -/
theorem coercion_of_string (s : Text) (place : Place) :
    ((string s).isNumeric = true ↔ ∃ n : Numeral, n.Written s.trim) ∧
    ((∃ d, (string s).toNumber place = .error (.diagnostic d) ∧ d.cause = .notNumeric s) ↔
      (string s).isNumeric = false) ∧
    (∀ negative digits, (Numeral.integer negative digits).Written s.trim →
      digits.length ≤ maxDigits → ∀ z, z = Numeral.signed negative (Nat.ofDigits 10 digits.reverse) →
        (∀ i : Integer, i.val = z → (string s).toNumber place = .ok (.integer i)) ∧
        ((∀ i : Integer, i.val ≠ z) → ∃ d, (string s).toNumber place = .error (.diagnostic d) ∧
          d.cause = .overflow (Text.ofInt z))) ∧
    (∀ k, (string s).toNumber place = .error (.tooManyDigits k) ↔ maxDigits < k ∧
      ∃ negative digits, (Numeral.integer negative digits).Written s.trim ∧ digits.length = k) ∧
    ∀ failure, (string s).toNumber place = .error failure →
      (∃ d, failure = .diagnostic d ∧ (d.cause = .notNumeric s ∨ ∃ z, d.cause = .overflow z)) ∨
        ∃ k, failure = .tooManyDigits k := by
  refine ⟨?numeral, ?refused, ?integer, ?long, ?faults⟩
  case numeral =>
    simp only [isNumeric_eq, Option.isSome_iff_exists, Numeral.ofText?_eq_some_iff]
  case refused =>
    rw [isNumeric_eq, Option.isSome_eq_false_iff, Option.isNone_iff_eq_none]
    constructor
    · rintro ⟨d, fault, cause⟩
      rcases toNumber_cases place s with ⟨none, _⟩ | ⟨_, _, _, _, other⟩ | ⟨_, _, _, _, other, kind⟩ |
        ⟨_, _, _, other⟩
      · exact none
      all_goals cases fault.symm.trans other
      cases cause.symm.trans kind
    · exact fun none => ⟨_, toNumber_of_none place none, rfl⟩
  case integer =>
    rintro negative digits written few z rfl
    rw [← Numeral.valueOf_eq_ofDigits]
    have read := Numeral.ofText?_eq_some_iff.mpr written
    exact ⟨fun i fits => toNumber_of_integer place read few fits,
      toNumber_of_overflow place read few⟩
  case long =>
    intro k
    constructor
    · intro fault
      rcases toNumber_cases place s with ⟨_, other⟩ | ⟨_, _, read, long, other⟩ |
        ⟨_, _, _, _, other, _⟩ | ⟨_, _, _, other⟩
      all_goals cases fault.symm.trans other
      exact ⟨long, _, _, Numeral.ofText?_eq_some_iff.mp read, rfl⟩
    · rintro ⟨long, negative, digits, written, rfl⟩
      exact toNumber_of_long place (Numeral.ofText?_eq_some_iff.mpr written) long
  case faults =>
    intro failure fault
    rcases toNumber_cases place s with ⟨_, other⟩ | ⟨_, _, _, _, other⟩ | ⟨_, d, z, _, other, cause⟩ |
      ⟨_, _, _, other⟩
    all_goals cases fault.symm.trans other
    · exact .inl ⟨_, rfl, .inl rfl⟩
    · exact .inr ⟨_, rfl⟩
    · exact .inl ⟨d, rfl, .inr ⟨z, cause⟩⟩

private theorem valueOf_zeros (n : Nat) : Numeral.valueOf (List.replicate n 0) = 0 := by
  induction n with
  | zero => rfl
  | succ n ih => rw [List.replicate_succ', Numeral.valueOf_concat, ih]

/-- Zeros are an integer numeral, however many they are. -/
theorem written_zeros (n : Nat) :
    (Numeral.integer false (List.replicate (n + 1) 0)).Written
      (Text.trim (List.replicate (n + 1) '0')) := by
  have blank : ∀ c ∈ List.replicate (n + 1) '0', isBlank c = false := by
    intro c inside
    rw [List.eq_of_mem_replicate inside]
    decide
  have zeros (m : Nat) : Numeral.Digits (List.replicate m '0') (List.replicate m 0) := by
    induction m with
    | zero => exact .nil
    | succ m ih => exact .cons (by decide) ih
  rw [Text.trim_eq_self blank]
  exact .integer .none (zeros (n + 1)) (by simp)

/-- A row of zeros is a numeral. It is read as zero up to `maxDigits` of them, and no further. -/
theorem coercion_of_zeros :
    (string (List.replicate 4301 '0')).isNumeric = true ∧
      (string (List.replicate 4301 '0')).toNumber .unknown = .error (.tooManyDigits 4301) ∧
      (string (List.replicate 4300 '0')).toNumber .unknown =
        .ok (.integer ⟨0, by decide⟩) := by
  obtain ⟨numeric, _, _, long, _⟩ := coercion_of_string (List.replicate 4301 '0') .unknown
  obtain ⟨_, _, integer, _, _⟩ := coercion_of_string (List.replicate 4300 '0') .unknown
  refine ⟨numeric.mpr ⟨_, written_zeros 4300⟩,
    (long 4301).mpr ⟨by decide, _, _, written_zeros 4300, ?_⟩,
    (integer _ _ (written_zeros 4299) ?_ _ rfl).1 _ ?_⟩
  · rw [List.length_replicate]
  · rw [List.length_replicate]
    decide
  · rw [← Numeral.valueOf_eq_ofDigits, valueOf_zeros]
    rfl

end Value
end TinyTcl
