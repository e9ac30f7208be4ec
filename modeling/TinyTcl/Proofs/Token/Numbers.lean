import TinyTcl.Proofs.Number.Coercion
import TinyTcl.Proofs.Token.Words

/-! The numbers that a script is cut into, and what strings of the same characters are read as. A
number of a script is digits, with a point and more digits if these follow (`Literal`), and the scan
takes any digit of Unicode. A string is read by the values of its digits, and a raised or circled
digit has none.

Main statement: the text of every number of a script is a numeral if and only if its digits are
decimal ones. Such a numeral is refused only for its size; with any other digit the text is no
number at all (`numbers_ofText`). -/
namespace TinyTcl

/-- Whether a character is a digit without a place value. -/
def isRaised (c : Char) : Bool := isDigit c && (digitValue? c).isNone

/-- How numbers are written in a script. -/
inductive Literal : Text → Prop where
  | whole {t : Text} (some : t ≠ []) (digits : ∀ c ∈ t, isDigit c = true) : Literal t
  | fraction {t u : Text} (some : t ≠ []) (digits : ∀ c ∈ t, isDigit c = true) (some' : u ≠ [])
      (digits' : ∀ c ∈ u, isDigit c = true) : Literal (t ++ '.' :: u)

/-- A piece that is a number has the text of the number, written as one. -/
def Piece.HoldsLiteral : Piece → Prop
  | token (.number literal) s => s = literal ∧ Literal literal
  | _ => True

/-! ### What the scan takes for a number -/

namespace Scan

private theorem literal_digits {c : Char} {t : Text} (digit : isDigit c = true) :
    Literal (Span.digits (c :: t)).1 := by
  have front : ∀ d ∈ (c :: t).takeWhile isDigit, isDigit d = true :=
    fun _ inside => List.mem_takeWhile_imp inside
  have some : (c :: t).takeWhile isDigit ≠ [] := by simp [digit]
  by_cases fraction : ∃ d rest, (c :: t).dropWhile isDigit = '.' :: d :: rest ∧ isDigit d = true
  · obtain ⟨d, rest, point, digit'⟩ := fraction
    rw [Span.digits_of_fraction point digit']
    exact .fraction some front (by simp [digit']) fun _ inside => List.mem_takeWhile_imp inside
  · rw [Span.digits_of_whole]
    · exact .whole some front
    · intro d rest point
      exact Bool.eq_false_iff.mpr fun digit' => fraction ⟨d, rest, point, digit'⟩

private theorem holdsLiteral_number {c : Char} {t : Text} (digit : isDigit c = true) :
    (number (c :: t)).1.HoldsLiteral := by
  simp only [number]
  split
  · exact ⟨rfl, literal_digits digit⟩
  · trivial

private theorem holdsLiteral_ofWord (t s : Text) : (Piece.token (.ofWord t) s).HoldsLiteral := by
  unfold Lexeme.ofWord
  split <;> trivial

private theorem holdsLiteral_reference (rest : Text) :
    ∀ p ∈ (reference rest).1, p.HoldsLiteral := by
  intro p inside
  unfold reference at inside
  split at inside
  · split at inside
    · rcases List.mem_cons.mp inside with rfl | inside
      · trivial
      · cases List.mem_singleton.mp inside
        trivial
    · cases List.mem_singleton.mp inside
      trivial
  · cases List.mem_singleton.mp inside
    trivial

/-- A step that reads a number reads digits. -/
theorem holdsLiteral_step {inside inside' : List Enclosure} {fresh fresh' : Bool} {place : Nat}
    {c : Char} {rest rest' : Text} {pieces : List Piece}
    (h : step inside fresh place c rest = .read pieces inside' fresh' rest') :
    ∀ p ∈ pieces, p.HoldsLiteral := by
  revert h
  unfold step
  split
  · next opened outer =>
    fun_cases quoteStep opened outer place c rest
    all_goals intro h
    all_goals try cases h
    all_goals try simp [Piece.HoldsLiteral]
    case case3.refl => exact holdsLiteral_reference rest
  · fun_cases scriptStep inside fresh place c rest
    all_goals intro h
    all_goals try cases h
    all_goals try simp [Piece.HoldsLiteral]
    case h_2.case7.refl => exact holdsLiteral_reference rest
    case h_2.case13.refl digit => exact holdsLiteral_number digit
    case h_2.case14.refl => exact holdsLiteral_ofWord _ _

end Scan

private theorem holdsLiteral_scan (inside : List Enclosure) (fresh : Bool) (place : Nat)
    (t : Text) :
    ∀ p ∈ (scan inside fresh place t).pieces, p.HoldsLiteral := by
  fun_induction scan inside fresh place t with
  | case1 | case2 | case3 => simp
  | case4 inside fresh place c rest pieces inside' fresh' rest' step ih =>
    intro p within
    rcases List.mem_append.mp within with first | later
    · exact Scan.holdsLiteral_step step p first
    · exact ih p later
  | case5 inside fresh place c rest pieces fault place' step =>
    intro p within
    rcases Scan.pieces_of_stop step with rfl | ⟨rfl, _⟩
    · cases within
    · cases List.mem_singleton.mp within
      trivial

/-- The numbers of a script are literals. -/
theorem literal_ofText {t literal : Text} {start p : Position}
    (h : ⟨.number literal, p⟩ ∈ (TokenStream.ofText t start).tokens) : Literal literal := by
  obtain ⟨before, after, whole⟩ := List.append_of_mem h
  rcases split_ofText whole with ⟨front, s, rest, pieces, _, _⟩ | ⟨last, _⟩
  · have inside : .token (.number literal) s ∈ (Scanned.ofText t).pieces :=
      pieces ▸ List.mem_append_right front List.mem_cons_self
    exact (holdsLiteral_scan [] true 0 t _ inside).2
  · cases last

/-! ### What a literal is read as -/

namespace Literal

variable {t : Text}

private theorem isDigit_or_point (h : Literal t) : ∀ c ∈ t, isDigit c = true ∨ c = '.' := by
  intro c inside
  cases h with
  | whole _ digits => exact .inl (digits c inside)
  | fraction _ digits _ digits' =>
    rcases List.mem_append.mp inside with first | inside
    · exact .inl (digits c first)
    · exact (List.mem_cons.mp inside).symm.imp_left (digits' c)

private theorem trim_eq (h : Literal t) : t.trim = t := by
  apply Text.trim_eq_self
  intro c inside
  rcases h.isDigit_or_point c inside with digit | rfl
  · exact isBlank_of_isDigit digit
  · decide

/-- With a raised digit a literal is no numeral. -/
theorem ofText?_of_raised (h : Literal t) {c : Char} (inside : c ∈ t) (raised : isRaised c = true) :
    Numeral.ofText? t = none := by
  rw [Option.eq_none_iff_forall_ne_some]
  intro n read
  have written := Numeral.ofText?_eq_some_iff.mp read
  rw [h.trim_eq] at written
  simp only [isRaised, Bool.and_eq_true, Option.isNone_iff_eq_none] at raised
  -- The digit has no value, and the marks of a numeral are no digits.
  rcases written.mayHold c inside with value | mark
  · cases raised.2 ▸ value
  · cases raised.1.symm.trans (Numeral.isDigit_mark mark)

/-- With decimal digits it is one without sign and exponent. -/
theorem ofText?_of_decimal (h : Literal t) (decimal : ∀ c ∈ t, isRaised c = false) :
    (∃ digits, Numeral.Digits t digits ∧
      Numeral.ofText? t = some (.integer false digits)) ∨
    ∃ whole fraction, '.' ∈ t ∧ Numeral.ofText? t = some (.real false whole fraction 0) := by
  have value {c : Char} (inside : c ∈ t) (digit : isDigit c = true) :
      (digitValue? c).isSome = true := by
    have notRaised := decimal c inside
    rw [isRaised, digit, Bool.true_and, Option.isNone_eq_false_iff] at notRaised
    exact notRaised
  have same := h.trim_eq
  cases h with
  | whole some digits =>
    obtain ⟨values, spelled, nonempty⟩ :=
      Numeral.exists_digits_of_forall fun c inside => value inside (digits c inside)
    refine .inl ⟨values, spelled, Numeral.ofText?_eq_some_iff.mpr ?_⟩
    rw [same]
    exact @Numeral.Written.integer false [] _ values .none spelled (nonempty some)
  | @fraction t u some digits some' digits' =>
    obtain ⟨whole, spelled, nonempty⟩ := Numeral.exists_digits_of_forall fun c inside =>
      value (List.mem_append_left _ inside) (digits c inside)
    obtain ⟨fraction, spelled', -⟩ := Numeral.exists_digits_of_forall fun c inside =>
      value (List.mem_append_right _ (List.mem_cons_of_mem _ inside)) (digits' c inside)
    refine .inr ⟨whole, fraction, by simp, Numeral.ofText?_eq_some_iff.mpr ?_⟩
    rw [same, ← List.append_nil u]
    exact @Numeral.Written.point false [] t u [] whole fraction 0 .none spelled spelled'
      (.inl (nonempty some)) .none

end Literal

/-- What a literal with decimal digits is read as: an integer, a fault that tells of its size, or a
real. -/
inductive Literal.Reads : Text → Except Failure (Option Number) → Prop where
  | integer {t : Text} {digits : List Nat} {i : Integer} (spelled : Numeral.Digits t digits)
      (few : digits.length ≤ maxDigits) (value : i.val = (Nat.ofDigits 10 digits.reverse : Nat)) :
      Reads t (.ok (some (.integer i)))
  | overflow {t : Text} {digits : List Nat} {n : Nat} (spelled : Numeral.Digits t digits)
      (few : digits.length ≤ maxDigits) (value : n = Nat.ofDigits 10 digits.reverse)
      (large : Integer.bound ≤ n) :
      Reads t (.error (Place.unknown.fail (.overflow (Text.ofInt n))))
  | long {t : Text} {digits : List Nat} (spelled : Numeral.Digits t digits)
      (many : maxDigits < digits.length) : Reads t (.error (.tooManyDigits digits.length))
  | real {t : Text} (x : Float) (point : '.' ∈ t) : Reads t (.ok (some (.real x)))

private theorem Literal.Reads.ne_none {t : Text} : ¬ Reads t (.ok none) := nofun

private theorem Literal.reads_ofText? {t : Text} (h : Literal t)
    (decimal : ∀ c ∈ t, isRaised c = false) :
    Reads t (Number.ofText? t) := by
  rcases h.ofText?_of_decimal decimal with ⟨digits, spelled, read⟩ | ⟨whole, fraction, point, read⟩
  · by_cases few : digits.length ≤ maxDigits
    · have value := Numeral.valueOf_eq_ofDigits digits
      have written := Numeral.length_magnitude_le read few
      rw [Numeral.natAbs_signed] at written
      generalize Numeral.valueOf digits = n at value written
      have number : Number.ofText? t = (Number.ofInt n .unknown).map some := by
        rw [Number.ofText?, read]
        simp only [Numeral.toNumber, if_neg (Nat.not_lt.mpr few), Numeral.valueOf_eq_ofDigits,
          value, Numeral.signed, Bool.false_eq_true, if_false]
      rw [number]
      by_cases fits : Integer.Fits n
      · have narrowed : Number.ofInt n .unknown = .ok (.integer ⟨n, fits⟩) :=
          Number.ofInt_val ⟨n, fits⟩ _
        rw [narrowed]
        exact .integer spelled few (congrArg Int.ofNat value)
      · rw [Number.ofInt_of_unfit fits (by rwa [Int.natAbs_natCast])]
        have large : Integer.bound ≤ n := Int.not_lt.mp fun below =>
          fits ⟨Int.le_trans (by decide) (Int.natCast_nonneg n), below⟩
        exact .overflow spelled few value large
    · have many := Nat.not_le.mp few
      have number : Number.ofText? t = .error (.tooManyDigits digits.length) := by
        simp [Number.ofText?, read, Numeral.toNumber, many, Except.map]
      rw [number]
      exact .long spelled many
  · obtain ⟨x, number⟩ : ∃ x, Number.ofText? t = .ok (some (.real x)) :=
      ⟨_, by rw [Number.ofText?, read]; rfl⟩
    rw [number]
    exact .real x point

/-- **Numbers of scripts as strings.** The text of a number of a script is no number as a string if
and only if a digit without a place value stands in it. With decimal digits of any script it is a
number, or refused for its size. -/
theorem numbers_ofText {t literal : Text} {start p : Position}
    (h : ⟨.number literal, p⟩ ∈ (TokenStream.ofText t start).tokens) :
    (Number.ofText? literal = .ok none ↔ ∃ c ∈ literal, isRaised c = true) ∧
      ((∀ c ∈ literal, isRaised c = false) → Literal.Reads literal (Number.ofText? literal)) := by
  have written := literal_ofText h
  refine ⟨⟨fun none => ?_, ?_⟩, written.reads_ofText?⟩
  · by_contra decimal
    have reads := written.reads_ofText? fun c inside =>
      Bool.eq_false_iff.mpr fun raised => decimal ⟨c, inside, raised⟩
    rw [none] at reads
    exact reads.ne_none
  · rintro ⟨c, inside, raised⟩
    rw [Number.ofText?, written.ofText?_of_raised inside raised]

/-- A raised two behind a number that is read. -/
theorem numbers_ofText_raised :
    Number.ofText? "²".toList = .ok none ∧
      Literal.Reads "12.5".toList (Number.ofText? "12.5".toList) := by
  have raised : ⟨.number "²".toList, ⟨1, 11⟩⟩ ∈
      (TokenStream.ofText "expr 12.5*²".toList .start).tokens := by decide +kernel
  have plain : ⟨.number "12.5".toList, ⟨1, 6⟩⟩ ∈
      (TokenStream.ofText "expr 12.5*²".toList .start).tokens := by decide +kernel
  have decimal : "12.5".toList.any isRaised = false := by decide +kernel
  exact ⟨(numbers_ofText raised).1.mpr ⟨'²', by decide +kernel, by decide +kernel⟩,
    (numbers_ofText plain).2 fun c inside =>
      Bool.eq_false_iff.mpr (List.any_eq_false.mp decimal c inside)⟩

end TinyTcl
