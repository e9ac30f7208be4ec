import TinyTcl.Failure
import TinyTcl.Number.Shortest

/-! The numbers of scripts: integers of 64 bits and reals in double precision. An integer is held as
the mathematical one with the bounds that it keeps; nothing ever wraps, and what does not fit is a
fault. -/
namespace TinyTcl

/-- Half of the number of integers that 64 bits can tell apart: `2 ^ 63` (`INT64`). -/
def Integer.bound : Int := 9223372036854775808

/-- Whether an integer is one of 64 bits, where the sign takes one of them. -/
def Integer.Fits (n : Int) : Prop := -bound ≤ n ∧ n < bound

instance (n : Int) : Decidable (Integer.Fits n) :=
  inferInstanceAs (Decidable (-Integer.bound ≤ n ∧ n < Integer.bound))

/-- An integer of 64 bits. -/
structure Integer where
  val : Int
  fits : Integer.Fits val
deriving DecidableEq, Repr

namespace Integer

/-- The integer, if it fits into 64 bits. -/
def ofInt? (n : Int) : Option Integer :=
  if h : Fits n then some ⟨n, h⟩ else none

theorem ofInt?_val (n : Integer) : ofInt? n.val = some n := dif_pos n.fits

theorem ofInt?_eq_none_iff {n : Int} : ofInt? n = none ↔ ¬ Fits n := by
  simp [ofInt?]

/-- The magnitude of an integer is at most the bound, which the least one alone reaches. -/
theorem natAbs_le (n : Integer) : n.val.natAbs ≤ bound.natAbs := by
  have fits := n.fits
  simp only [Fits, bound] at fits ⊢
  omega

end Integer

/-- A number of a script. -/
inductive Number where
  | integer (n : Integer)
  | real (x : Float)
deriving Repr

/-- What is known of the place that a number is used at. -/
structure Place where
  line : Option Int := none
  column : Option Int := none
deriving DecidableEq, Repr

namespace Place

/-- Nothing is known. -/
def unknown : Place := ⟨none, none⟩

/-- All is known. -/
def ofPosition (p : Position) : Place := ⟨some p.line, some p.column⟩

/-- A fault at such a place. -/
def fail (place : Place) (cause : Cause) : Failure :=
  .diagnostic { cause, line := place.line, column := place.column }

end Place

namespace Number

/-- The number for an integer (`to_int64`). One that does not fit is a fault that shows its decimal
form; beyond the limit on digits this form itself is refused. -/
def ofInt (n : Int) (place : Place) : Except Failure Number :=
  match Integer.ofInt? n with
  | some i => .ok (.integer i)
  | none =>
    if (Text.ofNat n.natAbs).length > maxDigits then .error .tooManyDigitsToWrite
    else .error (place.fail (.overflow (Text.ofInt n)))

theorem ofInt_val (n : Integer) (place : Place) : ofInt n.val place = .ok (integer n) := by
  rw [ofInt, Integer.ofInt?_val]

/-- The real for an integer, rounded to the nearest one. -/
def realOfInt (n : Int) : Float :=
  let magnitude := Float.ofScientific n.natAbs false 0
  if n < 0 then -magnitude else magnitude

/-- The number as a real. -/
def toReal : Number → Float
  | integer n => realOfInt n.val
  | real x => x

/-- Reals are written with a point from `0.0001` up to sixteen digits in front of it, and with an
exponent of at least two digits beyond that. -/
def layout : Decimal.Layout := ⟨-4, 16, 2⟩

/-- The text of a real: its shortest decimal. A real without fraction shows `.0`. -/
def textOfReal (x : Float) : Text :=
  if x.isNaN then "nan".toList
  else
    let sign := if x.toBits >>> 63 == 1 then ['-'] else []
    let bits := x.toBits &&& 0x7FFFFFFFFFFFFFFF
    if bits == 0x7FF0000000000000 then sign ++ "inf".toList
    else if bits == 0 then sign ++ "0.0".toList
    else sign ++ (Decimal.Binary.ofBits bits).shortest.text layout

/-- The text of a number (`format_number`). -/
def text : Number → Text
  | integer n => Text.ofInt n.val
  | real x => textOfReal x

end Number
end TinyTcl
