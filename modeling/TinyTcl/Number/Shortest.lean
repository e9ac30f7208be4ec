import TinyTcl.Text.Basic

/-! The shortest decimal of a real. Every positive double stands for an interval of reals, those
that round to it. Among the decimals in that interval the ones with the fewest digits are taken, and
of those the nearest to the double; of two equally near ones the one with an even last digit. All
comparisons are made on natural numbers. -/
namespace TinyTcl.Decimal

/-- A positive double, `significand * 2 ^ exponent`. -/
structure Binary where
  significand : Nat
  exponent : Int
  /-- The next smaller double is half as far away as the next larger one. -/
  narrowBelow : Bool
deriving DecidableEq, Repr

/-- The decimal `digits * 10 ^ exponent`. -/
structure Scaled where
  digits : Nat
  exponent : Int
deriving DecidableEq, Repr

/-- The value of the bits of a positive finite double. -/
def Binary.ofBits (bits : UInt64) : Binary :=
  let biased := ((bits >>> 52) &&& 0x7FF).toNat
  let fraction := (bits &&& 0xFFFFFFFFFFFFF).toNat
  if biased == 0 then ⟨fraction, -1074, false⟩
  else ⟨Nat.pow 2 52 + fraction, biased - 1075, fraction == 0 && biased > 1⟩

/-- Compares `a * 10 ^ i` with `b * 2 ^ j`. -/
def compareScaled (a : Nat) (i : Int) (b : Nat) (j : Int) : Ordering :=
  compare (a * Nat.pow 10 i.toNat * Nat.pow 2 (-j).toNat)
    (b * Nat.pow 2 j.toNat * Nat.pow 10 (-i).toNat)

/-- Whether a decimal lies in the interval of a double. The ends of the interval are halfway to the
neighbours; they belong to it if the significand is even. -/
def Binary.holds (x : Binary) (d : Scaled) : Bool :=
  let low := if x.narrowBelow then 4 * x.significand - 1 else 4 * x.significand - 2
  let high := 4 * x.significand + 2
  let even := x.significand % 2 == 0
  let above := compareScaled d.digits d.exponent low (x.exponent - 2)
  let below := compareScaled d.digits d.exponent high (x.exponent - 2)
  (above == .gt || even && above == .eq) && (below == .lt || even && below == .eq)

/-- The greatest decimal with exponent `e` that is not above the double. -/
def Binary.floorAt (x : Binary) (e : Int) : Nat :=
  x.significand * Nat.pow 2 x.exponent.toNat * Nat.pow 10 (-e).toNat /
    (Nat.pow 2 (-x.exponent).toNat * Nat.pow 10 e.toNat)

/-- The decimal with exponent `e` that stands for a double, if one does: of the two neighbours of
the double the nearer one. -/
def Binary.decimalAt? (x : Binary) (e : Int) : Option Scaled :=
  let floor := x.floorAt e
  let lower : Scaled := ⟨floor, e⟩
  let upper : Scaled := ⟨floor + 1, e⟩
  match x.holds lower, x.holds upper with
  | true, false => some lower
  | false, true => some upper
  | false, false => none
  | true, true =>
    match compareScaled (2 * floor + 1) e (2 * x.significand) x.exponent with
    | .lt => some upper
    | .gt => some lower
    | .eq => some (if floor % 2 == 0 then lower else upper)

/-- An exponent `e` for which `10 ^ e` is above the double. -/
def Binary.topExponent (x : Binary) : Int :=
  ((Nat.log2 x.significand : Int) + 1 + x.exponent) * 30103 / 100000 + 2

/-- The shortest decimal of a double. Exponents are tried downwards; twenty-four of them reach well
below the seventeen digits that are always enough. -/
def Binary.shortest (x : Binary) : Scaled :=
  match (List.range 24).findSome? fun i : Nat => x.decimalAt? (x.topExponent - i) with
  | some d => d
  | none => ⟨x.floorAt (x.topExponent - 24), x.topExponent - 24⟩

/-- How decimals are laid out. -/
structure Layout where
  /-- The least exponent of a leading digit that is written with a point alone. -/
  plainFrom : Int
  /-- The first exponent of a leading digit that is written as an exponent again. -/
  plainBelow : Int
  /-- The least number of digits of a written exponent. -/
  exponentWidth : Nat

/-- The text of a decimal. There is a digit on both sides of a point; an exponent has a sign. -/
def Scaled.text (d : Scaled) (layout : Layout) : Text :=
  let digits := Text.ofNat d.digits
  let leading : Int := d.exponent + digits.length - 1
  if layout.plainFrom ≤ leading ∧ leading < layout.plainBelow then
    if leading < 0 then "0.".toList ++ List.replicate (-leading - 1).toNat '0' ++ digits
    else
      let whole := leading.toNat + 1
      if digits.length ≤ whole then
        digits ++ List.replicate (whole - digits.length) '0' ++ ".0".toList
      else digits.take whole ++ '.' :: digits.drop whole
  else
    let fraction := match digits.drop 1 with
      | [] => []
      | rest => '.' :: rest
    let size := Text.ofNat leading.natAbs
    digits.take 1 ++ fraction ++ ['e', if leading < 0 then '-' else '+'] ++
      List.replicate (layout.exponentWidth - size.length) '0' ++ size

end TinyTcl.Decimal
