import TinyTcl.Text.Character

/-! Script text. A script, a word, the text of a value and everything a script prints are sequences
of characters, because every rule of the language speaks of characters one after another and
counts positions in them. -/
namespace TinyTcl

/-- The characters of a piece of text, in order. -/
abbrev Text := List Char

namespace Text

/-- The decimal digit of a number below ten. -/
def digit (n : Nat) : Char := Char.ofNat ('0'.toNat + n % 10)

/-- The decimal form of a natural number, without leading zeros. -/
def ofNat (n : Nat) : Text :=
  if n < 10 then [digit n] else ofNat (n / 10) ++ [digit n]

/-- The decimal form of an integer; only a negative one carries a sign. -/
def ofInt (n : Int) : Text :=
  if n < 0 then '-' :: ofNat n.natAbs else ofNat n.natAbs

/-- The text without the blanks at both of its ends. -/
def trim (t : Text) : Text := ((t.dropWhile isBlank).reverse.dropWhile isBlank).reverse

/-- Whether a text comes before another or equals it, in the order of their first different
characters by code point. A text comes after its own beginnings. -/
def isAtMost : Text → Text → Bool
  | [], _ => true
  | _ :: _, [] => false
  | c :: s, d :: t => if c = d then isAtMost s t else c.toNat < d.toNat

/-! ### Text between quotes

Messages and listings show a text between quotes. The quote is single unless the text holds single
quotes and no double ones. Backslash, the quote and three line controls have a short escape; any
other character that does not show is written by its code point, in two, four or eight hexadecimal
digits. -/

/-- The lower-case hexadecimal digit of a number below sixteen. -/
def hexDigit (n : Nat) : Char :=
  if n < 10 then digit n else Char.ofNat ('a'.toNat + (n - 10))

/-- The last `width` hexadecimal digits of `n`. -/
def hex : (width : Nat) → (n : Nat) → Text
  | 0, _ => []
  | width + 1, n => hex width (n / 16) ++ [hexDigit (n % 16)]

/-- The quote that encloses a text. -/
def enclosingQuote (t : Text) : Char :=
  if t.contains '\'' && !t.contains '"' then '"' else '\''

/-- How one character stands between two `quote` characters. -/
def escaped (quote c : Char) : Text :=
  if c == '\\' || c == quote then ['\\', c]
  else if c == '\n' then ['\\', 'n']
  else if c == '\r' then ['\\', 'r']
  else if c == '\t' then ['\\', 't']
  else if isPrintable c then [c]
  else if c.toNat < 0x100 then '\\' :: 'x' :: hex 2 c.toNat
  else if c.toNat < 0x10000 then '\\' :: 'u' :: hex 4 c.toNat
  else '\\' :: 'U' :: hex 8 c.toNat

/-- The text between quotes. -/
def quoted (t : Text) : Text :=
  let quote := enclosingQuote t
  quote :: t.flatMap (escaped quote) ++ [quote]

end Text
end TinyTcl
