import TinyTcl.Text.Basic

/-! Lines of a text. In a text read from outside a carriage return, alone or with the line feed after
it, counts as one line end, so that a script has the same lines wherever it was written. Places count
lines and columns by characters from the place the script starts at, which need not be the first
line: a block of a script is read from where it stands. -/
namespace TinyTcl

namespace Text

/-- Text in which every line ends with a line feed alone. -/
def unifyLineEnds : Text → Text
  | '\r' :: '\n' :: rest => '\n' :: unifyLineEnds rest
  | '\r' :: rest => '\n' :: unifyLineEnds rest
  | c :: rest => c :: unifyLineEnds rest
  | [] => []

/-- Text without carriage returns is kept as it is. -/
theorem unifyLineEnds_eq_self {t : Text} (h : '\r' ∉ t) : unifyLineEnds t = t := by
  fun_induction unifyLineEnds t with
  | case1 | case2 => simp at h
  | case3 c rest _ _ ih => simp [ih (fun inside => h (List.mem_cons_of_mem c inside))]
  | case4 => rfl

end Text

/-- The place of a character. -/
structure Position where
  line : Int
  column : Int
deriving DecidableEq, Repr

namespace Position

/-- The place of the first character of a script that stands alone. -/
def start : Position := ⟨1, 1⟩

/-- The place after one character: a line feed leads to the first column of the next line
(`Lexer.advance`). -/
def next (p : Position) (c : Char) : Position :=
  if c = '\n' then ⟨p.line + 1, 1⟩ else ⟨p.line, p.column + 1⟩

/-- The place after a text that starts at `p`. -/
def after (p : Position) (t : Text) : Position := t.foldl next p

@[simp] theorem after_nil (p : Position) : p.after [] = p := rfl

@[simp] theorem after_cons (p : Position) (c : Char) (t : Text) :
    p.after (c :: t) = (p.next c).after t := rfl

@[simp] theorem after_append (p : Position) (s t : Text) :
    p.after (s ++ t) = (p.after s).after t := by
  simp [after, List.foldl_append]

end Position
end TinyTcl
