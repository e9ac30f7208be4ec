import TinyTcl.Token.Basic

/-! How far a lexeme reaches. Each function splits the text in front of the scan into what belongs
to the lexeme and the rest; put together again, the two parts are the text (the `append` laws). -/
namespace TinyTcl.Span

/-- The characters of a word and the rest (`Lexer.word`). -/
def word (t : Text) : Text × Text := (t.takeWhile continuesName, t.dropWhile continuesName)

/-- Digits, with a fraction if a point and another digit follow them (`Lexer.number`). -/
def digits (t : Text) : Text × Text :=
  match t.dropWhile isDigit with
  | '.' :: d :: rest =>
    if isDigit d then
      (t.takeWhile isDigit ++ '.' :: (d :: rest).takeWhile isDigit, (d :: rest).dropWhile isDigit)
    else (t.takeWhile isDigit, '.' :: d :: rest)
  | rest => (t.takeWhile isDigit, rest)

/-- A comment, which ends before the line does; after a backslash the line goes on
(`Lexer.comment`). -/
def comment : Text → Text × Text
  | '\\' :: '\n' :: rest => ('\\' :: '\n' :: (comment rest).1, (comment rest).2)
  | '\n' :: rest => ([], '\n' :: rest)
  | c :: rest => (c :: (comment rest).1, (comment rest).2)
  | [] => ([], [])

/-- The literal text in a quoted string up to its end, a substitution or a variable
(`Lexer.quoted`). What follows a backslash is literal, and so is a dollar sign without a name. -/
def literal : Text → Text × Text
  | [] => ([], [])
  | '"' :: rest => ([], '"' :: rest)
  | '[' :: rest => ([], '[' :: rest)
  | '\\' :: c :: rest => ('\\' :: c :: (literal rest).1, (literal rest).2)
  | '$' :: c :: rest =>
    if startsName c then ([], '$' :: c :: rest)
    else ('$' :: (literal (c :: rest)).1, (literal (c :: rest)).2)
  | c :: rest => (c :: (literal rest).1, (literal rest).2)

/-- The body of a block and what follows its closing brace (`Lexer.block`). Braces nest, and the
character after a backslash counts as neither; `depth` is the number of further blocks open in the
body. -/
def body : (depth : Nat) → Text → Option (Text × Text)
  | _, [] => none
  | depth, '\\' :: c :: rest => (body depth rest).map fun (b, r) => ('\\' :: c :: b, r)
  | depth, '{' :: rest => (body (depth + 1) rest).map fun (b, r) => ('{' :: b, r)
  | 0, '}' :: rest => some ([], rest)
  | depth + 1, '}' :: rest => (body depth rest).map fun (b, r) => ('}' :: b, r)
  | depth, c :: rest => (body depth rest).map fun (b, r) => (c :: b, r)

theorem word_append (t : Text) : (word t).1 ++ (word t).2 = t := List.takeWhile_append_dropWhile

theorem digits_append (t : Text) : (digits t).1 ++ (digits t).2 = t := by
  have whole : t.takeWhile isDigit ++ t.dropWhile isDigit = t := List.takeWhile_append_dropWhile
  unfold digits
  split
  · next d rest h =>
    rw [h] at whole
    split
    · simpa [List.append_assoc, List.takeWhile_append_dropWhile] using whole
    · exact whole
  · exact whole

theorem comment_append (t : Text) : (comment t).1 ++ (comment t).2 = t := by
  fun_induction comment t <;> simp_all

theorem literal_append (t : Text) : (literal t).1 ++ (literal t).2 = t := by
  fun_induction literal t <;> simp_all

/-- Literal text is empty only in front of what ends it. -/
theorem literal_eq_nil {c : Char} {t r : Text} (h : literal (c :: t) = ([], r)) :
    c = '"' ∨ c = '[' ∨ c = '$' ∧ ∃ d rest, t = d :: rest ∧ startsName d = true := by
  generalize whole : c :: t = text at h
  revert h
  fun_cases literal text <;> simp_all

theorem body_append {depth : Nat} {t b r : Text} (h : body depth t = some (b, r)) :
    b ++ '}' :: r = t := by
  fun_induction body depth t generalizing b r <;> simp_all [Option.map_eq_some_iff] <;> grind

end TinyTcl.Span

namespace TinyTcl.Text

/-- What a backslash and a character stand for in a quoted string (`ESCAPES`). -/
def escapeValue : Char → Char
  | 'n' => '\n'
  | 't' => '\t'
  | 'r' => '\r'
  | c => c

/-- The meaning of literal text in a quoted string (`Lexer.escape`). A backslash at the end of a
line joins it with the next one: line end and indentation become one space. `joined` says that such
an indentation is being read. -/
def unescape (joined : Bool) : Text → Text
  | [] => []
  | '\\' :: c :: rest =>
    if c = '\n' then ' ' :: unescape true rest else escapeValue c :: unescape false rest
  | c :: rest =>
    if joined && (c == ' ' || c == '\t') then unescape true rest else c :: unescape false rest

end TinyTcl.Text
