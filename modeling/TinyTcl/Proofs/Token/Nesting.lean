import TinyTcl.Token.Scan

/-! What encloses a token. The delimiters open in front of a token can be told from the lexemes
before it alone (`enclosing`). The scan keeps the same stack while it reads: `enclosing_step` is the
one fact about a step that everything on nesting follows from. A text that is cut to its end closes
whatever was open (`enclosing_scan`). -/
namespace TinyTcl

/-- The delimiters that other tokens can stand between. -/
inductive Delimiter where
  | bracket | quote
deriving DecidableEq, Repr

/-- The kind of a delimiter that waits for its partner. -/
def Enclosure.delimiter : Enclosure → Delimiter
  | bracket _ => .bracket
  | quote _ => .quote

namespace Lexeme

/-- The delimiters open behind a lexeme, innermost first. -/
def enclose (around : List Delimiter) : Lexeme → List Delimiter
  | symbol .leftBracket => .bracket :: around
  | symbol .leftQuote => .quote :: around
  | symbol .rightBracket | symbol .rightQuote => around.tail
  | _ => around

@[simp] theorem enclose_number (around : List Delimiter) (t : Text) :
    (number t).enclose around = around := rfl

@[simp] theorem enclose_name (around : List Delimiter) (t : Text) :
    (name t).enclose around = around := rfl

/-- A word opens and closes nothing. -/
@[simp] theorem enclose_ofWord (around : List Delimiter) (t : Text) :
    (ofWord t).enclose around = around := by
  have apart {s : Symbol} (h : s.isKeyword = false) := ofWord_ne_symbol h t
  generalize ofWord t = l at apart
  unfold enclose
  split
  · exact absurd rfl (apart rfl)
  · exact absurd rfl (apart rfl)
  · exact absurd rfl (apart rfl)
  · exact absurd rfl (apart rfl)
  · rfl

end Lexeme

/-- The delimiters open behind some lexemes. -/
def enclosing (around : List Delimiter) (lexemes : List Lexeme) : List Delimiter :=
  lexemes.foldl Lexeme.enclose around

@[simp] theorem enclosing_nil (around : List Delimiter) : enclosing around [] = around := rfl

@[simp] theorem enclosing_cons (around : List Delimiter) (l : Lexeme) (ls : List Lexeme) :
    enclosing around (l :: ls) = enclosing (l.enclose around) ls := rfl

@[simp] theorem enclosing_append (around : List Delimiter) (ls ms : List Lexeme) :
    enclosing around (ls ++ ms) = enclosing (enclosing around ls) ms := List.foldl_append

namespace Piece

/-- The lexemes among the pieces. -/
def lexemes : List Piece → List Lexeme
  | [] => []
  | gap _ :: rest => lexemes rest
  | token l _ :: rest => l :: lexemes rest

@[simp] theorem lexemes_nil : lexemes [] = [] := rfl

@[simp] theorem lexemes_gap (s : Text) (rest : List Piece) :
    lexemes (gap s :: rest) = lexemes rest := rfl

@[simp] theorem lexemes_token (l : Lexeme) (s : Text) (rest : List Piece) :
    lexemes (token l s :: rest) = l :: lexemes rest := rfl

@[simp] theorem lexemes_append (ps qs : List Piece) :
    lexemes (ps ++ qs) = lexemes ps ++ lexemes qs := by
  induction ps with
  | nil => rfl
  | cons piece rest ih => cases piece <;> simp [ih]

theorem map_lexeme_tokensFrom (p : Position) (ps : List Piece) :
    (tokensFrom p ps).map Token.lexeme = lexemes ps := by
  induction ps generalizing p with
  | nil => rfl
  | cons piece rest ih => cases piece <;> simp [tokensFrom, ih]

end Piece

namespace Scan

private theorem enclosing_reference (around : List Delimiter) (rest : Text) :
    enclosing around (Piece.lexemes (reference rest).1) = around := by
  unfold reference
  split
  · split <;> rfl
  · rfl

private theorem enclosing_number (around : List Delimiter) (t : Text) :
    enclosing around (Piece.lexemes [(number t).1]) = around := by
  simp only [number]
  split <;> rfl

private theorem enclose_operator {c : Char} {s : Symbol} (h : operator? c = some s)
    (around : List Delimiter) : (Lexeme.symbol s).enclose around = around := by
  unfold operator? at h
  split at h <;> cases h <;> rfl

theorem enclosing_scriptStep {inside inside' : List Enclosure} {fresh fresh' : Bool} {place : Nat}
    {c : Char} {rest rest' : Text} {pieces : List Piece}
    (h : scriptStep inside fresh place c rest = .read pieces inside' fresh' rest') :
    enclosing (inside.map Enclosure.delimiter) (Piece.lexemes pieces) =
      inside'.map Enclosure.delimiter := by
  revert h
  fun_cases scriptStep inside fresh place c rest
  all_goals intro h
  all_goals try cases h
  all_goals try rfl
  case case7.refl => exact enclosing_reference _ rest
  case case9.refl => exact List.map_tail.symm
  case case13.refl => exact enclosing_number _ _
  case case14.refl => exact Lexeme.enclose_ofWord _ _
  case case15.refl found => exact enclose_operator found _

theorem enclosing_quoteStep {opened : Nat} {outer inside' : List Enclosure} {fresh' : Bool}
    {place : Nat} {c : Char} {rest rest' : Text} {pieces : List Piece}
    (h : quoteStep opened outer place c rest = .read pieces inside' fresh' rest') :
    enclosing (.quote :: outer.map Enclosure.delimiter) (Piece.lexemes pieces) =
      inside'.map Enclosure.delimiter := by
  revert h
  fun_cases quoteStep opened outer place c rest
  all_goals intro h
  all_goals try cases h
  all_goals try rfl
  case case3.refl => exact enclosing_reference _ rest

/-- What a step leaves open is what its lexemes leave open. -/
theorem enclosing_step {inside inside' : List Enclosure} {fresh fresh' : Bool} {place : Nat}
    {c : Char} {rest rest' : Text} {pieces : List Piece}
    (h : step inside fresh place c rest = .read pieces inside' fresh' rest') :
    enclosing (inside.map Enclosure.delimiter) (Piece.lexemes pieces) =
      inside'.map Enclosure.delimiter := by
  unfold step at h
  split at h
  · exact enclosing_quoteStep h
  · exact enclosing_scriptStep h

end Scan

/-- A scan goes on behind what it has read. -/
theorem scan_of_read {inside inside' : List Enclosure} {fresh fresh' : Bool} {place : Nat} {c : Char}
    {rest rest' : Text} {pieces : List Piece}
    (h : Scan.step inside fresh place c rest = .read pieces inside' fresh' rest') :
    scan inside fresh place (c :: rest) =
      (scan inside' fresh' (place + (Piece.sources pieces).length) rest').behind pieces := by
  rw [scan]
  split
  · next read =>
    cases h.symm.trans read
    rfl
  · next stop => cases h.symm.trans stop

theorem scan_of_stop {inside : List Enclosure} {fresh : Bool} {place place' : Nat} {c : Char}
    {rest : Text} {pieces : List Piece} {fault : LexicalFault}
    (h : Scan.step inside fresh place c rest = .stop pieces fault place') :
    scan inside fresh place (c :: rest) = ⟨pieces, some (fault, place')⟩ := by
  rw [scan]
  split
  · next read => cases h.symm.trans read
  · next stop =>
    cases h.symm.trans stop
    rfl

/-- A text that is cut to its end closes every delimiter. -/
theorem enclosing_scan {inside : List Enclosure} {fresh : Bool} {place : Nat} {t : Text}
    (h : (scan inside fresh place t).stopped = none) :
    enclosing (inside.map Enclosure.delimiter) (Piece.lexemes (scan inside fresh place t).pieces) =
      [] := by
  fun_induction scan inside fresh place t with
  | case1 => rfl
  | case2 | case3 => simp at h
  | case4 inside fresh place c rest pieces inside' fresh' rest' step ih =>
    rw [Scanned.behind, Piece.lexemes_append, enclosing_append, Scan.enclosing_step step]
    exact ih h
  | case5 => simp at h

/-! ### Closing delimiters -/

/-- Closing delimiters close what is innermost. A closing bracket may also stand where nothing is
open. -/
def Matched : List Delimiter → List Lexeme → Prop
  | _, [] => True
  | around, l :: rest =>
    (l = .symbol .rightBracket → around.head? ≠ some .quote) ∧
    (l = .symbol .rightQuote → around.head? = some .quote) ∧ Matched (l.enclose around) rest

theorem matched_append {around : List Delimiter} {ls ms : List Lexeme} :
    Matched around (ls ++ ms) ↔ Matched around ls ∧ Matched (enclosing around ls) ms := by
  induction ls generalizing around with
  | nil => simp [Matched]
  | cons l rest ih => simp [Matched, ih, and_assoc]

/-- Whether a lexeme closes nothing. -/
def Lexeme.ClosesNone (l : Lexeme) : Prop := l ≠ .symbol .rightBracket ∧ l ≠ .symbol .rightQuote

private theorem matched_of_closesNone {around : List Delimiter} {ls : List Lexeme}
    (h : ∀ l ∈ ls, l.ClosesNone) : Matched around ls := by
  induction ls generalizing around with
  | nil => trivial
  | cons l rest ih =>
    obtain ⟨bracket, quote⟩ := h l List.mem_cons_self
    exact ⟨fun same => absurd same bracket, fun same => absurd same quote,
      ih fun m inside => h m (List.mem_cons_of_mem _ inside)⟩

namespace Scan

private theorem closesNone_reference (rest : Text) :
    ∀ l ∈ Piece.lexemes (reference rest).1, l.ClosesNone := by
  unfold reference
  split
  · split <;> simp [Lexeme.ClosesNone]
  · simp [Lexeme.ClosesNone]

private theorem matched_step {inside inside' : List Enclosure} {fresh fresh' : Bool} {place : Nat}
    {c : Char} {rest rest' : Text} {pieces : List Piece}
    (h : step inside fresh place c rest = .read pieces inside' fresh' rest') :
    Matched (inside.map Enclosure.delimiter) (Piece.lexemes pieces) := by
  revert h
  unfold step
  split
  · next opened outer =>
    fun_cases quoteStep opened outer place c rest
    all_goals intro h
    all_goals cases h
    case case1.refl => simp [Matched, Enclosure.delimiter]
    case case3.refl => exact matched_of_closesNone (closesNone_reference rest)
    all_goals exact matched_of_closesNone (by simp [Lexeme.ClosesNone])
  · next script =>
    fun_cases scriptStep inside fresh place c rest
    all_goals intro h
    all_goals cases h
    case case7.refl => exact matched_of_closesNone (closesNone_reference rest)
    case case9.refl =>
      refine ⟨fun _ => ?_, by simp, trivial⟩
      cases inside with
      | nil => simp
      | cons first outer =>
        cases first with
        | bracket opened => simp [Enclosure.delimiter]
        | quote opened => exact absurd rfl (script opened outer)
    case case13.refl =>
      simp only [number]
      split <;> exact matched_of_closesNone (by simp [Lexeme.ClosesNone])
    case case14.refl =>
      apply matched_of_closesNone
      simp only [Piece.lexemes_token, Piece.lexemes_nil, List.mem_singleton, forall_eq]
      exact ⟨Lexeme.ofWord_ne_symbol rfl _, Lexeme.ofWord_ne_symbol rfl _⟩
    case case15.refl found =>
      apply matched_of_closesNone
      unfold operator? at found
      split at found <;> cases found <;> simp [Lexeme.ClosesNone]
    all_goals exact matched_of_closesNone (by simp [Lexeme.ClosesNone])

end Scan

/-- The scan closes what is innermost, also in front of a fault. -/
theorem matched_scan (inside : List Enclosure) (fresh : Bool) (place : Nat) (t : Text) :
    Matched (inside.map Enclosure.delimiter) (Piece.lexemes (scan inside fresh place t).pieces) := by
  fun_induction scan inside fresh place t with
  | case1 | case2 | case3 => exact trivial
  | case4 inside fresh place c rest pieces inside' fresh' rest' step ih =>
    rw [Scanned.behind, Piece.lexemes_append, matched_append, Scan.enclosing_step step]
    exact ⟨Scan.matched_step step, ih⟩
  | case5 inside fresh place c rest pieces fault place' step =>
    apply matched_of_closesNone
    rcases Scan.pieces_of_stop step with rfl | ⟨rfl, _⟩
    · simp
    · simp [Lexeme.ClosesNone]

end TinyTcl
