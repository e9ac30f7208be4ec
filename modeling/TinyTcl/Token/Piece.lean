import TinyTcl.Token.Basic

/-! A script cut into pieces. Every character of a script belongs to one piece: a token, or a gap of
blanks and comments between tokens. The pieces do not depend on where the script stands; places are
given to the tokens afterwards, by counting over the pieces in front of them. -/
namespace TinyTcl

/-- A slice of a script with its characters as they are written. -/
inductive Piece where
  | gap (source : Text)
  | token (lexeme : Lexeme) (source : Text)
deriving DecidableEq, Repr

namespace Piece

/-- The characters of a piece. -/
def source : Piece → Text
  | gap s | token _ s => s

@[simp] theorem source_gap (s : Text) : (gap s).source = s := rfl

@[simp] theorem source_token (lexeme : Lexeme) (s : Text) : (token lexeme s).source = s := rfl

/-- Whether a piece is the opening brace of a block. -/
def opensBlock : Piece → Bool
  | token (.symbol .leftBrace) _ => true
  | _ => false

/-- A piece that has characters and opens no block. -/
def IsPlain (p : Piece) : Prop := p.source ≠ [] ∧ p.opensBlock = false

/-- The characters of several pieces. -/
def sources (pieces : List Piece) : Text := pieces.flatMap source

@[simp] theorem sources_nil : sources [] = [] := rfl

@[simp] theorem sources_cons (p : Piece) (ps : List Piece) :
    sources (p :: ps) = p.source ++ sources ps := rfl

@[simp] theorem sources_append (ps qs : List Piece) :
    sources (ps ++ qs) = sources ps ++ sources qs := by
  simp [sources]

/-- The tokens among the pieces, each with the place of its first character; the first piece
starts at `p`. -/
def tokensFrom (p : Position) : List Piece → List Token
  | [] => []
  | gap s :: rest => tokensFrom (p.after s) rest
  | token lexeme s :: rest => ⟨lexeme, p⟩ :: tokensFrom (p.after s) rest

theorem tokensFrom_append (p : Position) (ps qs : List Piece) :
    tokensFrom p (ps ++ qs) = tokensFrom p ps ++ tokensFrom (p.after (sources ps)) qs := by
  induction ps generalizing p with
  | nil => rfl
  | cons piece rest ih => cases piece <;> simp [tokensFrom, ih]

theorem length_tokensFrom_le (p : Position) (ps : List Piece) :
    (tokensFrom p ps).length ≤ ps.length := by
  induction ps generalizing p with
  | nil => simp [tokensFrom]
  | cons piece rest ih =>
    cases piece <;> simp only [tokensFrom, List.length_cons]
    · exact Nat.le_succ_of_le (ih _)
    · exact Nat.succ_le_succ (ih _)

/-- Plain pieces are no more than their characters. -/
theorem length_le_sources {ps : List Piece} (h : ∀ p ∈ ps, p.IsPlain) :
    ps.length ≤ (sources ps).length := by
  induction ps with
  | nil => simp
  | cons piece rest ih =>
    have first := List.length_pos_iff.mpr (h piece List.mem_cons_self).1
    have others := ih fun p inside => h p (List.mem_cons_of_mem _ inside)
    simp only [List.length_cons, sources_cons, List.length_append]
    omega

/-- Plain pieces give no opening brace. -/
theorem ne_leftBrace_of_mem_tokensFrom {p : Position} {ps : List Piece}
    (h : ∀ p ∈ ps, p.IsPlain) {t : Token} (inside : t ∈ tokensFrom p ps) :
    t.lexeme ≠ .symbol .leftBrace := by
  induction ps generalizing p with
  | nil => simp [tokensFrom] at inside
  | cons piece rest ih =>
    have others := ih (fun p inside => h p (List.mem_cons_of_mem _ inside))
      (p := p.after piece.source)
    cases piece with
    | gap s => exact others inside
    | token lexeme s =>
      simp only [tokensFrom, List.mem_cons] at inside
      rcases inside with rfl | inside
      · rintro rfl
        simpa [opensBlock] using (h _ List.mem_cons_self).2
      · exact others inside

end Piece
end TinyTcl
