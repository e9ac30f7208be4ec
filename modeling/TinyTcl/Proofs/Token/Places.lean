import TinyTcl.Proofs.Token.Nesting

/-! Places tell tokens apart. A place grows with every character, and every token but the body of a
block has a character; so two tokens of a text stand at one place only if they are an empty body and
the brace that closes it. -/
namespace TinyTcl

namespace Position

/-- One place is in front of another. -/
def Before (p q : Position) : Prop := p.line < q.line ∨ p.line = q.line ∧ p.column < q.column

private theorem before_next (p : Position) (c : Char) : p.Before (p.next c) := by
  unfold next Before
  split
  · left
    dsimp only
    omega
  · right
    dsimp only
    omega

private theorem Before.trans {p q r : Position} (h : p.Before q) (k : q.Before r) : p.Before r := by
  unfold Before at *
  omega

theorem not_before_self (p : Position) : ¬ p.Before p := by
  unfold Before
  omega

/-- Behind some characters one is at another place. -/
theorem before_after {p : Position} {t : Text} (h : t ≠ []) : p.Before (p.after t) := by
  induction t generalizing p with
  | nil => exact absurd rfl h
  | cons c rest ih =>
    cases rest with
    | nil => exact before_next p c
    | cons d rest => exact (before_next p c).trans (ih (by simp))

private theorem eq_nil_of_after_eq {p : Position} {t : Text} (h : p.after t = p) : t = [] := by
  cases t with
  | nil => rfl
  | cons c rest =>
    have grown : p.Before (p.after (c :: rest)) := before_after (by simp)
    rw [h] at grown
    exact absurd grown (not_before_self p)

/-- A place tells how much of a text stands in front of it. -/
theorem eq_of_after_eq {p : Position} {u v u' v' : Text} (h : u ++ v = u' ++ v')
    (same : p.after u = p.after u') : u = u' := by
  rcases List.append_eq_append_iff.mp h with ⟨x, rfl, _⟩ | ⟨x, rfl, _⟩
  · rw [after_append] at same
    rw [eq_nil_of_after_eq same.symm, List.append_nil]
  · rw [after_append] at same
    rw [eq_nil_of_after_eq same, List.append_nil]

end Position

namespace Piece

/-- The pieces that a scan can yield: pieces with characters, and blocks. Where the scan was
`stopped`, a brace that opens a block without an end may be the last piece. -/
inductive Formed (stopped : Prop) : List Piece → Prop where
  | nil : Formed stopped []
  | lone : stopped → Formed stopped [token (.symbol .leftBrace) ['{']]
  | plain {p : Piece} {rest : List Piece} : p.IsPlain → Formed stopped rest →
      Formed stopped (p :: rest)
  | block (body : Text) {rest : List Piece} : Formed stopped rest →
      Formed stopped (token (.symbol .leftBrace) ['{'] :: token (.name body) body ::
        token (.symbol .rightBrace) ['}'] :: rest)

variable {stopped : Prop}

private theorem formed_append {ps qs : List Piece} (plain : ∀ p ∈ ps, p.IsPlain)
    (h : Formed stopped qs) :
    Formed stopped (ps ++ qs) := by
  induction ps with
  | nil => exact h
  | cons p rest ih =>
    exact .plain (plain p List.mem_cons_self) (ih fun q inside =>
      plain q (List.mem_cons_of_mem _ inside))

/-- Whether the next piece belongs to a block, behind its opening brace. -/
def InBlock (ps : List Piece) : Prop :=
  (∃ front, ps = front ++ [token (.symbol .leftBrace) ['{']]) ∨
    ∃ front body, ps = front ++ [token (.symbol .leftBrace) ['{'], token (.name body) body]

/-- A piece without characters is the body of an empty block. -/
theorem Formed.block_of_empty {ps rest : List Piece} {p : Piece}
    (h : Formed stopped (ps ++ p :: rest)) (empty : p.source = []) :
    ∃ front others, ps = front ++ [token (.symbol .leftBrace) ['{']] ∧ p = token (.name []) [] ∧
      rest = token (.symbol .rightBrace) ['}'] :: others := by
  generalize whole : ps ++ p :: rest = qs at h
  induction h generalizing ps with
  | nil => simp at whole
  | lone _ =>
    cases ps with
    | nil =>
      cases whole
      cases empty
    | cons q ps => simp at whole
  | plain plain _ ih =>
    cases ps with
    | nil =>
      cases whole
      exact absurd empty plain.1
    | cons q ps =>
      cases whole
      obtain ⟨front, others, rfl, same, behind⟩ := ih rfl
      exact ⟨_ :: front, others, rfl, same, behind⟩
  | block body _ ih =>
    rcases ps with _ | ⟨a, _ | ⟨b, _ | ⟨c, ps⟩⟩⟩
    · cases whole
      cases empty
    · cases whole
      cases empty
      exact ⟨[], _, rfl, rfl, rfl⟩
    · cases whole
      cases empty
    · cases whole
      obtain ⟨front, others, rfl, same, behind⟩ := ih rfl
      exact ⟨_ :: _ :: _ :: front, others, rfl, same, behind⟩

/-- Pieces with as many characters in front of them are the same, but in a block. -/
theorem Formed.eq_of_sources_eq {whole ps qs rest others : List Piece} {p q : Piece}
    (h : Formed stopped whole) (at_p : whole = ps ++ p :: rest) (at_q : whole = qs ++ q :: others)
    (same : sources ps = sources qs) (outside : ¬ InBlock ps) : ps = qs := by
  rcases List.append_eq_append_iff.mp (at_p.symm.trans at_q) with ⟨x, rfl, behind⟩ |
    ⟨x, rfl, behind⟩
  · cases x with
    | nil => simp
    | cons first x =>
      cases behind
      obtain ⟨empty, -⟩ : p.source = [] ∧ sources x = [] := by simpa using same
      obtain ⟨front, _, rfl, _⟩ := (at_p ▸ h).block_of_empty empty
      exact absurd (.inl ⟨front, rfl⟩) outside
  · cases x with
    | nil => simp
    | cons first x =>
      cases behind
      obtain ⟨empty, more⟩ : q.source = [] ∧ sources x = [] := by simpa using same
      obtain ⟨front, _, rfl, rfl, closing⟩ := (at_q ▸ h).block_of_empty empty
      cases x with
      | nil => exact absurd (.inr ⟨front, [], by simp⟩) outside
      | cons second x =>
        cases closing
        simp at more

/-- A piece that starts in the body of a block belongs to the block. -/
theorem inBlock_of_sources_eq {whole front others ahead rest : List Piece} {p : Piece} {u v : Text}
    (block : whole = front ++ token (.symbol .leftBrace) ['{'] :: token (.name (u ++ v)) (u ++ v) ::
      token (.symbol .rightBrace) ['}'] :: others) (at_p : whole = ahead ++ p :: rest)
    (same : sources ahead = sources front ++ ['{'] ++ u) : InBlock ahead := by
  rcases List.append_eq_append_iff.mp (at_p.symm.trans block) with ⟨x, rfl, _⟩ | ⟨x, rfl, behind⟩
  · simp at same
  · rcases x with _ | ⟨a, _ | ⟨b, _ | ⟨c, x⟩⟩⟩
    · simp at same
    · obtain ⟨rfl, _⟩ := List.cons.inj behind
      exact .inl ⟨front, rfl⟩
    · obtain ⟨rfl, next⟩ := List.cons.inj behind
      obtain ⟨rfl, _⟩ := List.cons.inj next
      exact .inr ⟨front, _, rfl⟩
    · cases behind
      simp at same

/-- Behind the brace of a block its body and its closing brace follow, unless the scan stopped. -/
theorem Formed.block_of_leftBrace {ps rest : List Piece} {s : Text}
    (h : Formed stopped (ps ++ token (.symbol .leftBrace) s :: rest)) :
    s = ['{'] ∧ (stopped ∧ rest = [] ∨ ∃ body others,
      rest = token (.name body) body :: token (.symbol .rightBrace) ['}'] :: others) := by
  generalize whole : ps ++ token (.symbol .leftBrace) s :: rest = qs at h
  induction h generalizing ps with
  | nil => simp at whole
  | lone stops =>
    cases ps with
    | nil =>
      cases whole
      exact ⟨rfl, .inl ⟨stops, rfl⟩⟩
    | cons q ps => simp at whole
  | plain plain _ ih =>
    cases ps with
    | nil =>
      cases whole
      cases plain.2
    | cons q ps =>
      cases whole
      exact ih rfl
  | block body _ ih =>
    rcases ps with _ | ⟨a, _ | ⟨b, _ | ⟨c, ps⟩⟩⟩
    · cases whole
      exact ⟨rfl, .inr ⟨body, _, rfl⟩⟩
    · cases whole
    · cases whole
    · cases whole
      exact ih rfl

theorem tokensFrom_eq_append {p : Position} {ps : List Piece} {before after : List Token}
    {t : Token} (h : tokensFrom p ps = before ++ t :: after) :
    ∃ front s rest, ps = front ++ token t.lexeme s :: rest ∧ tokensFrom p front = before ∧
      t.position = p.after (sources front) ∧
      tokensFrom (t.position.after s) rest = after := by
  induction ps generalizing p before with
  | nil => simp [tokensFrom] at h
  | cons piece rest ih =>
    cases piece with
    | gap s =>
      obtain ⟨front, s', others, rfl, same, place, behind⟩ := ih h
      exact ⟨gap s :: front, s', others, rfl, same, by simpa using place, behind⟩
    | token l s =>
      cases before with
      | nil =>
        cases h
        exact ⟨[], s, rest, rfl, rfl, rfl, rfl⟩
      | cons first before =>
        simp only [tokensFrom, List.cons_append, List.cons.injEq] at h
        obtain ⟨rfl, h⟩ := h
        obtain ⟨front, s', others, rfl, same, place, behind⟩ := ih h
        exact ⟨token l s :: front, s', others, rfl, by simp [tokensFrom, same],
          by simpa using place, behind⟩

end Piece

theorem formed_scan (inside : List Enclosure) (fresh : Bool) (place : Nat) (t : Text) :
    Piece.Formed ((scan inside fresh place t).stopped ≠ none) (scan inside fresh place t).pieces := by
  fun_induction scan inside fresh place t with
  | case1 | case2 | case3 => exact .nil
  | case4 inside fresh place c rest pieces inside' fresh' rest' step ih =>
    rcases Scan.isPlain_of_step step with plain | ⟨body, rfl⟩
    · exact Piece.formed_append plain ih
    · exact .block body ih
  | case5 inside fresh place c rest pieces fault place' step =>
    rcases Scan.pieces_of_stop step with rfl | ⟨rfl, _⟩
    · exact .nil
    · exact .lone (by simp)

/-- The pieces in front of a fault make up the text in front of it. -/
theorem sources_scan_append (inside : List Enclosure) (fresh : Bool) (place : Nat) (t : Text) :
    ∃ rest, Piece.sources (scan inside fresh place t).pieces ++ rest = t := by
  fun_induction scan inside fresh place t with
  | case1 | case2 | case3 => exact ⟨[], rfl⟩
  | case4 inside fresh place c rest pieces inside' fresh' rest' step ih =>
    obtain ⟨others, same⟩ := ih
    refine ⟨others, ?_⟩
    rw [Scanned.behind, Piece.sources_append, List.append_assoc, same]
    exact (Scan.sources_step step).1
  | case5 inside fresh place c rest pieces fault place' step =>
    rcases Scan.pieces_of_stop step with rfl | ⟨rfl, rfl⟩
    · exact ⟨_, rfl⟩
    · exact ⟨rest, rfl⟩

theorem formed_ofText (t : Text) :
    Piece.Formed ((Scanned.ofText t).stopped ≠ none) (Scanned.ofText t).pieces :=
  formed_scan [] true 0 t

theorem sources_ofText_append (t : Text) :
    ∃ rest, Piece.sources (Scanned.ofText t).pieces ++ rest = t :=
  sources_scan_append [] true 0 t

end TinyTcl
