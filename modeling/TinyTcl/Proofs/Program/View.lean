import TinyTcl.Program.Grammar

/-! What stands at a cursor, in three cases: a token to read (`Reads`), the end (`Ends`), or a
lexical fault (`Breaks`). Each case is told from the tokens and the fault of the cursor, and decides
what the readers of the grammar do. -/
namespace TinyTcl.Cursor

/-- A token stands at the cursor, and `rest` is behind it. -/
def Reads (c : Cursor) (t : Token) (rest : Cursor) : Prop :=
  ∃ read shorter, c.view = .token t rest read shorter

/-- The end stands at the cursor as a token, and `here` has seen it. -/
def Ends (c : Cursor) (t : Token) (here : Cursor) : Prop :=
  ∃ same, c.view = .finish t here same

/-- A lexical fault stands at the cursor, and `here` has met it. -/
def Breaks (c : Cursor) (d : Diagnostic) (here : Cursor) : Prop := c.view = .broken d here

/-- A token that can be refused stands at the cursor: one to read, or the end. -/
def Shows (c : Cursor) (t : Token) (here : Cursor) : Prop :=
  (∃ rest, c.Reads t rest) ∧ here = c ∨ c.Ends t here

theorem view_cases (c : Cursor) :
    (∃ t rest, c.Reads t rest) ∨ (∃ t here, c.Ends t here) ∨ ∃ d here, c.Breaks d here := by
  cases view : c.view with
  | token t rest read shorter => exact .inl ⟨t, rest, read, shorter, view⟩
  | finish t here same => exact .inr (.inl ⟨t, here, same, view⟩)
  | broken d here => exact .inr (.inr ⟨d, here, view⟩)

/-- The cursor behind the first token. -/
def behind (c : Cursor) (t : Token) (rest : List Token) : Cursor :=
  { c with tokens := rest, line := t.position.line }

theorem reads_of_tokens {c : Cursor} {t : Token} {rest : List Token} (tokens : c.tokens = t :: rest)
    (other : t.lexeme ≠ .symbol .endOfFile) : c.Reads t (c.behind t rest) := by
  obtain ⟨ts, fault, line, announcement, log⟩ := c
  cases tokens
  refine ⟨rfl, ?_, ?_⟩
  · simp only [workload, behind, TinyTcl.workload]
    omega
  · simp only [view, other, if_false]
    rfl

theorem exists_reads_of_tokens {c : Cursor} {t : Token} {rest : List Token}
    (tokens : c.tokens = t :: rest) (other : t.lexeme ≠ .symbol .endOfFile) :
    ∃ next, c.Reads t next ∧ next.tokens = rest ∧ next.fault = c.fault :=
  ⟨_, reads_of_tokens tokens other, rfl, rfl⟩

theorem ends_of_tokens {c : Cursor} {t : Token} {rest : List Token} (tokens : c.tokens = t :: rest)
    (last : t.lexeme = .symbol .endOfFile) : c.Ends t c.announce := by
  obtain ⟨ts, fault, line, announcement, log⟩ := c
  cases tokens
  refine ⟨rfl, ?_⟩
  simp only [view, last, if_true]

theorem ends_of_nil {c : Cursor} (tokens : c.tokens = []) (sound : c.fault = none) :
    c.Ends (.ofSymbol .endOfFile ⟨c.line, 0⟩) c := by
  obtain ⟨ts, fault, line, announcement, log⟩ := c
  cases tokens
  cases sound
  exact ⟨rfl, rfl⟩

theorem breaks_of_nil {c : Cursor} {d : Diagnostic} (tokens : c.tokens = [])
    (fault : c.fault = some d) : c.Breaks d { c with fault := none } := by
  obtain ⟨ts, f, line, announcement, log⟩ := c
  cases tokens
  cases fault
  rfl

section Exclusive

variable {c : Cursor} {t u : Token} {d e : Diagnostic} {rest other here there : Cursor}

theorem Reads.view (h : c.Reads t rest) :
    ∃ read shorter, c.view = .token t rest read shorter := h

theorem Ends.view (h : c.Ends t here) : ∃ same, c.view = .finish t here same := h

theorem Reads.unique (h : c.Reads t rest) (k : c.Reads u other) : u = t ∧ other = rest := by
  obtain ⟨_, _, h⟩ := h
  obtain ⟨_, _, k⟩ := k
  cases h.symm.trans k
  exact ⟨rfl, rfl⟩

theorem Ends.unique (h : c.Ends t here) (k : c.Ends u there) : u = t ∧ there = here := by
  obtain ⟨_, h⟩ := h
  obtain ⟨_, k⟩ := k
  cases h.symm.trans k
  exact ⟨rfl, rfl⟩

private theorem Breaks.unique (h : c.Breaks d here) (k : c.Breaks e there) :
    e = d ∧ there = here := by
  cases h.symm.trans k
  exact ⟨rfl, rfl⟩

theorem Reads.not_ends (h : c.Reads t rest) : ¬ c.Ends u here := by
  rintro ⟨_, k⟩
  obtain ⟨_, _, h⟩ := h
  cases h.symm.trans k

theorem Reads.not_breaks (h : c.Reads t rest) : ¬ c.Breaks d here := by
  intro k
  obtain ⟨_, _, h⟩ := h
  cases h.symm.trans k

theorem Ends.not_breaks (h : c.Ends t here) : ¬ c.Breaks d there := by
  intro k
  obtain ⟨_, h⟩ := h
  cases h.symm.trans k

theorem Shows.unique (h : c.Shows t here) (k : c.Shows u there) : u = t ∧ there = here := by
  rcases h with ⟨⟨_, reads⟩, rfl⟩ | ends <;> rcases k with ⟨⟨_, reads'⟩, rfl⟩ | ends'
  · exact ⟨(reads.unique reads').1, rfl⟩
  · exact absurd ends' reads.not_ends
  · exact absurd ends reads'.not_ends
  · exact ends.unique ends'

end Exclusive

theorem reads_iff {c : Cursor} {t : Token} {rest : Cursor} :
    c.Reads t rest ↔ c.tokens = t :: rest.tokens ∧ t.lexeme ≠ .symbol .endOfFile ∧
      rest = c.behind t rest.tokens := by
  constructor
  · intro reads
    obtain ⟨read, _, _⟩ := reads.view
    have other : t.lexeme ≠ .symbol .endOfFile :=
      fun last => reads.not_ends (ends_of_tokens read last)
    exact ⟨read, other, ((reads_of_tokens read other).unique reads).2⟩
  · rintro ⟨tokens, other, same⟩
    rw [same]
    exact reads_of_tokens tokens other

theorem ends_iff {c : Cursor} {t : Token} {here : Cursor} :
    c.Ends t here ↔
      (∃ rest, c.tokens = t :: rest) ∧ t.lexeme = .symbol .endOfFile ∧ here = c.announce ∨
      c.tokens = [] ∧ c.fault = none ∧ t = .ofSymbol .endOfFile ⟨c.line, 0⟩ ∧ here = c := by
  constructor
  · intro ends
    cases tokens : c.tokens with
    | nil =>
      cases fault : c.fault with
      | none =>
        obtain ⟨rfl, rfl⟩ := (ends_of_nil tokens fault).unique ends
        exact .inr ⟨rfl, rfl, rfl, rfl⟩
      | some d => exact absurd (breaks_of_nil tokens fault) ends.not_breaks
    | cons u rest =>
      by_cases last : u.lexeme = .symbol .endOfFile
      · obtain ⟨rfl, rfl⟩ := (ends_of_tokens tokens last).unique ends
        exact .inl ⟨⟨rest, rfl⟩, last, rfl⟩
      · exact absurd ends (reads_of_tokens tokens last).not_ends
  · rintro (⟨⟨rest, tokens⟩, last, rfl⟩ | ⟨tokens, fault, rfl, rfl⟩)
    · exact ends_of_tokens tokens last
    · exact ends_of_nil tokens fault

theorem breaks_iff {c : Cursor} {d : Diagnostic} {here : Cursor} :
    c.Breaks d here ↔ c.tokens = [] ∧ c.fault = some d ∧ here = { c with fault := none } := by
  constructor
  · intro breaks
    cases tokens : c.tokens with
    | nil =>
      cases fault : c.fault with
      | none => exact absurd breaks (ends_of_nil tokens fault).not_breaks
      | some e =>
        obtain ⟨rfl, rfl⟩ := (breaks_of_nil tokens fault).unique breaks
        exact ⟨rfl, rfl, by rw [tokens]⟩
    | cons u rest =>
      by_cases last : u.lexeme = .symbol .endOfFile
      · exact absurd breaks (ends_of_tokens tokens last).not_breaks
      · exact absurd breaks (reads_of_tokens tokens last).not_breaks
  · rintro ⟨tokens, fault, rfl⟩
    exact breaks_of_nil tokens fault

/-- Behind a token less is left to read. -/
theorem Reads.shorter {c rest : Cursor} {t : Token} (h : c.Reads t rest) :
    rest.workload < c.workload := by
  obtain ⟨_, shorter, _⟩ := h
  exact Nat.lt_of_le_of_lt (Nat.le_add_right _ _) shorter

/-- The cursor after a look at what stands there: an end is seen from then on. -/
def look (c : Cursor) : Cursor :=
  match c.view with
  | .finish _ here _ => here
  | _ => c

theorem Reads.look {c rest : Cursor} {t : Token} (h : c.Reads t rest) : c.look = c := by
  obtain ⟨_, _, h⟩ := h
  rw [Cursor.look, h]

theorem Ends.look {c here : Cursor} {t : Token} (h : c.Ends t here) : c.look = here := by
  obtain ⟨_, h⟩ := h
  rw [Cursor.look, h]

theorem Breaks.look {c here : Cursor} {d : Diagnostic} (h : c.Breaks d here) : c.look = c := by
  rw [Cursor.look, (h : c.view = _)]

@[simp] theorem tokens_look (c : Cursor) : c.look.tokens = c.tokens := by
  rcases c.view_cases with ⟨t, rest, reads⟩ | ⟨t, here, ends⟩ | ⟨d, here, breaks⟩
  · rw [reads.look]
  · rw [ends.look]
    rcases ends_iff.mp ends with ⟨_, _, rfl⟩ | ⟨_, _, _, rfl⟩ <;> rfl
  · rw [breaks.look]

@[simp] theorem fault_look (c : Cursor) : c.look.fault = c.fault := by
  rcases c.view_cases with ⟨t, rest, reads⟩ | ⟨t, here, ends⟩ | ⟨d, here, breaks⟩
  · rw [reads.look]
  · rw [ends.look]
    rcases ends_iff.mp ends with ⟨_, _, rfl⟩ | ⟨_, _, _, rfl⟩ <;> rfl
  · rw [breaks.look]

/-! ### Leaving brackets -/

@[simp] theorem leave_zero (c : Cursor) : c.leave 0 = (none, c) := by
  rw [leave]

section Leave

variable {c rest here : Cursor} {t : Token} {d : Diagnostic} {depth : Nat}

theorem leave_of_leftBracket (h : c.Reads t rest) (opens : t.lexeme = .symbol .leftBracket) :
    c.leave (depth + 1) = rest.leave (depth + 2) := by
  obtain ⟨_, _, view⟩ := h
  rw [leave, view]
  simp only [opens]

theorem leave_of_rightBracket (h : c.Reads t rest) (closes : t.lexeme = .symbol .rightBracket) :
    c.leave (depth + 1) = rest.leave depth := by
  obtain ⟨_, _, view⟩ := h
  rw [leave, view]
  simp only [closes]

theorem leave_of_other (h : c.Reads t rest) (opens : t.lexeme ≠ .symbol .leftBracket)
    (closes : t.lexeme ≠ .symbol .rightBracket) :
    c.leave (depth + 1) = rest.leave (depth + 1) := by
  obtain ⟨_, _, view⟩ := h
  rw [leave, view]
  dsimp only
  split
  · next same => exact absurd same opens
  · next same => exact absurd same closes
  · rfl

theorem leave_of_ends (h : c.Ends t here) : c.leave (depth + 1) = (none, here) := by
  obtain ⟨_, view⟩ := h
  rw [leave, view]

theorem leave_of_breaks (h : c.Breaks d here) : c.leave (depth + 1) = (some d, here) := by
  rw [leave, (h : c.view = _)]

end Leave

/-! ### What is left -/

section Tails

variable {c rest here : Cursor} {t : Token} {d : Diagnostic}

theorem Reads.tokens (h : c.Reads t rest) : rest.tokens <:+ c.tokens :=
  ⟨[t], (reads_iff.mp h).1.symm⟩

theorem Ends.tokens (h : c.Ends t here) : here.tokens <:+ c.tokens := by
  have same : here.tokens = c.tokens := by rw [← h.look, tokens_look]
  exact same ▸ List.suffix_rfl

theorem Breaks.tokens (h : c.Breaks d here) : here.tokens <:+ c.tokens := by
  obtain ⟨-, -, rfl⟩ := breaks_iff.mp h
  exact List.suffix_rfl

theorem tokens_skipSeparators (c : Cursor) : c.skipSeparators.tokens <:+ c.tokens := by
  fun_induction skipSeparators c with
  | case1 c t rest read shorter view _ ih => exact ih.trans (Reads.tokens ⟨read, shorter, view⟩)
  | case2 | case3 => exact List.suffix_rfl

theorem tokens_leave (depth : Nat) (c : Cursor) : (c.leave depth).2.tokens <:+ c.tokens := by
  fun_induction leave depth c with
  | case1 => exact List.suffix_rfl
  | case2 c depth t rest _ _ view _ ih => exact ih.trans (Reads.tokens ⟨_, _, view⟩)
  | case3 c depth t rest _ _ view _ ih => exact ih.trans (Reads.tokens ⟨_, _, view⟩)
  | case4 c depth t rest _ _ view _ _ ih => exact ih.trans (Reads.tokens ⟨_, _, view⟩)
  | case5 c depth t here same view => exact Ends.tokens ⟨same, view⟩
  | case6 c depth d here view => exact Breaks.tokens view

end Tails

end TinyTcl.Cursor
