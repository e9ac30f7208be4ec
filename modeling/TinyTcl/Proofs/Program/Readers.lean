import TinyTcl.Program.Reader
import TinyTcl.Proofs.Program.View

/-! What the readers of the grammar do where there is nothing for them. At a lexical fault every
reader fails with it. At a separator, at a closing bracket and at the end, no operand, no word and
no command begins: the token is refused. A sign and a brace are told apart by what follows them. -/
namespace TinyTcl

namespace Cursor

/-- A token stands at the cursor that no operand and no word begins with: a separator, a closing
bracket or the end. -/
def Stops (c : Cursor) (t : Token) (here : Cursor) : Prop :=
  (∃ rest, c.Reads t rest) ∧ (t.lexeme.isSeparator = true ∨ t.lexeme = .symbol .rightBracket) ∧
    here = c ∨ c.Ends t here

theorem Reads.shows {c rest : Cursor} {t : Token} (h : c.Reads t rest) : c.Shows t c :=
  .inl ⟨⟨rest, h⟩, rfl⟩

theorem Stops.shows {c here : Cursor} {t : Token} (h : c.Stops t here) : c.Shows t here := by
  rcases h with ⟨reads, _, same⟩ | ends
  · exact .inl ⟨reads, same⟩
  · exact .inr ends

theorem Stops.not_breaks {c here there : Cursor} {t : Token} {d : Diagnostic}
    (h : c.Stops t here) : ¬ c.Breaks d there := by
  rcases h with ⟨⟨_, reads⟩, _⟩ | ends
  · exact reads.not_breaks
  · exact ends.not_breaks

/-- What reads on is not what stops. -/
theorem Stops.not_reads {c here rest : Cursor} {t other : Token} (h : c.Stops t here)
    (plain : other.lexeme.isSeparator = false) (bracket : other.lexeme ≠ .symbol .rightBracket) :
    ¬ c.Reads other rest := by
  intro more
  rcases h with ⟨⟨_, reads⟩, lexeme, _⟩ | ends
  · obtain ⟨rfl, _⟩ := more.unique reads
    exact lexeme.elim (by simp [plain]) bracket
  · exact more.not_ends ends

theorem Stops.look {c here : Cursor} {t : Token} (h : c.Stops t here) : c.look = here := by
  rcases h with ⟨⟨_, reads⟩, _, rfl⟩ | ends
  · exact reads.look
  · exact ends.look

theorem workload_look_lt (c : Cursor) : c.look.workload < c.workload + 1 := by
  unfold look
  split <;> omega

theorem Stops.within {c here : Cursor} {t : Token} (h : c.Stops t here) :
    here.workload < c.workload + 1 :=
  h.look ▸ c.workload_look_lt

/-- The cursor stands at the end of a statement inside `depth` brackets. -/
def Concludes (depth : Nat) (c : Cursor) : Prop :=
  (∃ t rest, c.Reads t rest ∧
    (t.lexeme.isSeparator = true ∨ 0 < depth ∧ t.lexeme = .symbol .rightBracket)) ∨
  ∃ t here, c.Ends t here

end Cursor

/-- How a token is refused inside `depth` brackets: the fault, and the cursor behind it. -/
def refusal (depth : Nat) (f : GrammarFault) (t : Token) (here : Cursor) : Diagnostic × Cursor :=
  match here.leave depth with
  | (none, after) => (.ofCause (.grammar f) t.position, after)
  | (some lexical, after) => (lexical, after)

theorem reject_eq {α : Type} {n : Nat} (depth : Nat) (f : GrammarFault) (t : Token)
    (here : Cursor) : (reject depth f t here : Reply α n) =
      .fail (refusal depth f t here).1 (refusal depth f t here).2 := by
  unfold reject refusal
  rcases here.leave depth with ⟨_ | d, after⟩ <;> rfl

theorem Lexeme.isSeparator_iff {l : Lexeme} :
    l.isSeparator = true ↔ l = .symbol .semicolon ∨ l = .symbol .endOfLine := by
  cases l with
  | number t => simp [isSeparator]
  | name t => simp [isSeparator]
  | symbol s => cases s <;> simp [isSeparator, Symbol.isSeparator]

namespace Grammar

variable {depth : Nat} {c here : Cursor} {d : Diagnostic} {t : Token}

/-- A stop by its lexeme. -/
theorem stop_cases (h : c.Stops t here) :
    (∃ rest read shorter, c.view = .token t rest read shorter) ∧ here = c ∧
      (t.lexeme = .symbol .semicolon ∨ t.lexeme = .symbol .endOfLine ∨
        t.lexeme = .symbol .rightBracket) ∨
      ∃ same, c.view = .finish t here same := by
  rcases h with ⟨reads, lexeme, same⟩ | ends
  · exact .inl ⟨reads, same, by rwa [Lexeme.isSeparator_iff, or_assoc] at lexeme⟩
  · exact .inr ends

theorem not_reject {α : Type} {n : Nat} {f : GrammarFault} {a : α} {rest : Cursor}
    {within : rest.workload < n} : reject depth f t c ≠ .ok a rest within := by
  rw [reject_eq]
  rintro ⟨⟩

section Consume

variable {α : Type} {f : GrammarFault} {taken : Lexeme → Option α} {a : α} {rest : Cursor}

theorem consume_of_reads (h : c.Reads t rest) (wanted : taken t.lexeme = some a) :
    consume depth f taken c = .ok a rest h.shorter := by
  obtain ⟨_, _, view⟩ := h.view
  simp only [consume, view, wanted]

theorem consume_of_other (h : c.Reads t rest) (other : taken t.lexeme = none) :
    consume depth f taken c = reject depth f t c := by
  obtain ⟨_, _, view⟩ := h.view
  simp only [consume, view, other]

theorem consume_of_ends (h : c.Ends t here) : consume depth f taken c = reject depth f t here := by
  obtain ⟨_, view⟩ := h.view
  rw [consume, view]

theorem consume_of_breaks (h : c.Breaks d here) : consume depth f taken c = .fail d here := by
  rw [consume, (h : c.view = _)]

theorem consume_eq_ok {within : rest.workload < c.workload} :
    consume depth f taken c = .ok a rest within ↔ ∃ t, c.Reads t rest ∧ taken t.lexeme = some a := by
  constructor
  · intro h
    rcases c.view_cases with ⟨t, behind, reads⟩ | ⟨t, here, ends⟩ | ⟨d, here, breaks⟩
    · cases wanted : taken t.lexeme with
      | none => exact absurd (consume_of_other reads wanted ▸ h) not_reject
      | some b =>
        rw [consume_of_reads reads wanted] at h
        cases h
        exact ⟨t, reads, wanted⟩
    · exact absurd (consume_of_ends ends ▸ h) not_reject
    · rw [consume_of_breaks breaks] at h
      cases h
  · rintro ⟨t, reads, wanted⟩
    exact consume_of_reads reads wanted

end Consume

section Breaks

theorem block_of_breaks {p : Position} (h : c.Breaks d here) : block depth p c = .fail d here := by
  rw [block, (h : c.view = _)]

theorem further_of_breaks {layer : Layer} {e : Expr} (h : c.Breaks d here) :
    further layer depth e c = .fail d here := by
  rw [further, (h : c.view = _)]

theorem operand_of_breaks (h : c.Breaks d here) : operand depth c = .fail d here := by
  rw [operand, (h : c.view = _)]

theorem parts_of_breaks (h : c.Breaks d here) : parts depth c = .fail d here := by
  rw [parts, (h : c.view = _)]

theorem substitution_of_breaks (h : c.Breaks d here) : substitution depth c = .fail d here := by
  rw [substitution, (h : c.view = _)]

theorem word_of_breaks {role : Operand} (h : c.Breaks d here) :
    word depth role c = .fail d here := by
  rw [word, (h : c.view = _)]

theorem arguments_of_breaks (h : c.Breaks d here) : arguments depth c = .fail d here := by
  rw [arguments, (h : c.view = _)]

theorem command_of_breaks (h : c.Breaks d here) : command depth c = .fail d here := by
  rw [command, (h : c.view = _)]

end Breaks

section Stops

/-- What must be there is not at a stop, unless it is what stops. -/
theorem consume_of_stops {α : Type} {f : GrammarFault} {taken : Lexeme → Option α}
    (plain : ∀ l a, taken l = some a → l.isSeparator = false ∧ l ≠ .symbol .rightBracket)
    (h : c.Stops t here) : consume depth f taken c = reject depth f t here := by
  rcases h with ⟨⟨rest, reads⟩, lexeme, rfl⟩ | ends
  · refine consume_of_other reads (Option.eq_none_iff_forall_ne_some.mpr fun a wanted => ?_)
    obtain ⟨separates, bracket⟩ := plain _ a wanted
    exact lexeme.elim (by simp [separates]) bracket
  · exact consume_of_ends ends

theorem block_of_stops {p : Position} (h : c.Stops t here) :
    block depth p c = reject depth .noBody t here := by
  obtain ⟨lexeme, place⟩ := t
  rcases stop_cases h with ⟨⟨_, _, _, view⟩, rfl, rfl | rfl | rfl⟩ | ⟨_, view⟩
  all_goals rw [block, view]

theorem operand_of_stops (h : c.Stops t here) :
    operand depth c = reject depth (.noOperand t.lexeme) t here := by
  rcases stop_cases h with ⟨⟨_, _, _, view⟩, rfl, lexeme | lexeme | lexeme⟩ | ⟨_, view⟩
  all_goals simp only [operand, *]

theorem parts_of_stops (h : c.Stops t here) :
    parts depth c = reject depth .openString t here := by
  rcases stop_cases h with ⟨⟨_, _, _, view⟩, rfl, lexeme | lexeme | lexeme⟩ | ⟨_, view⟩
  all_goals simp only [parts, *]

theorem word_of_stops {role : Operand} (h : c.Stops t here) :
    word depth role c = reject depth (.noWord role t.lexeme) t here := by
  rcases stop_cases h with ⟨⟨_, _, _, view⟩, rfl, lexeme | lexeme | lexeme⟩ | ⟨_, view⟩
  all_goals simp only [word, *]
  all_goals rfl

theorem command_of_stops (h : c.Stops t here) :
    command depth c = reject depth (.noCommand t.lexeme) t here := by
  obtain ⟨lexeme, place⟩ := t
  rcases stop_cases h with ⟨⟨_, _, _, view⟩, rfl, rfl | rfl | rfl⟩ | ⟨_, view⟩
  all_goals rw [command, view]

/-- A layer that stops here is all that was read. -/
theorem further_of_stops {layer : Layer} {e : Expr} (h : c.Stops t here) :
    further layer depth e c = .ok e here h.within := by
  rcases stop_cases h with ⟨⟨_, _, _, view⟩, rfl, lexeme | lexeme | lexeme⟩ | ⟨_, view⟩
  all_goals
    simp only [further, Layer.operator?, *]

end Stops

section Signs

variable {rest behind : Cursor} {s : Symbol} {p q : Position} {role : Operand}

/-- A number is read with the sign in front of it. -/
theorem word_of_signed_number {digits : Text} (h : c.Reads ⟨.symbol s, p⟩ rest)
    (sign : s = .plus ∨ s = .minus) (number : rest.Reads ⟨.number digits, q⟩ behind)
    (within : behind.workload < c.workload) :
    word depth role c = .ok (.number (s.text ++ digits) ⟨.symbol s, p⟩) behind within := by
  obtain ⟨_, _, view⟩ := h
  obtain ⟨_, _, next⟩ := number
  rw [word, view]
  rcases sign with rfl | rfl
  · simp [next]
  · simp [next]

/-- A sign without a number behind it is a word. -/
theorem word_of_lone_sign (h : c.Reads ⟨.symbol s, p⟩ rest) (sign : s = .plus ∨ s = .minus)
    (alone : ∀ digits q behind, ¬ rest.Reads ⟨.number digits, q⟩ behind)
    (sound : ∀ d here, ¬ rest.Breaks d here) (within : rest.look.workload < c.workload) :
    word depth role c = .ok (.word s.text ⟨.symbol s, p⟩) rest.look within := by
  obtain ⟨_, _, view⟩ := h
  rw [word, view]
  rcases rest.view_cases with ⟨⟨l, q⟩, behind, reads⟩ | ⟨t, here, ends⟩ | ⟨d, here, breaks⟩
  · obtain ⟨_, _, next⟩ := reads.view
    rcases l with digits | text | other
    case number => exact absurd reads (alone _ _ _)
    all_goals rcases sign with rfl | rfl <;> simp [next, reads.look]
  · obtain ⟨_, next⟩ := ends.view
    rcases sign with rfl | rfl <;> simp [next, ends.look]
  · exact absurd breaks (sound _ _)

theorem word_of_sign_of_breaks (h : c.Reads ⟨.symbol s, p⟩ rest) (sign : s = .plus ∨ s = .minus)
    (breaks : rest.Breaks d here) : word depth role c = .fail d here := by
  obtain ⟨_, _, view⟩ := h
  have next : rest.view = _ := breaks
  rw [word, view]
  rcases sign with rfl | rfl
  · simp [next]
  · simp [next]

end Signs

theorem symbol_of_reads {rest : Cursor} {sym : Symbol} {p : Position} {missing : GrammarFault}
    (h : c.Reads ⟨.symbol sym, p⟩ rest) :
    symbol depth sym missing c = .ok () rest h.shorter :=
  consume_of_reads h (by simp)

theorem block_of_name (depth : Nat) (p : Position) {rest behind : Cursor} {body : Text}
    {q r : Position} (name : c.Reads ⟨.name body, q⟩ rest)
    (closes : rest.Reads ⟨.symbol .rightBrace, r⟩ behind) :
    ∃ room within, block depth p c = .ok ⟨⟨body, q⟩, room⟩ behind within := by
  have less := Nat.lt_trans closes.shorter name.shorter
  obtain ⟨read, _, view⟩ := name
  refine ⟨by simp [read, bodyRoom], less, ?_⟩
  rw [block, view]
  simp only [symbol_of_reads closes]
  rfl

/-- The body of a block is the name behind its brace, or there is none. -/
theorem tokens_of_block {p : Position} {rest : Cursor}
    {body : { b : Block // 2 * b.text.length ≤ bodyRoom c.tokens }}
    {within : rest.workload < c.workload} (h : block depth p c = .ok body rest within) :
    (∃ others, c.tokens = ⟨.name body.val.text, body.val.position⟩ :: others) ∨
      ∃ q others, c.tokens = ⟨.symbol .rightBrace, q⟩ :: others := by
  rcases c.view_cases with ⟨⟨l, q⟩, next, reads⟩ | ⟨t, here, _, view⟩ | ⟨d, here, breaks⟩
  · obtain ⟨read, _, view⟩ := reads.view
    rw [block, view] at h
    rcases l with _ | text | sym
    case name =>
      cases closed : symbol depth .rightBrace .openBlock next with
      | fail d here =>
        simp only [closed, Reply.map] at h
        cases h
      | ok _ _ _ =>
        simp only [closed, Reply.map] at h
        cases h
        exact .inl ⟨_, read⟩
    case number => exact absurd h not_reject
    cases sym
    case rightBrace => exact .inr ⟨q, _, read⟩
    all_goals exact absurd h not_reject
  · rw [block, view] at h
    exact absurd h not_reject
  · rw [block_of_breaks breaks] at h
    cases h

/-- What is left of a formula in braces once its expression has been read: the expression must be
all there is. -/
def closing {n m : Nat} (outer : Cursor) (within : outer.workload < m) :
    Reply Expr n → Reply Expr m
  | .ok inner behind _ =>
    match behind.view with
    | .finish _ here _ => .ok inner (outer.withLog here.log) within
    | .token t _ _ _ =>
      .fail (.ofCause (.grammar (.afterExpression t.lexeme)) t.position) (outer.withLog behind.log)
    | .broken d here => .fail d (outer.withLog here.log)
  | .fail d here => .fail d (outer.withLog here.log)

section Closing

variable {n m : Nat} {outer : Cursor} {within : outer.workload < m} {e : Expr} {behind rest : Cursor}
  {inside : behind.workload < n}

theorem closing_of_reads (h : behind.Reads t rest) :
    closing outer within (.ok e behind inside) =
      .fail (.ofCause (.grammar (.afterExpression t.lexeme)) t.position)
        (outer.withLog behind.log) := by
  obtain ⟨_, _, view⟩ := h
  rw [closing, view]

theorem closing_of_ends (h : behind.Ends t here) :
    closing outer within (.ok e behind inside) = .ok e (outer.withLog here.log) within := by
  obtain ⟨_, view⟩ := h
  rw [closing, view]

theorem closing_of_breaks (h : behind.Breaks d here) :
    closing outer within (.ok e behind inside) = .fail d (outer.withLog here.log) := by
  rw [closing, (h : behind.view = _)]

end Closing

/-- A formula in braces is read as a text of its own. -/
theorem formula_of_brace {p : Position} {rest : Cursor} (h : c.Reads ⟨.symbol .leftBrace, p⟩ rest) :
    formula depth c = (block depth p rest).andThen fun body after within =>
      closing after (Nat.lt_trans within h.shorter)
        (chain .sum 0 ((Cursor.ofExpression body.val).withLog after.log)) := by
  obtain ⟨_, _, view⟩ := h.view
  rw [formula]
  simp only [view, if_true]
  congr 1
  funext body after within
  cases chain .sum 0 ((Cursor.ofExpression body.val).withLog after.log) with
  | fail d here => rfl
  | ok inner behind _ =>
    unfold closing
    cases behind.view <;> rfl

/-- Only a brace makes a formula more than an expression. -/
theorem formula_of_other (h : ∀ p rest, ¬ c.Reads ⟨.symbol .leftBrace, p⟩ rest) :
    formula depth c = chain .sum depth c := by
  rw [formula]
  split
  · next t rest _ _ view =>
    have other : t.lexeme ≠ .symbol .leftBrace := by
      obtain ⟨l, p⟩ := t
      rintro rfl
      exact h p rest ⟨_, _, view⟩
    rw [if_neg other]
  · rfl

theorem command_of_expr {rest : Cursor} {p : Position}
    (reads : c.Reads ⟨.symbol .expr, p⟩ rest) :
    command depth c = (formula depth rest).map (.expr p) (Nat.le_of_lt reads.shorter) := by
  obtain ⟨_, _, view⟩ := reads.view
  rw [command]
  simp only [view]

/-- A block holds what its text delivers. -/
theorem command_of_leftBrace {rest behind : Cursor} {p : Position} {body : Block}
    {room : 2 * body.text.length ≤ bodyRoom rest.tokens} {within : behind.workload < rest.workload}
    (reads : c.Reads ⟨.symbol .leftBrace, p⟩ rest)
    (read : block depth p rest = .ok ⟨body, room⟩ behind within) :
    command depth c = .ok (.block p body (program (.ofText body.text body.position))) behind
      (Nat.lt_trans within reads.shorter) := by
  obtain ⟨_, _, view⟩ := reads.view
  rw [command]
  simp only [view, read]
  rfl

theorem chain_of_breaks {layer : Layer} (h : c.Breaks d here) :
    chain layer depth c = .fail d here := by
  have product : chain .product depth c = .fail d here := by
    rw [chain, part, operand_of_breaks h]
    rfl
  cases layer with
  | product => exact product
  | sum =>
    rw [chain, part, product]
    rfl

section EndOfStatement

variable {rest : Cursor} {command : Command}

theorem endOfStatement_of_separator (h : c.Reads t rest) (separates : t.lexeme.isSeparator = true) :
    endOfStatement depth command c = .ok () rest (Nat.lt_succ_of_lt h.shorter) := by
  obtain ⟨_, _, view⟩ := h.view
  simp only [endOfStatement, view, separates, if_true]

/-- A closing bracket is left where it is. -/
theorem endOfStatement_of_rightBracket (h : c.Reads t rest) (inside : 0 < depth)
    (closes : t.lexeme = .symbol .rightBracket) :
    endOfStatement depth command c = .ok () c (Nat.lt_succ_self _) := by
  obtain ⟨_, _, view⟩ := h
  rw [endOfStatement, view]
  simp [closes, inside, Lexeme.isSeparator, Symbol.isSeparator]

theorem endOfStatement_of_other (h : c.Reads t rest)
    (other : ¬ (t.lexeme.isSeparator = true ∨ 0 < depth ∧ t.lexeme = .symbol .rightBracket)) :
    endOfStatement depth command c = reject depth (.afterCommand t.lexeme command.name) t c := by
  obtain ⟨_, _, view⟩ := h
  rw [endOfStatement, view]
  simp only [not_or, not_and, Bool.not_eq_true] at other
  have bracket : (depth > 0 && t.lexeme == .symbol .rightBracket) = false := by
    simpa using other.2
  simp only [other.1, bracket, Bool.false_eq_true, if_false]

theorem endOfStatement_of_ends (h : c.Ends t here) :
    endOfStatement depth command c = .ok () here (h.look ▸ c.workload_look_lt) := by
  obtain ⟨_, view⟩ := h.view
  simp only [endOfStatement, view]

theorem endOfStatement_of_breaks (h : c.Breaks d here) :
    endOfStatement depth command c = .fail d here := by
  rw [endOfStatement, (h : c.view = _)]

end EndOfStatement

/-- At the end of a statement there are no more words. -/
theorem arguments_of_concludes (h : c.Concludes depth) :
    arguments depth c = .ok [] c.look c.workload_look_lt := by
  rcases h with ⟨t, rest, reads, ends⟩ | ⟨t, here, ends⟩
  · have concluded : (t.lexeme.isSeparator || (depth > 0 && t.lexeme == .symbol .rightBracket)) =
        true := by
      simpa using ends
    obtain ⟨_, _, view⟩ := reads.view
    rw [arguments, view]
    simp only [concluded, if_true, reads.look]
  · obtain ⟨_, view⟩ := ends.view
    rw [arguments, view]
    simp only [ends.look]

end Grammar

theorem Cursor.not_isSeparator_of_skipped {c rest : Cursor} {t : Token}
    (h : c.skipSeparators.Reads t rest) : t.lexeme.isSeparator = false := by
  fun_induction skipSeparators c with
  | case1 c u behind _ _ view separates ih => exact ih h
  | case2 c u behind _ _ view other =>
    obtain ⟨rfl, rfl⟩ := Reads.unique ⟨_, _, view⟩ h
    simpa using other
  | case3 c other =>
    obtain ⟨_, _, view⟩ := h
    exact absurd view (other _ _ _ _)

theorem Reply.andThen_eq_ok {α β : Type} {n m : Nat} {r : Reply α n}
    {next : α → (rest : Cursor) → rest.workload < n → Reply β m} {b : β} {rest : Cursor}
    {within : rest.workload < m} :
    r.andThen next = .ok b rest within ↔
      ∃ a behind inside, r = .ok a behind inside ∧ next a behind inside = .ok b rest within := by
  cases r with
  | ok a behind inside =>
    constructor
    · intro h
      exact ⟨a, behind, inside, rfl, h⟩
    · rintro ⟨_, _, _, same, h⟩
      cases same
      exact h
  | fail d here => simp [Reply.andThen]

theorem Reply.map_eq_ok {α β : Type} {n m : Nat} {r : Reply α n} {f : α → β} {wide : n ≤ m} {b : β}
    {rest : Cursor} {within : rest.workload < m} :
    r.map f wide = .ok b rest within ↔ ∃ a inside, r = .ok a rest inside ∧ f a = b := by
  cases r with
  | ok a behind inside =>
    simp only [Reply.map, Reply.ok.injEq]
    constructor
    · rintro ⟨same, rfl⟩
      exact ⟨a, inside, ⟨rfl, rfl⟩, same⟩
    · rintro ⟨_, _, ⟨rfl, rfl⟩, same⟩
      exact ⟨same, rfl⟩
  | fail d here => simp [Reply.map]

@[simp] theorem Reply.widen_self {α : Type} {n : Nat} (r : Reply α n) (h : n ≤ n) :
    r.widen h = r := by
  cases r <;> rfl

@[simp] theorem Reply.widen_widen {α : Type} {n m k : Nat} (r : Reply α n) (h : n ≤ m)
    (h' : m ≤ k) : (r.widen h).widen h' = r.widen (Nat.le_trans h h') := by
  cases r <;> rfl

theorem Cursor.skipSeparators_of_separator {c rest : Cursor} {t : Token} (h : c.Reads t rest)
    (separates : t.lexeme.isSeparator = true) : c.skipSeparators = rest.skipSeparators := by
  obtain ⟨_, _, view⟩ := h
  rw [skipSeparators, view]
  simp only [separates, if_true]

theorem Cursor.skipSeparators_of_other {c rest : Cursor} {t : Token} (h : c.Reads t rest)
    (other : t.lexeme.isSeparator = false) : c.skipSeparators = c := by
  obtain ⟨_, _, view⟩ := h
  rw [skipSeparators, view]
  simp [other]

theorem Cursor.skipSeparators_of_not_reads {c : Cursor} (h : ∀ t rest, ¬ c.Reads t rest) :
    c.skipSeparators = c := by
  rw [skipSeparators]
  split
  · next view => exact absurd ⟨_, _, view⟩ (h _ _)
  · rfl

/-- Separators in front of the commands of a substitution do not count. -/
theorem Grammar.substitution_of_skipSeparators (depth : Nat) {c start : Cursor}
    (h : c.skipSeparators = start) (le : start.workload ≤ c.workload) :
    substitution depth c = (substitution depth start).widen le := by
  fun_induction Cursor.skipSeparators c with
  | case1 c t rest _ _ view separates ih =>
    have other : (t.lexeme == .symbol .rightBracket) = false := by
      rcases Lexeme.isSeparator_iff.mp separates with same | same <;> rw [same] <;> rfl
    rw [substitution, view]
    simp only [other, separates, if_true, Bool.false_eq_true, if_false]
    rw [ih h (h ▸ rest.workload_skipSeparators_le), Reply.widen_widen]
  | case2 | case3 =>
    subst h
    rw [Reply.widen_self]

/-! ### Whole scripts -/

/-- A program is a row of statements: an induction need not enter the commands. -/
@[induction_eliminator]
theorem Program.induction {motive : Program → Prop} (finish : ∀ notes, motive (.finish notes))
    (fault : ∀ notes d, motive (.fault notes d))
    (step : ∀ notes command rest, motive rest → motive (.step notes command rest)) :
    (p : Program) → motive p
  | .finish notes => finish notes
  | .fault notes d => fault notes d
  | .step notes command rest => step notes command rest (Program.induction finish fault step rest)

section Commands

variable {notes : List Event} {first second : Command} {rest : Program} {others : List Command}
  {d : Diagnostic}

theorem Program.commands_step_eq_error :
    (step notes first rest).commands = .error d ↔ rest.commands = .error d := by
  rw [Program.commands]
  cases rest.commands <;> simp [bind, Except.bind, pure, Except.pure]

theorem Program.commands_step_eq_ok :
    (step notes first rest).commands = .ok (second :: others) ↔
      first = second ∧ rest.commands = .ok others := by
  rw [Program.commands]
  cases rest.commands <;> simp [bind, Except.bind, pure, Except.pure]

theorem Program.commands_step_ne_nil : (step notes first rest).commands ≠ .ok [] := by
  rw [Program.commands]
  cases rest.commands <;> simp [bind, Except.bind, pure, Except.pure]

end Commands

namespace Grammar

theorem exists_reads_of_command {depth : Nat} {c behind : Cursor} {first : Command}
    {within : behind.workload < c.workload} (h : command depth c = .ok first behind within) :
    ∃ t rest, c.Reads t rest := by
  rcases c.view_cases with reads | ⟨t, here, ends⟩ | ⟨d, here, breaks⟩
  · exact reads
  · rw [command_of_stops (.inr ends)] at h
    exact absurd h not_reject
  · rw [command_of_breaks breaks] at h
    cases h

theorem exists_reads_of_statement {c behind : Cursor} {first : Command}
    {within : behind.workload < c.workload} (h : statement c = .ok first behind within) :
    ∃ t rest, c.Reads t rest := by
  rw [statement] at h
  obtain ⟨_, _, _, read, _⟩ := Reply.andThen_eq_ok.mp h
  exact exists_reads_of_command read

theorem ends_of_commands_nil {c : Cursor} (h : (program c).commands = .ok []) :
    ∃ t here, c.skipSeparators.Ends t here := by
  rw [program] at h
  rcases c.skipSeparators.view_cases with ⟨t, rest, reads⟩ | ends | ⟨d, here, breaks⟩
  · obtain ⟨_, _, view⟩ := reads.view
    rw [view] at h
    cases read : statement c.skipSeparators with
    | ok first rest within =>
      rw [read] at h
      exact absurd h Program.commands_step_ne_nil
    | fail d here =>
      rw [read] at h
      cases h
  · exact ends
  · rw [(breaks : c.skipSeparators.view = _)] at h
    cases h

theorem statement_of_commands_cons {c start : Cursor} {first : Command} {others : List Command}
    (skipped : c.skipSeparators = start) (h : (program c).commands = .ok (first :: others)) :
    ∃ rest within, statement start = .ok first rest within ∧
      (program (rest.withLog [])).commands = .ok others := by
  subst skipped
  rw [program] at h
  rcases c.skipSeparators.view_cases with ⟨t, rest, reads⟩ | ⟨_, _, _, view⟩ | ⟨d, here, breaks⟩
  · obtain ⟨_, _, view⟩ := reads.view
    rw [view] at h
    cases read : statement c.skipSeparators with
    | ok first rest within =>
      rw [read] at h
      obtain ⟨rfl, later⟩ := Program.commands_step_eq_ok.mp h
      exact ⟨rest, within, rfl, later⟩
    | fail d here =>
      rw [read] at h
      cases h
  · rw [view] at h
    cases h
  · rw [(breaks : c.skipSeparators.view = _)] at h
    cases h

theorem commands_of_statement {c start rest behind : Cursor} {t : Token} {first : Command}
    {within : behind.workload < start.workload} (skipped : c.skipSeparators = start)
    (reads : start.Reads t rest) (h : statement start = .ok first behind within)
    {others : List Command} (later : (program (behind.withLog [])).commands = .ok others) :
    (program c).commands = .ok (first :: others) := by
  subst skipped
  obtain ⟨_, _, view⟩ := reads
  rw [program, view]
  simp only [h]
  exact Program.commands_step_eq_ok.mpr ⟨rfl, later⟩

theorem commands_of_ends {c start here : Cursor} {t : Token} (skipped : c.skipSeparators = start)
    (h : start.Ends t here) : (program c).commands = .ok [] := by
  subst skipped
  obtain ⟨_, view⟩ := h
  rw [program, view]
  rfl

end Grammar

namespace Reader

variable {r : Reader} {commands : List Command} {d : Diagnostic}

theorem commands_eq_ok : r.commands = .ok commands ↔ r.program.commands = .ok commands := by
  unfold Reader.commands
  cases r.program.commands with
  | ok all => exact Iff.rfl
  | error e =>
    constructor
    · intro h
      cases h
    · intro h
      cases h

theorem commands_eq_error :
    r.commands = .error d ↔ ∃ e, r.program.commands = .error e ∧ inScript r.filename e = d := by
  unfold Reader.commands
  cases r.program.commands with
  | ok all =>
    constructor
    · intro h
      cases h
    · rintro ⟨_, h, _⟩
      cases h
  | error e =>
    constructor
    · intro h
      cases h
      exact ⟨e, rfl, rfl⟩
    · rintro ⟨_, h, rfl⟩
      cases h
      rfl

/-- The script that a fault is found in changes nothing but the name in it. -/
theorem exists_inScript_eq (filename : Option Text) (d : Diagnostic) :
    ∃ name, inScript filename d = { d with filename := name } := by
  unfold inScript Diagnostic.inFile
  split
  · exact ⟨filename, rfl⟩
  · split
    · exact ⟨_, rfl⟩
    · exact ⟨_, rfl⟩
    · exact ⟨d.filename, rfl⟩

end Reader

end TinyTcl
