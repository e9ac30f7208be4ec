import TinyTcl.Program.Reader
import TinyTcl.Proofs.Program.Delivery
import TinyTcl.Proofs.Token.Cut

/-! Lexical faults in an open substitution come first. A reader that refuses a token inside brackets
first leaves them all, and reports a lexical fault that it meets on the way. So a grammar fault is
reported only if the text goes on without a lexical fault until all brackets around the refused token
are closed (`keepsOrder_of_commands`). A braced expression is a text of its own in this: brackets
around its braces do not count, and nothing behind the braces is looked at before a fault between
them is reported (`error_of_braced_fault`). -/
namespace TinyTcl

/-- The tokens lead out of all brackets around them. -/
inductive LeadsOut : List Delimiter → List Token → Prop where
  | last {around : List Delimiter} {t : Token} {rest : List Token} : .bracket ∈ around →
      t.lexeme = .symbol .rightBracket → .bracket ∉ t.lexeme.enclose around →
      LeadsOut around (t :: rest)
  | further {around : List Delimiter} {t : Token} {rest : List Token} : .bracket ∈ around →
      LeadsOut (t.lexeme.enclose around) rest → LeadsOut around (t :: rest)

/-- Whether a diagnostic is about the token at a place. -/
def Diagnostic.StandsAt (d : Diagnostic) (p : Position) : Prop :=
  d.line = some p.line ∧ d.column = some p.column

/-- The texts that are read as parts of a text: all of it, and the body of a block in one of them. -/
inductive TokenStream.Holds : TokenStream → TokenStream → Prop where
  | self {s : TokenStream} : Holds s s
  | block {s inner : TokenStream} {before after : List Token} {brace : Token} {body : Text}
      {p : Position} (tokens : s.tokens = before ++ brace :: ⟨.name body, p⟩ :: after)
      (opens : brace.lexeme = .symbol .leftBrace) (inside : Holds (ofText body p) inner) :
      Holds s inner

/-- A fault that a text may be refused with: its lexical fault, or a grammar fault at one of its
tokens. Where brackets of the text are open at the token, the text goes on without a lexical fault
until they are closed. -/
inductive Diagnostic.FaultOf (d : Diagnostic) (s : TokenStream) : Prop where
  | lexical (fault : s.fault = some d)
  | grammar {f : GrammarFault} {before after : List Token} {t : Token} (cause : d.cause = .grammar f)
      (place : d.StandsAt t.position) (tokens : s.tokens = before ++ t :: after)
      (waits : .bracket ∈ enclosing [] (lexemes before) →
        LeadsOut (enclosing [] (lexemes before)) (t :: after))

/-- A fault of a text, or of a part that is read as a text of its own. -/
def Diagnostic.KeepsOrder (d : Diagnostic) (s : TokenStream) : Prop :=
  ∃ inner, s.Holds inner ∧ d.FaultOf inner

theorem LeadsOut.inside {around : List Delimiter} {tokens : List Token}
    (h : LeadsOut around tokens) : .bracket ∈ around := by
  cases h with
  | last inside _ _ => exact inside
  | further inside _ => exact inside

/-- Line ends lead nowhere. -/
theorem LeadsOut.of_filter {keep : Token → Bool} {around : List Delimiter} {tokens : List Token}
    (rest : ∀ t, keep t = false → t.lexeme = .symbol .endOfLine)
    (h : LeadsOut around (tokens.filter keep)) : LeadsOut around tokens := by
  induction tokens generalizing around with
  | nil => nomatch h
  | cons t others ih =>
    cases kept : keep t with
    | true =>
      rw [List.filter_cons_of_pos kept] at h
      cases h with
      | last inside closes out => exact .last inside closes out
      | further inside later => exact .further inside (ih later)
    | false =>
      rw [List.filter_cons_of_neg (by simp [kept])] at h
      apply LeadsOut.further h.inside
      rw [rest t kept]
      exact ih h

/-- Without the ends of lines nothing is refused that would not be refused with them. -/
theorem Diagnostic.FaultOf.of_joinLines {d : Diagnostic} {s : TokenStream}
    (h : d.FaultOf s.joinLines) : d.FaultOf s := by
  cases h with
  | lexical fault => exact .lexical fault
  | grammar cause place tokens waits =>
    obtain ⟨front, others, whole, around, behind⟩ := TokenStream.split_joinLines tokens
    apply Diagnostic.FaultOf.grammar cause place whole
    rw [around]
    intro inside
    exact LeadsOut.of_filter (by simp) (behind ▸ waits inside)

private theorem Diagnostic.KeepsOrder.of_joinLines {d : Diagnostic} {s : TokenStream} (cut : s.Cut)
    (h : d.KeepsOrder s.joinLines) : d.KeepsOrder s := by
  obtain ⟨inner, holds, fault⟩ := h
  cases holds with
  | self => exact ⟨s, .self, fault.of_joinLines⟩
  | block tokens opens inside =>
    obtain ⟨_, _, _, whole, _⟩ := cut.block_of_joinLines tokens opens
    exact ⟨inner, .block whole opens inside, fault⟩

private theorem Diagnostic.KeepsOrder.of_block {d : Diagnostic} {s : TokenStream}
    {before after : List Token} {brace : Token} {body : Text} {p : Position}
    (tokens : s.tokens = before ++ brace :: ⟨.name body, p⟩ :: after)
    (opens : brace.lexeme = .symbol .leftBrace) (h : d.KeepsOrder (TokenStream.ofText body p)) :
    d.KeepsOrder s := by
  obtain ⟨inner, holds, fault⟩ := h
  exact ⟨inner, .block tokens opens holds, fault⟩

private theorem count_enclose {around : List Delimiter} {l : Lexeme}
    (opens : l ≠ .symbol .leftBracket) (closes : l ≠ .symbol .rightBracket)
    (quote : l = .symbol .rightQuote → around.head? = some .quote) :
    (l.enclose around).count .bracket = around.count .bracket := by
  unfold Lexeme.enclose
  split
  · exact absurd rfl opens
  · exact List.count_cons_of_ne (by decide)
  · exact absurd rfl closes
  · cases around with
    | nil => rfl
    | cons first outer =>
      obtain rfl : first = .quote := by simpa using quote rfl
      exact (List.count_cons_of_ne (by decide)).symm
  · rfl

/-- A fault that is met on leaving brackets is the one behind the tokens. -/
theorem Cursor.fault_of_leave {c : Cursor} {depth : Nat} {d : Diagnostic}
    (h : (c.leave depth).1 = some d) : c.fault = some d := by
  induction work : c.workload using Nat.strongRecOn generalizing c depth with
  | ind size ih =>
    cases depth with
    | zero => simp at h
    | succ depth =>
      rcases c.view_cases with ⟨t, rest, reads⟩ | ⟨t, here, ends⟩ | ⟨e, here, breaks⟩
      · have less : rest.workload < size := work ▸ reads.shorter
        have same : rest.fault = c.fault := by rw [(reads_iff.mp reads).2.2]; rfl
        rw [← same]
        by_cases opens : t.lexeme = .symbol .leftBracket
        · exact ih _ less (leave_of_leftBracket reads opens ▸ h) rfl
        · by_cases closes : t.lexeme = .symbol .rightBracket
          · exact ih _ less (leave_of_rightBracket reads closes ▸ h) rfl
          · exact ih _ less (leave_of_other reads opens closes ▸ h) rfl
      · rw [leave_of_ends ends] at h
        cases h
      · rw [leave_of_breaks breaks] at h
        cases h
        exact (breaks_iff.mp breaks).2.1

/-- Brackets are left without a fault only on tokens that lead out of them. -/
theorem Cursor.leadsOut_of_leave {c : Cursor} {depth : Nat} {around : List Delimiter}
    (h : (c.leave (depth + 1)).1 = none) (count : around.count .bracket = depth + 1)
    (matched : Matched around (lexemes c.tokens))
    (ends : c.fault = none → ∃ t ∈ c.tokens, t.lexeme = .symbol .endOfFile)
    (closes : ∀ before t after, c.tokens = before ++ t :: after → t.lexeme = .symbol .endOfFile →
      enclosing around (lexemes before) = []) : LeadsOut around c.tokens := by
  induction work : c.workload using Nat.strongRecOn generalizing c depth around with
  | ind size ih =>
    have inside : .bracket ∈ around := List.count_pos_iff.mp (by omega)
    rcases c.view_cases with ⟨t, rest, reads⟩ | ⟨t, here, ended⟩ | ⟨d, here, breaks⟩
    · obtain ⟨tokens, notEnd, same⟩ := reads_iff.mp reads
      rw [tokens] at matched ends closes ⊢
      have fault : rest.fault = c.fault := by rw [same]; rfl
      have further {depth : Nat} (left : (rest.leave (depth + 1)).1 = none)
          (count : (t.lexeme.enclose around).count .bracket = depth + 1) :
          LeadsOut around (t :: rest.tokens) := by
        refine .further inside (ih _ (work ▸ reads.shorter) left count matched.2.2 ?_ ?_ rfl)
        · intro sound
          obtain ⟨u, found, last⟩ := ends (fault ▸ sound)
          rcases List.mem_cons.mp found with rfl | found
          · exact absurd last notEnd
          · exact ⟨u, found, last⟩
        · intro before u after tokens last
          exact closes (t :: before) u after (by rw [tokens]; rfl) last
      by_cases opens : t.lexeme = .symbol .leftBracket
      · rw [leave_of_leftBracket reads opens] at h
        apply further h
        rw [opens]
        exact List.count_cons_self.trans (by rw [count])
      · by_cases shuts : t.lexeme = .symbol .rightBracket
        · rw [leave_of_rightBracket reads shuts] at h
          obtain ⟨outer, rfl⟩ : ∃ outer, around = .bracket :: outer := by
            cases around with
            | nil => cases inside
            | cons first outer =>
              cases first with
              | bracket => exact ⟨outer, rfl⟩
              | quote => exact absurd rfl (matched.1 shuts)
          have left : (t.lexeme.enclose (.bracket :: outer)).count .bracket = depth := by
            rw [shuts]
            change outer.count .bracket = depth
            simpa using count
          cases depth with
          | zero => exact .last inside shuts (List.count_eq_zero.mp left)
          | succ depth => exact further h left
        · rw [leave_of_other reads opens shuts] at h
          exact further h ((count_enclose opens shuts matched.2.1).trans count)
    · rcases ends_iff.mp ended with ⟨⟨rest, tokens⟩, last, _⟩ | ⟨tokens, sound, _, _⟩
      · have none := closes [] t rest tokens last
        simp only [lexemes_nil, enclosing_nil] at none
        rw [none] at inside
        cases inside
      · obtain ⟨_, found, _⟩ := ends sound
        rw [tokens] at found
        cases found
    · rw [leave_of_breaks breaks] at h
      cases h

/-- A cursor that has read the tokens of a stream up to a spot. -/
structure Tracks (stream : TokenStream) (s : Spot) (c : Cursor) : Prop where
  tokens : ∃ before, stream.tokens = before ++ c.tokens ∧
    enclosing [] (lexemes before) = s.around ∧ ∀ t ∈ before, t.lexeme ≠ .symbol .endOfFile
  fault : c.fault = stream.fault

namespace Tracks

variable {stream : TokenStream} {s : Spot} {c rest here : Cursor} {t : Token}

theorem start (stream : TokenStream) (braced : Bool) {c : Cursor} (tokens : c.tokens = stream.tokens)
    (fault : c.fault = stream.fault) : Tracks stream (.start braced) c :=
  ⟨⟨[], by rw [tokens]; rfl, rfl, by simp⟩, fault⟩

private theorem withLog (h : Tracks stream s c) (log : List Event) :
    Tracks stream s (c.withLog log) :=
  ⟨h.tokens, h.fault⟩

private theorem reads (h : Tracks stream s c) (k : c.Reads t rest) :
    Tracks stream (s.behind t.lexeme) rest := by
  obtain ⟨⟨before, whole, around, sound⟩, fault⟩ := h
  obtain ⟨tokens, notEnd, same⟩ := Cursor.reads_iff.mp k
  refine ⟨⟨before ++ [t], ?_, ?_, ?_⟩, ?_⟩
  · rw [whole, tokens]
    simp
  · simp [around, Spot.behind]
  · intro u inside
    rcases List.mem_append.mp inside with inside | inside
    · exact sound u inside
    · rwa [List.mem_singleton.mp inside]
  · rw [same]
    exact fault

private theorem ends (h : Tracks stream s c) (k : c.Ends t here) : Tracks stream s here := by
  rcases Cursor.ends_iff.mp k with ⟨_, _, rfl⟩ | ⟨_, _, _, rfl⟩
  · exact ⟨h.tokens, h.fault⟩
  · exact h

private theorem shows (h : Tracks stream s c) (k : c.Shows t here) : Tracks stream s here := by
  rcases k with ⟨_, rfl⟩ | ends
  · exact h
  · exact h.ends ends

/-- The end is still to be read. -/
theorem ahead (h : Tracks stream s c) (cut : stream.Cut) (sound : c.fault = none) :
    ∃ t ∈ c.tokens, t.lexeme = .symbol .endOfFile := by
  obtain ⟨before, whole, _, notEnd⟩ := h.tokens
  obtain ⟨t, inside, last⟩ := cut.ends (h.fault ▸ sound)
  rw [whole] at inside
  rcases List.mem_append.mp inside with inside | inside
  · exact absurd last (notEnd t inside)
  · exact ⟨t, inside, last⟩

/-- A token that can be refused is a token of the stream. -/
theorem tokens_of_shows (h : Tracks stream s c) (cut : stream.Cut) (k : c.Shows t here) :
    ∃ after, here.tokens = t :: after := by
  rcases k with ⟨⟨rest, reads⟩, rfl⟩ | ends
  · exact ⟨_, (Cursor.reads_iff.mp reads).1⟩
  · rcases Cursor.ends_iff.mp ends with ⟨⟨rest, tokens⟩, _, rfl⟩ | ⟨tokens, sound, _, _⟩
    · exact ⟨rest, tokens⟩
    · obtain ⟨u, inside, _⟩ := h.ahead cut sound
      rw [tokens] at inside
      cases inside

/-- A token is refused with the lexical fault of the text, or where the rule on brackets has been
kept. -/
theorem refusal (h : Tracks stream s c) (cut : stream.Cut) (k : c.Shows t here) (f : GrammarFault) :
    (TinyTcl.refusal s.brackets f t here).1.FaultOf stream := by
  obtain ⟨after, tokens⟩ := h.tokens_of_shows cut k
  obtain ⟨⟨before, whole, around, _⟩, fault⟩ := h.shows k
  rcases left : here.leave s.brackets with ⟨_ | d, behind⟩
  · have whole' : stream.tokens = before ++ t :: after := tokens ▸ whole
    have reported : (TinyTcl.refusal s.brackets f t here).1 =
        .ofCause (.grammar f) t.position := by
      simp only [TinyTcl.refusal, left]
    rw [reported]
    refine .grammar rfl ⟨rfl, rfl⟩ whole' fun inside => ?_
    rw [around] at inside ⊢
    obtain ⟨depth, count⟩ := Nat.exists_eq_succ_of_ne_zero
      (Nat.pos_iff_ne_zero.mp (List.count_pos_iff.mpr inside))
    have matched := cut.matched
    rw [whole, lexemes_append, matched_append, around] at matched
    rw [← tokens]
    have known : s.brackets = depth + 1 := count
    have silent : (here.leave (depth + 1)).1 = none := known ▸ congrArg Prod.fst left
    apply Cursor.leadsOut_of_leave silent count matched.2 ((h.shows k).ahead cut)
    intro front u others later last
    have split : stream.tokens = (before ++ front) ++ u :: others := by
      rw [whole, later, List.append_assoc]
    have closed := cut.closes split last
    rwa [lexemes_append, enclosing_append, around] at closed
  · have reported : (TinyTcl.refusal s.brackets f t here).1 = d := by
      simp only [TinyTcl.refusal, left]
    rw [reported]
    exact .lexical (fault ▸ Cursor.fault_of_leave (congrArg Prod.fst left))

end Tracks

/-- A cursor in a stream, or in a block of it. -/
def Within (source : TokenStream) (s : Spot) (c : Cursor) : Prop :=
  ∃ stream, stream.Cut ∧ (∀ d : Diagnostic, d.KeepsOrder stream → d.KeepsOrder source) ∧
    Tracks stream s c

/-- The readers keep track of a stream, and of the blocks in it, and fail as the rule says. -/
theorem synchronous_within (source : TokenStream) :
    Synchronous Eq (fun s c c' => c' = c ∧ Within source s c) False
      (fun d d' => d' = d ∧ d.KeepsOrder source) (fun _ _ => True) where
  column := by
    rintro p _ rfl
    rfl
  reads := by
    rintro s c _ rest t ⟨rfl, stream, cut, found, tracks⟩ reads
    exact ⟨t, rest, reads, ⟨rfl, rfl⟩, rfl, stream, cut, found, tracks.reads reads⟩
  ends := by
    rintro s c _ here t ⟨rfl, stream, cut, found, tracks⟩ ends
    exact ⟨t, here, ends, rfl, stream, cut, found, tracks.ends ends⟩
  broken := by
    rintro s c _ here d ⟨rfl, stream, cut, found, tracks⟩ breaks
    have fault := (Cursor.breaks_iff.mp breaks).2.1
    have order : d.KeepsOrder source := found d ⟨stream, .self, .lexical (tracks.fault ▸ fault)⟩
    exact ⟨d, here, breaks, .inr ⟨⟨rfl, order⟩, trivial⟩⟩
  refuse := by
    rintro s c _ here here' t t' f ⟨rfl, stream, cut, found, tracks⟩ shows shows' same
    obtain ⟨rfl, rfl⟩ := shows.unique shows'
    have order := found _ ⟨stream, .self, tracks.refusal cut shows f⟩
    rw [same]
    exact .inr ⟨⟨rfl, order⟩, trivial⟩
  braces := by
    rintro s c _ rest rest' behind behind' t t' body body' _ _ ⟨rfl, stream, cut, found, tracks⟩
      reads opens reads' read read' same ⟨rfl, _⟩
    obtain ⟨before, whole, _⟩ := tracks.tokens
    rw [(Cursor.reads_iff.mp reads).1] at whole
    have name : ∃ others, rest.tokens = ⟨.name body.val.text, body.val.position⟩ :: others := by
      rcases Grammar.tokens_of_block read with name | ⟨q, others, tokens⟩
      · exact name
      · rw [tokens] at whole
        obtain ⟨text, wrong⟩ := cut.bodies whole opens
        cases wrong
    obtain ⟨others, tokens⟩ := name
    rw [tokens] at whole
    have inner := cut_ofText body.val.text body.val.position
    refine ⟨by rw [same.eq], _, inner.joinLines,
      fun d order => found d (.of_block whole opens (order.of_joinLines inner)), ?_⟩
    exact .start _ true rfl rfl
  surplus := by
    rintro s c _ inner _ t t' rest rest' _ ⟨rfl, stream, cut, found, tracks⟩ reads _ alike
    obtain rfl := alike.eq
    obtain ⟨before, tokens, around, _⟩ := tracks.tokens
    have whole : stream.tokens = before ++ t :: rest.tokens :=
      (Cursor.reads_iff.mp reads).1 ▸ tokens
    have fault : (Diagnostic.ofCause (.grammar (.afterExpression t.lexeme)) t.position).FaultOf
        stream := by
      refine .grammar rfl ⟨rfl, rfl⟩ whole fun inside => ?_
      rw [around] at inside
      cases inside
    exact .inr ⟨⟨rfl, found _ ⟨stream, .self, fault⟩⟩, trivial⟩
  withLog := by
    rintro s c _ inner _ ⟨rfl, stream, cut, found, tracks⟩ ⟨rfl, _⟩
    exact ⟨rfl, stream, cut, found, tracks.withLog _⟩
  after _ _ := trivial

/-- A program is read up to its end or to a fault that keeps the order. -/
theorem keepsOrder_of_program {source : TokenStream} {c : Cursor} {d : Diagnostic}
    (h : Within source (.start false) c) (fails : (Grammar.program c).commands = .error d) :
    d.KeepsOrder source := by
  induction work : c.workload using Nat.strongRecOn generalizing c with
  | ind size ih =>
    have laws := synchronous_within source
    obtain ⟨_, skipped⟩ := laws.skipSeparators (s := .start false) ⟨rfl, h⟩
    rw [Grammar.program] at fails
    rcases c.skipSeparators.view_cases with ⟨t, rest, reads⟩ | ⟨t, here, ends⟩ | ⟨d, here, breaks⟩
    · obtain ⟨_, _, view⟩ := reads.view
      have agree := laws.lawful.statement (s := .start false) ⟨rfl, skipped⟩ trivial rfl rfl
      rw [view] at fails
      cases read : Grammar.statement c.skipSeparators with
      | ok command behind within =>
        rw [read] at agree fails
        obtain ⟨_, b, _, e, _, ⟨_, stream, cut, found, tracks⟩, rfl, _⟩ := agree
        have less : ((b.note e).withLog []).workload < size :=
          work ▸ Nat.lt_of_lt_of_le within c.workload_skipSeparators_le
        refine ih _ less ⟨stream, cut, found, tracks.withLog []⟩ ?_ rfl
        exact Program.commands_step_eq_error.mp fails
      | fail d here =>
        rw [read] at agree fails
        obtain ⟨_, _, same, ⟨_, order⟩, _⟩ := agree.resolve_left id
        cases fails
        exact order
    · obtain ⟨_, view⟩ := ends.view
      rw [view] at fails
      cases fails
    · rw [(breaks : c.skipSeparators.view = _)] at fails
      obtain ⟨d', _, _, same⟩ := laws.broken (s := .start false) ⟨rfl, skipped⟩ breaks
      obtain ⟨⟨_, order⟩, _⟩ := same.resolve_left id
      cases fails
      exact order

theorem TokenStream.Holds.cut {s inner : TokenStream} (h : s.Holds inner) (cut : s.Cut) :
    inner.Cut := by
  induction h with
  | self => exact cut
  | block _ _ _ ih => exact ih (cut_ofText _ _)

/-- What is read as a part of a text stands in it. -/
theorem TokenStream.Holds.position {start : Position} {text : Text} {inner : TokenStream}
    {before after : List Token} {t : Token} (h : (TokenStream.ofText text start).Holds inner)
    (tokens : inner.tokens = before ++ t :: after) :
    ∃ u v, text = u ++ v ∧ t.position = start.after u := by
  generalize whole : TokenStream.ofText text start = s at h
  induction h generalizing text start with
  | self => exact position_of_mem (mem_of_eq_append (whole ▸ tokens))
  | block braces opens _ ih =>
    obtain ⟨front, others, pieces, rfl⟩ := block_ofText (whole ▸ braces) opens
    obtain ⟨u, v, rfl, place⟩ := ih tokens rfl
    obtain ⟨missed, whole⟩ := sources_ofText_append text
    refine ⟨Piece.sources front ++ ['{'] ++ u, v ++ '}' :: Piece.sources others ++ missed, ?_, ?_⟩
    · rw [← whole, pieces]
      simp
    · rw [place, ← Position.after_append]

private theorem Diagnostic.StandsAt.unique {d : Diagnostic} {p q : Position} (h : d.StandsAt p)
    (k : d.StandsAt q) : p = q := by
  obtain ⟨line, column⟩ := p
  obtain ⟨line', column'⟩ := q
  cases h.1.symm.trans k.1
  cases h.2.symm.trans k.2
  rfl

/-- Where brackets are open at a token that is refused, the text leads out of them. -/
theorem Diagnostic.KeepsOrder.leadsOut {d : Diagnostic} {start : Position} {text : Text}
    (h : d.KeepsOrder (TokenStream.ofText text start)) {f : GrammarFault}
    (cause : d.cause = .grammar f) {before after : List Token} {t : Token}
    (tokens : (TokenStream.ofText text start).tokens = before ++ t :: after)
    (place : d.StandsAt t.position) (outside : ¬ InBlock before)
    (inside : .bracket ∈ enclosing [] (lexemes before)) :
    LeadsOut (enclosing [] (lexemes before)) (t :: after) := by
  obtain ⟨inner, holds, fault⟩ := h
  cases fault with
  | lexical fault =>
    obtain ⟨f', lexical⟩ := (holds.cut (cut_ofText text start)).lexical fault
    cases lexical.symm.trans cause
  | @grammar _ before' after' t' _ place' tokens' waits =>
    have same : t.position = t'.position := place.unique place'
    have other : t.lexeme ≠ .symbol .endOfFile := by
      intro last
      rw [(cut_ofText text start).closes tokens last] at inside
      cases inside
    cases holds with
    | self =>
      obtain rfl := before_eq_of_position_eq tokens tokens' same outside other
      cases List.append_cancel_left (tokens.symm.trans tokens')
      exact waits inside
    | @block _ _ _ _ brace body q braces opens holds =>
      obtain ⟨u, v, rfl, there⟩ := holds.position tokens'
      obtain ⟨front, others, pieces, rfl⟩ := block_ofText braces opens
      obtain ⟨ahead, s', rest, pieces', rfl, here⟩ :=
        (split_ofText tokens).resolve_right fun last => other last.1
      have outside : ¬ Piece.InBlock ahead := fun inside => outside (inside.tokensFrom start)
      have apart : Piece.sources ahead = Piece.sources front ++ ['{'] ++ u := by
        have whole : Piece.sources ahead ++ (s' ++ Piece.sources rest) =
            Piece.sources front ++ ['{'] ++ u ++ (v ++ '}' :: Piece.sources others) := by
          simpa using congrArg Piece.sources (pieces'.symm.trans pieces)
        exact Position.eq_of_after_eq whole (by rw [← here, same, there, ← Position.after_append])
      exact (outside (Piece.inBlock_of_sources_eq pieces pieces' apart)).elim

/-- Parsing fails with the lexical fault of the text or of a block in it, or with a grammar fault
that keeps the order. If brackets are open at a token of the text that is refused, and the token is
in no block, the text goes on without a lexical fault until they are closed. -/
theorem keepsOrder_of_commands {source : Text} {filename : Option Text} {start : Position}
    {d : Diagnostic} (fails : (Reader.ofText source filename start).commands = .error d) :
    (∃ e, d = Reader.inScript filename e ∧ e.KeepsOrder (TokenStream.ofText source start)) ∧
    ∀ {f : GrammarFault} {before after : List Token} {t : Token}, d.cause = .grammar f →
      (TokenStream.ofText source start).tokens = before ++ t :: after → d.StandsAt t.position →
      ¬ InBlock before → .bracket ∈ enclosing [] (lexemes before) →
      LeadsOut (enclosing [] (lexemes before)) (t :: after) := by
  obtain ⟨e, read, rfl⟩ := Reader.commands_eq_error.mp fails
  have order : e.KeepsOrder (TokenStream.ofText source start) := by
    refine keepsOrder_of_program ⟨_, cut_ofText source start, fun _ => id, ?_⟩ read
    exact .start _ false rfl rfl
  refine ⟨⟨e, rfl, order⟩, fun cause tokens place => ?_⟩
  obtain ⟨name, same⟩ := Reader.exists_inScript_eq filename e
  have cause' : e.cause = .grammar _ := congrArg Diagnostic.cause same ▸ cause
  have place' : e.StandsAt _ :=
    ⟨congrArg Diagnostic.line same ▸ place.1, congrArg Diagnostic.column same ▸ place.2⟩
  exact order.leadsOut cause' tokens place'

/-- A closing parenthesis stands in brackets where an operand is due. -/
theorem keepsOrder_of_commands_operand :
    ∃ d before after, (Reader.ofText "puts [expr 1 + ) 2]".toList none .start).commands = .error d ∧
      d.cause = .grammar (.noOperand (.symbol .rightParen)) ∧
      (TokenStream.ofText "puts [expr 1 + ) 2]".toList .start).tokens =
        before ++ .ofSymbol .rightParen ⟨1, 16⟩ :: after ∧
      LeadsOut [.bracket] (.ofSymbol .rightParen ⟨1, 16⟩ :: after) := by
  have known : (match (Reader.ofText "puts [expr 1 + ) 2]".toList none .start).commands with
      | .ok _ => none
      | .error d => some d) =
      some (.ofCause (.grammar (.noOperand (.symbol .rightParen))) ⟨1, 16⟩) := by
    decide +kernel
  split at known
  · cases known
  · next d fails =>
    cases known
    have tokens : (TokenStream.ofText "puts [expr 1 + ) 2]".toList .start).tokens =
        [.ofSymbol .puts ⟨1, 1⟩, .ofSymbol .leftBracket ⟨1, 6⟩, .ofSymbol .expr ⟨1, 7⟩,
          ⟨.number ['1'], ⟨1, 12⟩⟩, .ofSymbol .plus ⟨1, 14⟩] ++ .ofSymbol .rightParen ⟨1, 16⟩ ::
        [⟨.number ['2'], ⟨1, 18⟩⟩, .ofSymbol .rightBracket ⟨1, 19⟩,
          .ofSymbol .endOfFile ⟨1, 20⟩] := by
      decide +kernel
    have outside : ¬ InBlock [.ofSymbol .puts ⟨1, 1⟩, .ofSymbol .leftBracket ⟨1, 6⟩,
        .ofSymbol .expr ⟨1, 7⟩, ⟨.number ['1'], ⟨1, 12⟩⟩, .ofSymbol .plus ⟨1, 14⟩] := by
      rintro (⟨front, same⟩ | ⟨front, body, same⟩)
      · simpa [Token.ofSymbol] using congrArg List.getLast? same
      · simpa [Token.ofSymbol] using congrArg List.getLast? same
    exact ⟨_, _, _, fails, rfl, tokens, (keepsOrder_of_commands fails).2 rfl tokens ⟨rfl, rfl⟩
      outside (by decide)⟩

namespace Grammar

/-- A fault between the braces of an expression is reported at once, whatever is open around them
and whatever stands behind them. -/
theorem formula_of_braced_fault {c rest ahead beyond here : Cursor} {p q r : Position} {body : Text}
    {d : Diagnostic} (depth : Nat) (brace : c.Reads ⟨.symbol .leftBrace, p⟩ rest)
    (name : rest.Reads ⟨.name body, q⟩ ahead)
    (closes : ahead.Reads ⟨.symbol .rightBrace, r⟩ beyond)
    (fails : chain .sum 0 (Cursor.ofExpression ⟨body, q⟩) = .fail d here) :
    ∃ there, formula depth c = .fail d there := by
  obtain ⟨room, within, blocked⟩ := block_of_name depth p name closes
  have same : (Cursor.ofExpression ⟨body, q⟩).Abreast
      ((Cursor.ofExpression ⟨body, q⟩).withLog beyond.log) :=
    (Cursor.Abreast.refl (Cursor.ofExpression ⟨body, q⟩)).withLog [] _
  have agree : abreast.Agree (Expr.Alike Eq) Cursor.Abreast (chain .sum 0 (.ofExpression ⟨body, q⟩))
      (chain .sum 0 ((Cursor.ofExpression ⟨body, q⟩).withLog beyond.log)) :=
    lawful_abreast.chain .sum (s := .start true) same
  rw [formula_of_brace brace, blocked]
  simp only [Reply.andThen]
  rw [fails] at agree
  revert agree
  cases chain .sum 0 ((Cursor.ofExpression ⟨body, q⟩).withLog beyond.log) with
  | ok e behind _ =>
    rintro (⟨⟨⟩⟩ | ⟨_, _, ⟨⟩, _⟩)
  | fail d' there =>
    rintro (⟨⟨⟩⟩ | ⟨_, _, ⟨⟩, rfl, _⟩)
    exact ⟨_, rfl⟩

private theorem error_of_statement {c start rest here : Cursor} {t : Token} {d : Diagnostic}
    (skipped : c.skipSeparators = start) (reads : start.Reads t rest)
    (h : statement start = .fail d here) : (program c).commands = .error d := by
  subst skipped
  obtain ⟨_, _, view⟩ := reads
  rw [program, view]
  simp only [h]
  rfl

end Grammar

/-- So brackets around a braced expression do not put off a fault in it: the fault is reported
whatever comes behind the braces, a lexical fault too. -/
theorem error_of_braced_fault {source body : Text} {filename : Option Text}
    {start p₁ p₂ p₃ p₄ p₅ q : Position} {behind : List Token} {d : Diagnostic} {here : Cursor}
    (tokens : (TokenStream.ofText source start).tokens =
      .ofSymbol .puts p₁ :: .ofSymbol .leftBracket p₂ :: .ofSymbol .expr p₃ ::
        .ofSymbol .leftBrace p₄ :: ⟨.name body, q⟩ :: .ofSymbol .rightBrace p₅ :: behind)
    (fails : Grammar.chain .sum 0 (Cursor.ofExpression ⟨body, q⟩) = .fail d here) :
    (Reader.ofText source filename start).commands = .error (Reader.inScript filename d) := by
  obtain ⟨c₁, puts, tokens, _⟩ := Cursor.exists_reads_of_tokens (c := .ofText source start) tokens
    (by simp [Token.ofSymbol])
  obtain ⟨c₂, bracket, tokens, _⟩ := Cursor.exists_reads_of_tokens tokens (by simp [Token.ofSymbol])
  obtain ⟨_, expr, tokens, _⟩ := Cursor.exists_reads_of_tokens tokens (by simp [Token.ofSymbol])
  obtain ⟨_, brace, tokens, _⟩ := Cursor.exists_reads_of_tokens tokens (by simp [Token.ofSymbol])
  obtain ⟨_, name, tokens, _⟩ := Cursor.exists_reads_of_tokens tokens (by simp)
  obtain ⟨_, closes, _⟩ := Cursor.exists_reads_of_tokens tokens (by simp [Token.ofSymbol])
  obtain ⟨there, formula⟩ := Grammar.formula_of_braced_fault 1 brace name closes fails
  have substitution : Grammar.substitution 1 c₂ = .fail d there := by
    obtain ⟨_, _, view⟩ := expr.view
    rw [Grammar.substitution, view, Grammar.command_of_expr expr, formula]
    rfl
  have word : Grammar.word 0 .printed c₁ = .fail d there := by
    obtain ⟨_, _, view⟩ := bracket.view
    rw [Grammar.word, view]
    simp only [Token.ofSymbol, substitution]
    rfl
  have statement : Grammar.statement (Cursor.ofText source start) = .fail d there := by
    obtain ⟨_, _, view⟩ := puts.view
    rw [Grammar.statement, Grammar.command, view]
    simp only [Token.ofSymbol, word]
    rfl
  have skipped := Cursor.skipSeparators_of_other puts rfl
  exact Reader.commands_eq_error.mpr
    ⟨d, Grammar.error_of_statement skipped puts statement, rfl⟩

example : (match (Reader.ofText "puts [expr \x7b1 +\x7d @]".toList none .start).commands with
    | .ok _ => none
    | .error d => some d.cause) = some (.grammar (.noOperand (.symbol .endOfFile))) := by
  decide +kernel

end TinyTcl
