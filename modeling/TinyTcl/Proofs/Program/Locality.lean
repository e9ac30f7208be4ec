import TinyTcl.Proofs.Program.Level

/-! A reader sees no further than one token behind what it reads. Two cursors share tokens
(`Cursor.Shares`) if the same lexemes stand at both of them, each time in front of a tail. What a
reader reads at the first cursor without getting to the tail, it reads at the second one as well,
but for the places (`Reply.Extends`), whatever the tails are.

A string, a substitution and a word in braces end with a token of their own and may go up to the
tail. A sum, a product and a row of words end where something else begins: these readers look at one
more token, which must not belong to the tail. -/
namespace TinyTcl

namespace Cursor

/-- The same lexemes stand at both cursors, and a tail behind them. -/
def Shares (tail tail' : List Token) (c c' : Cursor) : Prop :=
  ∃ ts ts', c.tokens = ts ++ tail ∧ c'.tokens = ts' ++ tail' ∧ lexemes ts' = lexemes ts

/-- What stands at two cursors before their tails. -/
inductive Shared (tail tail' : List Token) (c c' : Cursor) : Prop where
  | token (l : Lexeme) (p q : Position) (rest rest' : Cursor) (reads : c.Reads ⟨l, p⟩ rest)
      (reads' : c'.Reads ⟨l, q⟩ rest') (next : Shares tail tail' rest rest')
  | finish {t t' : Token} {here here' : Cursor} (ends : c.Ends t here) (ends' : c'.Ends t' here')
      (same : Shares tail tail' here here')

variable {tail tail' : List Token} {c c' : Cursor}

private theorem Shares.of_same {d d' : Cursor} (h : Shares tail tail' c c')
    (tokens : d.tokens = c.tokens) (tokens' : d'.tokens = c'.tokens) :
    Shares tail tail' d d' := by
  obtain ⟨ts, ts', whole, whole', same⟩ := h
  exact ⟨ts, ts', tokens.trans whole, tokens'.trans whole', same⟩

private theorem Shares.look (h : Shares tail tail' c c') : Shares tail tail' c.look c'.look :=
  h.of_same (tokens_look c) (tokens_look c')

/-- Where more is left than the tail, the same stands at both cursors. -/
theorem Shares.shared (h : Shares tail tail' c c') (ahead : TinyTcl.workload tail < c.workload) :
    Shared tail tail' c c' := by
  obtain ⟨ts, ts', tokens, tokens', same⟩ := h
  cases ts with
  | nil =>
    rw [Cursor.workload, tokens, List.nil_append] at ahead
    exact absurd ahead (Nat.lt_irrefl _)
  | cons t others =>
    cases ts' with
    | nil => cases same
    | cons t' others' =>
      obtain ⟨l, p⟩ := t
      obtain ⟨l', q⟩ := t'
      obtain ⟨rfl, behind⟩ := List.cons.inj same
      by_cases last : l' = .symbol .endOfFile
      · have ends := ends_of_tokens tokens last
        have ends' := ends_of_tokens tokens' last
        exact .finish ends ends' ⟨_, _, tokens, tokens', same⟩
      · have reads := reads_of_tokens tokens last
        have reads' := reads_of_tokens tokens' last
        exact .token l' p q _ _ reads reads' ⟨others, others', rfl, rfl, behind⟩

end Cursor

namespace Reply

open Cursor

variable {α β γ δ : Type} {n m k l : Nat} {V : α → β → Prop} {W : γ → δ → Prop}
  {tail tail' : List Token} {reach reach' : Nat}

private theorem lt_of_widen {r : Reply α n} {wide : n ≤ k} {a : α} {rest : Cursor}
    {within : rest.workload < k} (h : r.widen wide = .ok a rest within) : rest.workload < n := by
  cases r with
  | ok _ _ inside =>
    cases h
    exact inside
  | fail d here => cases h

private theorem lt_of_map {r : Reply α n} {f : α → γ} {wide : n ≤ k} {a : γ} {rest : Cursor}
    {within : rest.workload < k} (h : r.map f wide = .ok a rest within) : rest.workload < n := by
  obtain ⟨_, inside, _⟩ := map_eq_ok.mp h
  exact inside

/-- What the first reader reads in front of the tail, with `reach` left before it, the second one
reads as well. -/
def Extends (tail tail' : List Token) (reach : Nat) (V : α → β → Prop) (r : Reply α n)
    (r' : Reply β m) : Prop :=
  ∀ a rest within, r = .ok a rest within → workload tail + reach ≤ rest.workload →
    ∃ b rest' within', r' = .ok b rest' within' ∧ V a b ∧ Shares tail tail' rest rest'

private theorem extends_ok {a : α} {b : β} {rest rest' : Cursor} {within : rest.workload < n}
    {within' : rest'.workload < m} (value : V a b) (h : Shares tail tail' rest rest') :
    Extends tail tail' reach V (.ok a rest within) (.ok b rest' within') := by
  rintro _ _ _ ⟨⟩ _
  exact ⟨b, rest', within', rfl, value, h⟩

private theorem extends_reject {depth : Nat} {f : GrammarFault} {t : Token} {here : Cursor}
    {r' : Reply β m} :
    Extends tail tail' reach V (reject depth f t here : Reply α n) r' :=
  fun _ _ _ h => absurd h Grammar.not_reject

/-- A reader that gets on has something to read before the tail. -/
theorem extends_of_ahead {c : Cursor} {r : Reply α n} {r' : Reply β m}
    (bound : n ≤ c.workload + reach)
    (h : workload tail < c.workload → Extends tail tail' reach V r r') :
    Extends tail tail' reach V r r' := by
  intro a rest within read far
  exact h (by omega) a rest within read far

private theorem Extends.widen {r : Reply α n} {r' : Reply β m} (h : Extends tail tail' reach V r r')
    (wide : n ≤ k) (wide' : m ≤ l) :
    Extends tail tail' reach V (r.widen wide) (r'.widen wide') := by
  intro a rest within read far
  cases r with
  | fail d here => cases read
  | ok _ _ inside =>
    cases read
    obtain ⟨b, rest', within', rfl, value, shares⟩ := h _ _ _ rfl far
    exact ⟨b, rest', _, rfl, value, shares⟩

private theorem Extends.map {r : Reply α n} {r' : Reply β m} (h : Extends tail tail' reach V r r')
    {f : α → γ} {g : β → δ} (same : ∀ a b, V a b → W (f a) (g b)) (wide : n ≤ k) (wide' : m ≤ l) :
    Extends tail tail' reach W (r.map f wide) (r'.map g wide') := by
  intro a rest within read far
  obtain ⟨a, inside, rfl, rfl⟩ := map_eq_ok.mp read
  obtain ⟨b, rest', within', rfl, value, shares⟩ := h _ _ _ rfl far
  exact ⟨g b, rest', _, rfl, same _ _ value, shares⟩

/-- Where a reader can get to may be said of less than the reader asks for. -/
theorem Extends.further {r : Reply α n} {r' : Reply β m} (h : Extends tail tail' reach V r r')
    (less : reach ≤ reach') : Extends tail tail' reach' V r r' :=
  fun a rest within read far => h a rest within read (by omega)

/-- The second part of what is read takes at least as much as the first one needs behind it. -/
theorem Extends.andThen {r : Reply α n} {r' : Reply β m} (h : Extends tail tail' reach V r r')
    {next : α → (rest : Cursor) → rest.workload < n → Reply γ k}
    {next' : β → (rest : Cursor) → rest.workload < m → Reply δ l}
    (less : ∀ a rest within b behind inside, next a rest within = .ok b behind inside →
      behind.workload + reach ≤ rest.workload + reach')
    (step : ∀ a b rest rest' within within', V a b → Shares tail tail' rest rest' →
      Extends tail tail' reach' W (next a rest within) (next' b rest' within')) :
    Extends tail tail' reach' W (r.andThen next) (r'.andThen next') := by
  intro b behind inside read far
  obtain ⟨a, rest, within, rfl, read⟩ := andThen_eq_ok.mp read
  have taken := less _ _ _ _ _ _ read
  obtain ⟨a', rest', within', rfl, value, shares⟩ := h _ _ _ rfl (by omega)
  exact step _ _ _ _ _ _ value shares _ _ _ read far

end Reply

namespace Cursor.Shares

open Grammar Reply

section Symbols

variable {tail tail' : List Token} {c c' : Cursor}

/-- A token that must be there is taken before both tails. -/
theorem consume {α β : Type} {V : α → β → Prop} (h : Shares tail tail' c c') (depth depth' : Nat)
    {f f' : GrammarFault} {taken : Lexeme → Option α} {taken' : Lexeme → Option β}
    (alike : ∀ l a, taken l = some a → ∃ b, taken' l = some b ∧ V a b) :
    Extends tail tail' 0 V (consume depth f taken c) (consume depth' f' taken' c') := by
  refine extends_of_ahead (c := c) (Nat.le_refl _) fun ahead => ?_
  rcases h.shared ahead with ⟨l, _, _, rest, rest', reads, reads', next⟩ | ⟨ends, ends', same⟩
  · cases wanted : taken l with
    | none =>
      rw [consume_of_other reads wanted]
      exact extends_reject
    | some a =>
      obtain ⟨b, wanted', both⟩ := alike l a wanted
      rw [consume_of_reads reads wanted, consume_of_reads reads' wanted']
      exact extends_ok both next
  · rw [consume_of_ends ends]
    exact extends_reject

private theorem symbol (h : Shares tail tail' c c') (depth depth' : Nat) (closing : Symbol)
    (f : GrammarFault) :
    Extends tail tail' 0 (fun _ _ => True) (symbol depth closing f c)
      (symbol depth' closing f c') :=
  h.consume depth depth' fun _ a wanted => ⟨a, wanted, trivial⟩

private theorem reference (h : Shares tail tail' c c') (depth depth' : Nat) (p q : Position) :
    Extends tail tail' 0 Expr.SameShape (reference depth p c) (reference depth' q c') := by
  refine h.consume depth depth' fun l e wanted => ?_
  obtain ⟨name, named, rfl⟩ := Option.map_eq_some_iff.mp wanted
  exact ⟨.reference name q, by rw [named]; rfl, .reference name trivial⟩

private theorem target (h : Shares tail tail' c c') (depth depth' : Nat) (command : Symbol) :
    Extends tail tail' 0 Eq (target depth command c) (target depth' command c') :=
  h.consume depth depth' fun _ a wanted => ⟨a, wanted, rfl⟩

private theorem block (h : Shares tail tail' c c') (depth depth' : Nat) (p q : Position) :
    Extends tail tail' 0 (fun b b' => b.val.Alike (fun _ _ => True) b'.val) (block depth p c)
      (block depth' q c') := by
  refine extends_of_ahead (c := c) (Nat.le_refl _) fun ahead => ?_
  rcases h.shared ahead with ⟨l, _, _, rest, rest', reads, reads', next⟩ | ⟨ends, ends', same⟩
  · obtain ⟨_, _, view⟩ := reads.view
    obtain ⟨_, _, view'⟩ := reads'.view
    rw [Grammar.block, Grammar.block, view, view']
    rcases l with _ | name | sym
    case name =>
      exact (next.symbol depth depth' _ _).map (fun _ _ _ => ⟨rfl, trivial⟩) _ _
    case number => exact extends_reject
    cases sym
    case rightBrace => exact extends_ok ⟨rfl, trivial⟩ next
    all_goals exact extends_reject
  · rw [block_of_stops (.inr ends)]
    exact extends_reject

/-- Behind a word that starts with a sign, not more is left than behind the sign. -/
theorem workload_le_of_sign {depth : Nat} {s : Symbol} {p : Position} {rest behind : Cursor}
    {role : Operand} {e : Expr} {within : behind.workload < c.workload}
    (reads : c.Reads ⟨.symbol s, p⟩ rest) (signs : s = .plus ∨ s = .minus)
    (read : word depth role c = .ok e behind within) : behind.workload ≤ rest.workload := by
  have reach := reads.shorter
  have seen := rest.workload_look_lt
  by_cases number : ∃ digits q after, rest.Reads ⟨.number digits, q⟩ after
  · obtain ⟨digits, q, after, follows⟩ := number
    have less := follows.shorter
    rw [word_of_signed_number reads signs follows (by omega)] at read
    cases read
    omega
  by_cases broken : ∃ d here, rest.Breaks d here
  · obtain ⟨d, here, breaks⟩ := broken
    rw [word_of_sign_of_breaks reads signs breaks] at read
    cases read
  · simp only [not_exists] at number broken
    rw [word_of_lone_sign reads signs number broken (by omega)] at read
    cases read
    omega

/-- A sign is read with the number behind it. One that stands alone is told by the token behind it,
which must not belong to the tail. -/
theorem sign (depth depth' : Nat) {s : Symbol} {p q : Position} {rest rest' : Cursor}
    (reads : c.Reads ⟨.symbol s, p⟩ rest) (reads' : c'.Reads ⟨.symbol s, q⟩ rest')
    (next : Shares tail tail' rest rest') (signs : s = .plus ∨ s = .minus) (role : Operand) :
    Extends tail tail' 1 Expr.SameShape (word depth role c) (word depth' role c') := by
  intro e behind within read far
  have reach := reads.shorter
  have reach' := reads'.shorter
  have seen := rest.workload_look_lt
  have seen' := rest'.workload_look_lt
  have taken := workload_le_of_sign reads signs read
  have lone (alone : ∀ digits q behind, ¬ rest.Reads ⟨.number digits, q⟩ behind)
      (alone' : ∀ digits q behind, ¬ rest'.Reads ⟨.number digits, q⟩ behind)
      (sound : ∀ d here, ¬ rest.Breaks d here) (sound' : ∀ d here, ¬ rest'.Breaks d here) :
      ∃ e' behind' within', word depth' role c' = .ok e' behind' within' ∧ e.SameShape e' ∧
        Shares tail tail' behind behind' := by
    rw [word_of_lone_sign reads signs alone sound (by omega)] at read
    cases read
    exact ⟨_, _, _, word_of_lone_sign reads' signs alone' sound' (by omega),
      .word _ ⟨rfl, trivial⟩, next.look⟩
  rcases next.shared (by omega) with ⟨l, _, _, after, after', follows, follows', later⟩ |
    ⟨ends, ends', same⟩
  · rcases l with digits | text | other
    case number =>
      have less := follows.shorter
      have less' := follows'.shorter
      rw [word_of_signed_number reads signs follows (by omega)] at read
      cases read
      exact ⟨_, _, _, word_of_signed_number reads' signs follows' (by omega),
        .number _ ⟨rfl, trivial⟩, later⟩
    all_goals
      refine lone ?_ ?_ (fun _ _ => follows.not_breaks) (fun _ _ => follows'.not_breaks)
      · rintro _ _ _ number
        cases (follows.unique number).1
      · rintro _ _ _ number
        cases (follows'.unique number).1
  · exact lone (fun _ _ _ number => number.not_ends ends)
      (fun _ _ _ number => number.not_ends ends') (fun _ _ => ends.not_breaks)
      (fun _ _ => ends'.not_breaks)

/-- A braced expression takes nothing of what stands behind its brace. -/
theorem workload_of_closing {n k : Nat} {r : Reply Expr n} {within : c.workload < k} {e : Expr}
    {behind : Cursor} {inside : behind.workload < k}
    (read : closing c within r = .ok e behind inside) : behind.workload = c.workload := by
  cases r with
  | fail d here => cases read
  | ok e after _ =>
    rcases after.view_cases with ⟨t, rest, reads⟩ | ⟨t, here, ends⟩ | ⟨d, here, breaks⟩
    · rw [closing_of_reads reads] at read
      cases read
    · rw [closing_of_ends ends] at read
      cases read
      rfl
    · rw [closing_of_breaks breaks] at read
      cases read

/-- A braced expression is a text of its own, which reads the same wherever it stands. -/
theorem closing {n m k l : Nat} {r : Reply Expr n} {r' : Reply Expr m}
    (inner : (Simulation.everywhere (fun _ _ => True) (fun _ => Cursor.Level) True (fun _ _ => True)
      fun _ _ => True).Agree (Expr.Alike fun _ _ => True) Cursor.Level r r')
    (h : Shares tail tail' c c') (within : c.workload < k) (within' : c'.workload < l)
    (reach : Nat) :
    Extends tail tail' reach Expr.SameShape (closing c within r) (closing c' within' r') := by
  intro e behind inside read _
  cases r with
  | fail d here => cases read
  | ok e behind _ =>
    obtain ⟨e', behind', _, rfl, alike, level⟩ := inner.of_ok
    rcases behind.view_cases with ⟨t, rest, reads⟩ | ⟨t, here, ends⟩ | ⟨d, here, breaks⟩
    · rw [closing_of_reads reads] at read
      cases read
    · obtain ⟨t', here', ends', _⟩ := level.ends ends
      rw [closing_of_ends ends] at read
      cases read
      exact ⟨e', c'.withLog here'.log, within', closing_of_ends ends', alike, h.of_same rfl rfl⟩
    · rw [closing_of_breaks breaks] at read
      cases read

/-- A statement in brackets ends in the same way before a tail. -/
theorem endOfStatement (h : Shares tail tail' c c') (depth depth' : Nat) (first second : Command) :
    Extends tail tail' 1 (fun _ _ => True) (endOfStatement (depth + 1) first c)
      (endOfStatement (depth' + 1) second c') := by
  refine extends_of_ahead (c := c) (Nat.le_refl _) fun ahead => ?_
  rcases h.shared ahead with ⟨l, p, q, rest, rest', reads, reads', next⟩ | ⟨ends, ends', same⟩
  · by_cases separates : l.isSeparator = true
    · rw [endOfStatement_of_separator reads separates, endOfStatement_of_separator reads' separates]
      exact extends_ok trivial next
    by_cases closes : l = .symbol .rightBracket
    · rw [endOfStatement_of_rightBracket reads (Nat.succ_pos _) closes,
        endOfStatement_of_rightBracket reads' (Nat.succ_pos _) closes]
      exact extends_ok trivial h
    · rw [endOfStatement_of_other reads (by simp [separates, closes])]
      exact extends_reject
  · rw [endOfStatement_of_ends ends, endOfStatement_of_ends ends']
    exact extends_ok trivial same

end Symbols

variable {tail tail' : List Token}

mutual

/-- Chains of the same tokens are alike if more than the tail is left behind them. -/
theorem chain (layer : Layer) {c c' : Cursor} (h : Shares tail tail' c c') (depth depth' : Nat) :
    Extends tail tail' 1 Expr.SameShape (chain layer depth c) (chain layer depth' c') := by
  rw [Grammar.chain, Grammar.chain]
  refine (h.part layer depth depth').andThen (fun _ rest _ _ _ _ read => ?_)
    fun _ _ _ _ _ _ left next => (next.further layer depth depth' left).widen _ _
  have less := lt_of_widen read
  omega
termination_by 8 * c.workload + 2 * layer.height + 2

theorem part (layer : Layer) {c c' : Cursor} (h : Shares tail tail' c c') (depth depth' : Nat) :
    Extends tail tail' 1 Expr.SameShape (part layer depth c) (part layer depth' c') := by
  cases layer with
  | product =>
    rw [Grammar.part, Grammar.part]
    exact (h.operand depth depth').further (Nat.zero_le 1)
  | sum =>
    rw [Grammar.part, Grammar.part]
    exact h.chain .product depth depth'
termination_by 8 * c.workload + 2 * layer.height + 1

theorem further (layer : Layer) {c c' : Cursor} (h : Shares tail tail' c c') (depth depth' : Nat)
    {e f : Expr} (left : e.SameShape f) :
    Extends tail tail' 1 Expr.SameShape (further layer depth e c) (further layer depth' f c') := by
  refine extends_of_ahead (c := c) (Nat.le_refl _) fun ahead => ?_
  rcases h.shared ahead with ⟨l, p, q, rest, rest', reads, reads', next⟩ | ⟨ends, ends', same⟩
  · obtain ⟨_, shorter, view⟩ := reads.view
    obtain ⟨_, _, view'⟩ := reads'.view
    rw [Grammar.further, Grammar.further, view, view']
    dsimp only
    cases layer.operator? l with
    | none => exact extends_ok left h
    | some operator =>
      refine (next.part layer depth depth').andThen (fun _ rest _ _ _ _ read => ?_)
        fun _ _ _ _ _ _ right next =>
          (next.further layer depth depth' (.binary operator left trivial right)).widen _ _
      have less := lt_of_widen read
      omega
  · rw [further_of_stops (.inr ends), further_of_stops (.inr ends')]
    exact extends_ok left same
termination_by 8 * c.workload

/-- Operands of the same tokens are alike, whatever stands behind them. -/
theorem operand {c c' : Cursor} (h : Shares tail tail' c c') (depth depth' : Nat) :
    Extends tail tail' 0 Expr.SameShape (operand depth c) (operand depth' c') := by
  refine extends_of_ahead (c := c) (Nat.le_refl _) fun ahead => ?_
  rcases h.shared ahead with ⟨l, p, q, rest, rest', reads, reads', next⟩ | ⟨ends, ends', same⟩
  · obtain ⟨_, shorter, view⟩ := reads.view
    obtain ⟨_, _, view'⟩ := reads'.view
    rw [Grammar.operand, Grammar.operand, view, view']
    rcases l with text | text | sym
    case number => exact extends_ok (.number text ⟨rfl, trivial⟩) next
    case name => exact extends_ok (.word text ⟨rfl, trivial⟩) next
    cases sym
    case dollar => exact (next.reference depth depth' p q).widen _ _
    case leftParen =>
      refine (next.chain .sum depth depth').andThen (fun _ rest _ _ _ _ read => ?_)
        fun _ _ _ _ _ _ inner next =>
          (next.symbol depth depth' _ _).map (fun _ _ _ => .group inner) _ _
      have less := lt_of_map read
      omega
    case plus =>
      exact (next.operand depth depth').map (fun _ _ => .signed .positive trivial) _ _
    case minus =>
      exact (next.operand depth depth').map (fun _ _ => .signed .negative trivial) _ _
    case leftBracket =>
      exact (next.substitution depth depth').map
        (fun _ _ commands => .substitution commands trivial) _ _
    case leftQuote =>
      exact (next.parts depth depth').map (fun _ _ parts => .quoted parts trivial) _ _
    all_goals exact extends_reject
  · rw [operand_of_stops (.inr ends)]
    exact extends_reject
termination_by 8 * c.workload

theorem parts {c c' : Cursor} (h : Shares tail tail' c c') (depth depth' : Nat) :
    Extends tail tail' 0 (Expr.AllAlike fun _ _ => True) (parts depth c) (parts depth' c') := by
  refine extends_of_ahead (c := c) (Nat.le_refl _) fun ahead => ?_
  rcases h.shared ahead with ⟨l, p, q, rest, rest', reads, reads', next⟩ | ⟨ends, ends', same⟩
  · obtain ⟨_, shorter, view⟩ := reads.view
    obtain ⟨_, _, view'⟩ := reads'.view
    rw [Grammar.parts, Grammar.parts, view, view']
    rcases l with text | text | sym
    case number => exact extends_reject
    case name =>
      exact (next.parts depth depth').map (fun _ _ => .cons (.word text ⟨rfl, trivial⟩)) _ _
    cases sym
    case rightQuote => exact extends_ok .nil next
    case dollar =>
      refine (next.reference depth depth' p q).andThen (fun _ rest _ _ _ _ read => ?_)
        fun _ _ _ _ _ _ part next =>
          (next.parts depth depth').map (fun _ _ => .cons part) _ _
      have less := lt_of_map read
      omega
    case leftBracket =>
      refine (next.substitution depth depth').andThen (fun _ rest _ _ _ _ read => ?_)
        fun _ _ _ _ _ _ commands next =>
          (next.parts depth depth').map (fun _ _ => .cons (.substitution commands trivial)) _ _
      have less := lt_of_map read
      omega
    all_goals exact extends_reject
  · rw [parts_of_stops (.inr ends)]
    exact extends_reject
termination_by 8 * c.workload

/-- The bracket that closes a substitution is the last token that is looked at. -/
theorem substitution {c c' : Cursor} (h : Shares tail tail' c c') (depth depth' : Nat) :
    Extends tail tail' 0 (Command.AllAlike fun _ _ => True) (substitution (depth + 1) c)
      (substitution (depth' + 1) c') := by
  refine extends_of_ahead (c := c) (Nat.le_refl _) fun ahead => ?_
  rcases h.shared ahead with ⟨l, p, q, rest, rest', reads, reads', next⟩ | ⟨ends, ends', same⟩
  · obtain ⟨_, shorter, view⟩ := reads.view
    obtain ⟨_, _, view'⟩ := reads'.view
    rw [Grammar.substitution, Grammar.substitution, view, view']
    dsimp only
    by_cases closes : l = .symbol .rightBracket
    · simp only [closes, beq_self_eq_true, if_true]
      exact extends_ok .nil next
    have other : (l == .symbol .rightBracket) = false := beq_eq_false_iff_ne.mpr closes
    simp only [other, Bool.false_eq_true, if_false]
    by_cases separates : l.isSeparator = true
    · simp only [separates, if_true]
      exact (next.substitution depth depth').widen _ _
    simp only [separates, Bool.false_eq_true, if_false]
    refine (h.command depth depth').andThen (fun _ rest _ _ _ _ read => ?_)
      fun first second _ _ _ _ same next =>
        (next.endOfStatement depth depth' first second).andThen (fun _ rest _ _ _ _ read => ?_)
          fun _ _ _ _ _ _ _ next =>
            (next.substitution depth depth').map (fun _ _ => .cons same) _ _
    · obtain ⟨_, after, inside, _, read⟩ := andThen_eq_ok.mp read
      have less := lt_of_map read
      omega
    · have less := lt_of_map read
      omega
  · obtain ⟨_, view⟩ := ends.view
    rw [Grammar.substitution, view]
    exact extends_reject
termination_by 8 * c.workload + 1

theorem word {c c' : Cursor} (h : Shares tail tail' c c') (depth depth' : Nat) (role : Operand) :
    Extends tail tail' 1 Expr.SameShape (word depth role c) (word depth' role c') := by
  refine extends_of_ahead (c := c) (Nat.le_succ _) fun ahead => ?_
  rcases h.shared ahead with ⟨l, p, q, rest, rest', reads, reads', next⟩ | ⟨ends, ends', same⟩
  · obtain ⟨_, shorter, view⟩ := reads.view
    obtain ⟨_, _, view'⟩ := reads'.view
    by_cases signs : l = .symbol .plus ∨ l = .symbol .minus
    · rcases signs with rfl | rfl
      · exact sign depth depth' reads reads' next (.inl rfl) role
      · exact sign depth depth' reads reads' next (.inr rfl) role
    rw [Grammar.word, Grammar.word, view, view']
    rcases l with text | text | sym
    case number => exact extends_ok (.number text ⟨rfl, trivial⟩) next
    case name => exact extends_ok (.word text ⟨rfl, trivial⟩) next
    cases sym
    case plus | minus => simp at signs
    case dollar => exact ((next.reference depth depth' p q).further (Nat.zero_le _)).widen _ _
    case leftQuote =>
      exact ((next.parts depth depth').further (Nat.zero_le _)).map
        (fun _ _ parts => .quoted parts trivial) _ _
    case leftBrace =>
      refine ((next.block depth depth' p q).further (Nat.zero_le _)).map
        (fun body body' same => ?_) _ _
      rw [same.1]
      exact .word _ ⟨rfl, trivial⟩
    case leftBracket =>
      exact ((next.substitution depth depth').further (Nat.zero_le _)).map
        (fun _ _ commands => .substitution commands trivial) _ _
    case puts | expr | unset | set | times | divide | leftParen | rightParen =>
      exact extends_ok (.word _ ⟨rfl, trivial⟩) next
    all_goals exact extends_reject
  · rw [word_of_stops (.inr ends)]
    exact extends_reject
termination_by 8 * c.workload

theorem arguments {c c' : Cursor} (h : Shares tail tail' c c') (depth depth' : Nat) :
    Extends tail tail' 1 (Expr.AllAlike fun _ _ => True) (arguments (depth + 1) c)
      (arguments (depth' + 1) c') := by
  refine extends_of_ahead (c := c) (Nat.le_refl _) fun ahead => ?_
  rcases h.shared ahead with ⟨l, p, q, rest, rest', reads, reads', next⟩ | ⟨ends, ends', same⟩
  · obtain ⟨_, shorter, view⟩ := reads.view
    obtain ⟨_, _, view'⟩ := reads'.view
    rw [Grammar.arguments, Grammar.arguments, view, view']
    simp only [gt_iff_lt, Nat.succ_pos, decide_true, Bool.true_and]
    split
    · exact extends_ok .nil h
    · refine (h.word _ _ .argument).andThen (fun _ rest _ _ _ _ read => ?_)
        fun _ _ _ _ _ _ first next =>
          (next.arguments depth depth').map (fun _ _ others => .cons first others) _ _
      have less := lt_of_map read
      omega
  · rw [arguments_of_concludes (.inr ⟨_, _, ends⟩), arguments_of_concludes (.inr ⟨_, _, ends'⟩)]
    exact extends_ok .nil h.look
termination_by 8 * c.workload + 1

theorem formula {c c' : Cursor} (h : Shares tail tail' c c') (depth depth' : Nat) :
    Extends tail tail' 1 Expr.SameShape (formula depth c) (formula depth' c') := by
  refine extends_of_ahead (c := c) (Nat.le_succ _) fun ahead => ?_
  rcases h.shared ahead with ⟨l, p, q, rest, rest', reads, reads', next⟩ | ⟨ends, ends', same⟩
  · by_cases brace : l = .symbol .leftBrace
    · subst brace
      rw [formula_of_brace reads, formula_of_brace reads']
      refine (next.block depth depth' p q).andThen (fun _ rest _ _ _ _ read => ?_)
        fun body body' after after' _ _ same next => ?_
      · have same := workload_of_closing read
        omega
      · have level := (Cursor.level_ofExpression same.1).withLog after.log after'.log
        exact closing (synchronous_level.lawful.chain .sum (s := .start true) level) next _ _ _
    · rw [formula_of_other fun _ _ other => brace (congrArg Token.lexeme (other.unique reads).1),
        formula_of_other fun _ _ other => brace (congrArg Token.lexeme (other.unique reads').1)]
      exact h.chain .sum depth depth'
  · rw [formula_of_other fun _ _ other => other.not_ends ends,
      formula_of_other fun _ _ other => other.not_ends ends']
    exact h.chain .sum depth depth'
termination_by 8 * c.workload + 5

theorem command {c c' : Cursor} (h : Shares tail tail' c c') (depth depth' : Nat) :
    Extends tail tail' 1 (Command.Alike fun _ _ => True) (command (depth + 1) c)
      (command (depth' + 1) c') := by
  refine extends_of_ahead (c := c) (Nat.le_succ _) fun ahead => ?_
  rcases h.shared ahead with ⟨l, p, q, rest, rest', reads, reads', next⟩ | ⟨ends, ends', same⟩
  · obtain ⟨_, shorter, view⟩ := reads.view
    obtain ⟨_, _, view'⟩ := reads'.view
    rw [Grammar.command, Grammar.command, view, view']
    rcases l with text | name | sym
    case number => exact extends_reject
    case name =>
      exact (next.arguments depth depth').map (fun _ _ => .invoke name trivial) _ _
    cases sym
    case set =>
      refine (next.target _ _ .set).andThen (fun _ rest _ _ _ _ read => ?_)
        fun name _ _ _ _ _ same next => (next.word _ _ .assigned).map
          (fun _ _ value => same ▸ .set name trivial value) _ _
      have less := lt_of_map read
      omega
    case unset =>
      exact ((next.target _ _ .unset).further (Nat.zero_le _)).map
        (fun name _ same => same ▸ .unset name trivial) _ _
    case puts => exact (next.word _ _ .printed).map (fun _ _ => .puts trivial) _ _
    case expr => exact (next.formula _ _).map (fun _ _ => .expr trivial) _ _
    case leftBrace =>
      exact ((next.block _ _ p q).further (Nat.zero_le _)).map
        (fun _ _ body => .block trivial body) _ _
    all_goals exact extends_reject
  · rw [command_of_stops (.inr ends)]
    exact extends_reject
termination_by 8 * c.workload

end

end Cursor.Shares

/-- The readers take their tokens one after another from the front, but for those of a braced
expression. -/
theorem synchronous_front (source : List Token) :
    Synchronous Eq
      (fun s c c' => c' = c ∧ (s.braced = false → ∃ ts, source = ts ++ c.tokens)) True
      (fun _ _ => True) (fun _ _ => True) where
  column := by
    rintro p _ rfl
    rfl
  reads := by
    rintro s c _ rest t ⟨rfl, front⟩ reads
    refine ⟨t, rest, reads, ⟨rfl, rfl⟩, rfl, fun plain => ?_⟩
    obtain ⟨ts, whole⟩ := front plain
    exact ⟨ts ++ [t], by rw [whole, (Cursor.reads_iff.mp reads).1]; simp⟩
  ends := by
    rintro s c _ here t ⟨rfl, front⟩ ends
    refine ⟨t, here, ends, rfl, fun plain => ?_⟩
    rw [ends.lexemes.2.1]
    exact front plain
  broken := by
    rintro s c _ here d ⟨rfl, _⟩ breaks
    exact ⟨d, here, breaks, .inl trivial⟩
  refuse _ _ _ _ := .inl trivial
  braces := by
    rintro s c _ rest rest' behind _ t t' body body' _ _ _ _ _ _ _ _ same ⟨rfl, _⟩
    exact ⟨by rw [same.eq], fun braced => nomatch braced⟩
  surplus _ _ _ _ _ := .inl trivial
  withLog := by
    rintro s c _ inner _ ⟨rfl, front⟩ ⟨rfl, _⟩
    exact ⟨rfl, front⟩
  after _ _ := trivial

/-- What an operand is read from stands in front of what is left. -/
theorem Grammar.tokens_of_operand {depth : Nat} {c rest : Cursor} {e : Expr}
    {within : rest.workload < c.workload} (read : operand depth c = .ok e rest within) :
    ∃ ts, c.tokens = ts ++ rest.tokens := by
  have deep : (Spot.mk false (List.replicate depth .bracket)).brackets = depth :=
    List.count_replicate_self
  have agree := (synchronous_front c.tokens).lawful.operand
    (s := ⟨false, List.replicate depth .bracket⟩) ⟨rfl, fun _ => ⟨[], rfl⟩⟩
  change Simulation.Agree _ _ _ (operand (Spot.brackets _) c) (operand (Spot.brackets _) c) at agree
  rw [deep, read] at agree
  exact agree.2.2 rfl

end TinyTcl
