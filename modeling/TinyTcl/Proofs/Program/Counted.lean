import TinyTcl.Proofs.Program.Delivery

/-! The count of open brackets. The readers of the grammar are told how many brackets are open around
them. A parser that goes through a script keeps that number as a count instead: it goes up where a
substitution begins and down where the substitution is left, whether that ends well or not, and
whoever asks how many brackets are open looks at the count. The readers here are those of the
grammar with such a count. They give the same replies, leave the count as they find it, and leave a
tail of the tokens in front of them, also where they fail (`Counted.follows_statement`). -/
namespace TinyTcl

/-- A reply, and the count of open brackets behind it. -/
abbrev Counted (α : Type) (limit : Nat) := Reply α limit × Nat

namespace Counted

open Grammar

variable {α β : Type} {n m : Nat}

/-- Reads on behind what was read, with the count that is left. -/
def andThen (r : Counted α n)
    (next : α → (rest : Cursor) → rest.workload < n → Nat → Counted β m) : Counted β m :=
  match r with
  | (.ok value rest within, count) => next value rest within count
  | (.fail fault here, count) => (.fail fault here, count)

/-- The same outcome under a wider bound. -/
def widen (r : Counted α n) (h : n ≤ m) : Counted α m := (r.1.widen h, r.2)

/-- The same outcome with another form of what was read, under a wider bound. -/
def map (r : Counted α n) (f : α → β) (h : n ≤ m) : Counted β m := (r.1.map f h, r.2)

/-- A reply that only looks at the count. -/
def looking (count : Nat) (read : Nat → Reply α n) : Counted α n := (read count, count)

/-- Reads with one bracket more open. The count goes down again whatever the outcome is. -/
def inBrackets (count : Nat) (read : Nat → Counted α n) : Counted α n :=
  ((read (count + 1)).1, (read (count + 1)).2 - 1)

/-! What is left is less work, in the forms that replies ask for. -/

section Bounds

variable {c rest further here : Cursor} {t next : Token}

private theorem self_lt (c : Cursor) : c.workload < c.workload + 1 := Nat.lt_succ_self _

private theorem ended_lt (same : here.workload = c.workload) : here.workload < c.workload + 1 := by
  omega

private theorem succ_le (within : rest.workload < c.workload) :
    rest.workload + 1 ≤ c.workload + 1 := by
  omega

private theorem concluded_le (within : rest.workload < c.workload)
    (behind : further.workload < rest.workload + 1) : further.workload ≤ c.workload := by
  omega

private theorem noted_lt (within : rest.workload < c.workload)
    (behind : further.workload < rest.workload + 1) (first : Command) :
    (further.note (.parsed first.name first.position.line)).workload < c.workload := by
  rw [Cursor.workload_note]
  omega

section Token

variable (shorter : rest.workload + blockRoom t.lexeme rest.tokens < c.workload)

include shorter

private theorem token_lt : rest.workload < c.workload := by
  omega

private theorem token_le : rest.workload ≤ c.workload := by
  omega

private theorem further_le (behind : further.workload < rest.workload) :
    further.workload ≤ c.workload := by
  omega

private theorem further_succ_le (behind : further.workload < rest.workload) :
    further.workload + 1 ≤ c.workload + 1 := by
  omega

private theorem withLog_lt (behind : further.workload < rest.workload) (here : Cursor) :
    (further.withLog here.log).workload < c.workload := by
  rw [Cursor.workload_withLog]
  omega

private theorem second_lt
    (behind : further.workload + blockRoom next.lexeme further.tokens < rest.workload) :
    further.workload < c.workload := by
  omega

private theorem stopped_lt (same : here.workload = rest.workload) : here.workload < c.workload := by
  omega

end Token

end Bounds

mutual

/-- Parts of a layer with operators of the layer between them. -/
def chain (layer : Layer) (count : Nat) (c : Cursor) : Counted Expr c.workload :=
  (part layer count c).andThen fun left rest within count =>
    (further layer count left rest).widen within
termination_by 8 * c.workload + 2 * layer.height + 2

/-- A part of a layer, which is a chain of the layer below. -/
def part (layer : Layer) (count : Nat) (c : Cursor) : Counted Expr c.workload :=
  match layer with
  | .product => operand count c
  | .sum => chain .product count c
termination_by 8 * c.workload + 2 * layer.height + 1

/-- Further parts of a layer. -/
def further (layer : Layer) (count : Nat) (left : Expr) (c : Cursor) :
    Counted Expr (c.workload + 1) :=
  match c.view with
  | .token t rest _ shorter =>
    match layer.operator? t.lexeme with
    | some operator =>
      (part layer count rest).andThen fun right after behind count =>
        (further layer count (.binary left operator t.position right) after).widen
          (further_succ_le shorter behind)
    | none => (.ok left c (self_lt c), count)
  | .finish _ here same => (.ok left here (ended_lt same), count)
  | .broken d here => (.fail d here, count)
termination_by 8 * c.workload

/-- An operand of an arithmetic expression. -/
def operand (count : Nat) (c : Cursor) : Counted Expr c.workload :=
  match c.view with
  | .token t rest _ shorter =>
    match t.lexeme with
    | .number text => (.ok (.number text t) rest (token_lt shorter), count)
    | .name text => (.ok (.word text t) rest (token_lt shorter), count)
    | .symbol .dollar => (looking count (reference · t.position rest)).widen (token_le shorter)
    | .symbol .leftParen =>
      (chain .sum count rest).andThen fun inner further behind count =>
        (looking count (symbol · .rightParen .openGroup further)).map (fun _ => .group inner)
          (further_le shorter behind)
    | .symbol .plus => (operand count rest).map (.signed .positive t.position) (token_le shorter)
    | .symbol .minus => (operand count rest).map (.signed .negative t.position) (token_le shorter)
    | .symbol .leftBracket =>
      (inBrackets count fun count => substitution count rest).map (.substitution · t.position)
        (token_le shorter)
    | .symbol .leftQuote => (parts count rest).map (.quoted · t.position) (token_le shorter)
    | lexeme => looking count (reject · (.noOperand lexeme) t c)
  | .finish t here _ => looking count (reject · (.noOperand t.lexeme) t here)
  | .broken d here => (.fail d here, count)
termination_by 8 * c.workload

/-- The parts of a quoted string, up to its closing quote. -/
def parts (count : Nat) (c : Cursor) : Counted (List Expr) c.workload :=
  match c.view with
  | .token t rest _ shorter =>
    match t.lexeme with
    | .symbol .rightQuote => (.ok [] rest (token_lt shorter), count)
    | .name text => (parts count rest).map (.word text t :: ·) (token_le shorter)
    | .symbol .dollar =>
      (looking count (reference · t.position rest)).andThen fun part further behind count =>
        (parts count further).map (part :: ·) (further_le shorter behind)
    | .symbol .leftBracket =>
      (inBrackets count fun count => substitution count rest).andThen
        fun commands further behind count =>
          (parts count further).map (.substitution commands t.position :: ·)
            (further_le shorter behind)
    | _ => looking count (reject · .openString t c)
  | .finish t here _ => looking count (reject · .openString t here)
  | .broken d here => (.fail d here, count)
termination_by 8 * c.workload

/-- The commands of a substitution, up to its closing bracket. -/
def substitution (count : Nat) (c : Cursor) : Counted (List Command) c.workload :=
  match c.view with
  | .token t rest _ shorter =>
    if t.lexeme == .symbol .rightBracket then (.ok [] rest (token_lt shorter), count)
    else if t.lexeme.isSeparator then (substitution count rest).widen (token_le shorter)
    else
      (command count c).andThen fun first rest within count =>
        (looking count (endOfStatement · first rest)).andThen fun _ further behind count =>
          (substitution count further).map (first :: ·) (concluded_le within behind)
  | .finish t here _ => looking count (reject · .openSubstitution t here)
  | .broken d here => (.fail d here, count)
termination_by 8 * c.workload + 1

/-- A word of a command. -/
def word (count : Nat) (role : Operand) (c : Cursor) : Counted Expr c.workload :=
  match c.view with
  | .token t rest _ shorter =>
    match t.lexeme with
    | .number text => (.ok (.number text t) rest (token_lt shorter), count)
    | .name text => (.ok (.word text t) rest (token_lt shorter), count)
    | .symbol .dollar => (looking count (reference · t.position rest)).widen (token_le shorter)
    | .symbol .leftQuote => (parts count rest).map (.quoted · t.position) (token_le shorter)
    | .symbol .leftBrace =>
      (looking count (block · t.position rest)).map (fun body => .word body.val.text t)
        (token_le shorter)
    | .symbol .leftBracket =>
      (inBrackets count fun count => substitution count rest).map (.substitution · t.position)
        (token_le shorter)
    | .symbol s =>
      if s == .minus || s == .plus then
        match rest.view with
        | .token next further _ behind =>
          match next.lexeme with
          | .number digits =>
            (.ok (.number (s.text ++ digits) t) further (second_lt shorter behind), count)
          | _ => (.ok (.word s.text t) rest (token_lt shorter), count)
        | .finish _ here same => (.ok (.word s.text t) here (stopped_lt shorter same), count)
        | .broken d here => (.fail d here, count)
      else if s.isWord then (.ok (.word s.text t) rest (token_lt shorter), count)
      else looking count (reject · (.noWord role t.lexeme) t c)
  | .finish t here _ => looking count (reject · (.noWord role t.lexeme) t here)
  | .broken d here => (.fail d here, count)
termination_by 8 * c.workload

/-- The words of a command up to the end of the statement. -/
def arguments (count : Nat) (c : Cursor) : Counted (List Expr) (c.workload + 1) :=
  match c.view with
  | .token t _ _ _ =>
    if t.lexeme.isSeparator || (count > 0 && t.lexeme == .symbol .rightBracket) then
      (.ok [] c (self_lt c), count)
    else
      (word count .argument c).andThen fun first rest within count =>
        (arguments count rest).map (first :: ·) (succ_le within)
  | .finish _ here same => (.ok [] here (ended_lt same), count)
  | .broken d here => (.fail d here, count)
termination_by 8 * c.workload + 1

/-- The operand of `expr`. What stands in braces is read by a parser of its own, with a count of
its own. -/
def formula (count : Nat) (c : Cursor) : Counted Expr c.workload :=
  match c.view with
  | .token t rest _ shorter =>
    if t.lexeme = .symbol .leftBrace then
      (looking count (block · t.position rest)).andThen fun body further behind count =>
        match (chain .sum 0 ((Cursor.ofExpression body.val).withLog further.log)).1 with
        | .ok inner after _ =>
          match after.view with
          | .finish _ here _ =>
            (.ok inner (further.withLog here.log) (withLog_lt shorter behind here), count)
          | .token t _ _ _ =>
            (.fail (.ofCause (.grammar (.afterExpression t.lexeme)) t.position)
              (further.withLog after.log), count)
          | .broken d here => (.fail d (further.withLog here.log), count)
        | .fail d here => (.fail d (further.withLog here.log), count)
    else chain .sum count c
  | _ => chain .sum count c
termination_by 8 * c.workload + 5
decreasing_by
  · have inner := Cursor.workload_ofExpression_le body.val
    have _room := body.property
    simp_all only [blockRoom, if_true, Cursor.workload_withLog]
    omega
  all_goals omega

/-- A command, up to its last word. -/
def command (count : Nat) (c : Cursor) : Counted Command c.workload :=
  match c.view with
  | .token t rest _ shorter =>
    match t.lexeme with
    | .symbol .set =>
      (looking count (target · .set rest)).andThen fun name further behind count =>
        (word count .assigned further).map (.set t.position name) (further_le shorter behind)
    | .symbol .unset =>
      (looking count (target · .unset rest)).map (.unset t.position) (token_le shorter)
    | .symbol .puts => (word count .printed rest).map (.puts t.position) (token_le shorter)
    | .symbol .expr => (formula count rest).map (.expr t.position) (token_le shorter)
    | .symbol .leftBrace =>
      (looking count (block · t.position rest)).map
        (fun body => .block t.position body.val
          (program (Cursor.ofText body.val.text body.val.position))) (token_le shorter)
    | .name name => (arguments count rest).map (.invoke t.position name) (token_lt shorter)
    | lexeme => looking count (reject · (.noCommand lexeme) t c)
  | .finish t here _ => looking count (reject · (.noCommand t.lexeme) t here)
  | .broken d here => (.fail d here, count)
termination_by 8 * c.workload

end

/-- A statement, which ends where the count says that it may. -/
def statement (count : Nat) (c : Cursor) : Counted Command c.workload :=
  (command count c).andThen fun first rest within count =>
    (looking count (endOfStatement · first rest)).andThen fun _ further behind count =>
      (.ok first (further.note (.parsed first.name first.position.line))
        (noted_lt within behind first), count)

/-! ### The count is what the readers of the grammar are told -/

end Counted

/-- Where a reply leaves off. -/
def Reply.cursor {α : Type} {n : Nat} : Reply α n → Cursor
  | .ok _ rest _ => rest
  | .fail _ here => here

namespace Grammar

section Tails

variable {c : Cursor}

private theorem tokens_reject {α : Type} {n : Nat} (depth : Nat) (f : GrammarFault) (t : Token)
    (here : Cursor) : (reject depth f t here : Reply α n).cursor.tokens <:+ here.tokens := by
  have left := here.tokens_leave depth
  unfold reject
  revert left
  rcases here.leave depth with ⟨_ | d, after⟩ <;> exact id

private theorem tokens_consume {α : Type} (depth : Nat) (f : GrammarFault)
    (taken : Lexeme → Option α) (c : Cursor) :
    (consume depth f taken c).cursor.tokens <:+ c.tokens := by
  rcases c.view_cases with ⟨t, rest, reads⟩ | ⟨t, here, ends⟩ | ⟨d, here, breaks⟩
  · cases wanted : taken t.lexeme with
    | none =>
      rw [consume_of_other reads wanted]
      exact tokens_reject depth f t c
    | some a =>
      rw [consume_of_reads reads wanted]
      exact reads.tokens
  · rw [consume_of_ends ends]
    exact (tokens_reject depth f t here).trans ends.tokens
  · rw [consume_of_breaks breaks]
    exact breaks.tokens

private theorem tokens_block (depth : Nat) (brace : Position) (c : Cursor) :
    (block depth brace c).cursor.tokens <:+ c.tokens := by
  rcases c.view_cases with ⟨⟨l, p⟩, rest, reads⟩ | ⟨t, here, ends⟩ | ⟨d, here, breaks⟩
  · obtain ⟨_, _, view⟩ := reads.view
    rw [block, view]
    rcases l with text | body | sym
    case name =>
      refine List.IsSuffix.trans ?_ reads.tokens
      have closes : (symbol depth .rightBrace .openBlock rest).cursor.tokens <:+ rest.tokens :=
        tokens_consume depth _ _ rest
      revert closes
      dsimp only
      cases symbol depth .rightBrace .openBlock rest <;> exact id
    case number => exact tokens_reject depth _ _ c
    cases sym
    case rightBrace => exact reads.tokens
    all_goals exact tokens_reject depth _ _ c
  · obtain ⟨_, view⟩ := ends.view
    rw [block, view]
    exact (tokens_reject depth _ t here).trans ends.tokens
  · rw [block, (breaks : c.view = _)]
    exact breaks.tokens

private theorem tokens_endOfStatement (depth : Nat) (command : Command) (c : Cursor) :
    (endOfStatement depth command c).cursor.tokens <:+ c.tokens := by
  unfold endOfStatement
  split
  · next t rest read shorter view =>
    split
    · exact Cursor.Reads.tokens ⟨read, shorter, view⟩
    · split
      · exact List.suffix_rfl
      · exact tokens_reject depth _ t c
  · next t here same view => exact Cursor.Ends.tokens ⟨same, view⟩
  · next d here view => exact Cursor.Breaks.tokens view

end Tails

end Grammar

namespace Counted

open Grammar

variable {α β : Type} {n m k : Nat}

/-- A reply with a count agrees with a reply at a cursor that was told that count: it is the same
reply, the count is as it was, and a tail of the tokens is left. -/
structure Follows (count : Nat) (c : Cursor) (r : Counted α n) (told : Reply α n) : Prop where
  same : r = (told, count)
  tail : told.cursor.tokens <:+ c.tokens

section Follows

variable {count : Nat} {c rest here : Cursor} {t : Token} {d : Diagnostic}

private theorem Follows.widen {r : Counted α n} {told : Reply α n} (h : Follows count c r told)
    (wide : n ≤ m) : Follows count c (r.widen wide) (told.widen wide) := by
  obtain ⟨rfl, tail⟩ := h
  refine ⟨rfl, ?_⟩
  cases told <;> exact tail

private theorem Follows.map {r : Counted α n} {told : Reply α n} (h : Follows count c r told)
    (f : α → β) (wide : n ≤ m) : Follows count c (r.map f wide) (told.map f wide) := by
  obtain ⟨rfl, tail⟩ := h
  refine ⟨rfl, ?_⟩
  cases told <;> exact tail

private theorem Follows.andThen {r : Counted α n} {told : Reply α n} (h : Follows count c r told)
    {next : α → (rest : Cursor) → rest.workload < n → Reply β m}
    {next' : α → (rest : Cursor) → rest.workload < n → Nat → Counted β m}
    (step : ∀ a rest within, Follows count rest (next' a rest within count) (next a rest within)) :
    Follows count c (r.andThen next') (told.andThen next) := by
  obtain ⟨rfl, tail⟩ := h
  cases told with
  | ok a rest within => exact ⟨(step a rest within).same, (step a rest within).tail.trans tail⟩
  | fail d here => exact ⟨rfl, tail⟩

/-- What is read further on. -/
theorem Follows.of_reads {r : Counted α n} {told : Reply α n} (h : Follows count rest r told)
    (reads : c.Reads t rest) : Follows count c r told :=
  ⟨h.same, h.tail.trans reads.tokens⟩

private theorem follows_ok {a : α} {within : rest.workload < n} (tail : rest.tokens <:+ c.tokens) :
    Follows count c (.ok a rest within, count) (.ok a rest within) :=
  ⟨rfl, tail⟩

private theorem follows_fail (tail : here.tokens <:+ c.tokens) :
    Follows count c ((.fail d here : Reply α n), count) (.fail d here) :=
  ⟨rfl, tail⟩

private theorem follows_consume (f : GrammarFault) (taken : Lexeme → Option α) :
    Follows count c (looking count (consume · f taken c)) (consume count f taken c) :=
  ⟨rfl, tokens_consume count f taken c⟩

private theorem follows_block (p : Position) :
    Follows count c (looking count (block · p c)) (block count p c) :=
  ⟨rfl, tokens_block count p c⟩

private theorem follows_endOfStatement (first : Command) :
    Follows count c (looking count (endOfStatement · first c)) (endOfStatement count first c) :=
  ⟨rfl, tokens_endOfStatement count first c⟩

private theorem follows_reject (f : GrammarFault) (t : Token) (tail : here.tokens <:+ c.tokens) :
    Follows count c (looking count (reject · f t here : Nat → Reply α n))
      (reject count f t here) :=
  ⟨rfl, (tokens_reject count f t here).trans tail⟩

/-- The count behind a substitution is the count before it, since it was one more inside. -/
theorem Follows.inBrackets {f : Nat → Counted α n} {told : Reply α n}
    (h : Follows (count + 1) c (f (count + 1)) told) :
    Follows count c (inBrackets count f) told := by
  obtain ⟨same, tail⟩ := h
  refine ⟨?_, tail⟩
  rw [Counted.inBrackets, same]
  rfl

end Follows

mutual

theorem follows_chain (layer : Layer) (count : Nat) (c : Cursor) :
    Follows count c (chain layer count c) (Grammar.chain layer count c) := by
  rw [chain, Grammar.chain]
  exact (follows_part layer count c).andThen fun left rest _ =>
    (follows_further layer count left rest).widen _
termination_by 8 * c.workload + 2 * layer.height + 2

theorem follows_part (layer : Layer) (count : Nat) (c : Cursor) :
    Follows count c (part layer count c) (Grammar.part layer count c) := by
  cases layer with
  | product =>
    rw [part, Grammar.part]
    exact follows_operand count c
  | sum =>
    rw [part, Grammar.part]
    exact follows_chain .product count c
termination_by 8 * c.workload + 2 * layer.height + 1

theorem follows_further (layer : Layer) (count : Nat) (left : Expr) (c : Cursor) :
    Follows count c (further layer count left c) (Grammar.further layer count left c) := by
  rw [further, Grammar.further]
  rcases c.view_cases with ⟨t, rest, reads⟩ | ⟨t, here, ends⟩ | ⟨d, here, breaks⟩
  · obtain ⟨_, shorter, view⟩ := reads.view
    rw [view]
    dsimp only
    cases layer.operator? t.lexeme with
    | some operator =>
      exact ((follows_part layer count rest).andThen fun right rest _ =>
        (follows_further layer count _ rest).widen _).of_reads reads
    | none => exact follows_ok List.suffix_rfl
  · obtain ⟨_, view⟩ := ends.view
    rw [view]
    exact follows_ok ends.tokens
  · rw [(breaks : c.view = _)]
    exact follows_fail breaks.tokens
termination_by 8 * c.workload

theorem follows_operand (count : Nat) (c : Cursor) :
    Follows count c (operand count c) (Grammar.operand count c) := by
  rw [operand, Grammar.operand]
  rcases c.view_cases with ⟨⟨l, p⟩, rest, reads⟩ | ⟨t, here, ends⟩ | ⟨d, here, breaks⟩
  · obtain ⟨_, shorter, view⟩ := reads.view
    rw [view]
    rcases l with text | text | sym
    case number => exact follows_ok reads.tokens
    case name => exact follows_ok reads.tokens
    cases sym
    case dollar => exact ((follows_consume .noVariable _).widen _).of_reads reads
    case leftParen =>
      refine ((follows_chain .sum count rest).andThen fun inner rest _ => ?_).of_reads reads
      exact (follows_consume .openGroup _).map _ _
    case plus => exact ((follows_operand count rest).map _ _).of_reads reads
    case minus => exact ((follows_operand count rest).map _ _).of_reads reads
    case leftBracket =>
      exact ((follows_substitution (count + 1) rest).of_reads reads).inBrackets.map _ _
    case leftQuote => exact ((follows_parts count rest).map _ _).of_reads reads
    all_goals exact follows_reject _ _ List.suffix_rfl
  · obtain ⟨_, view⟩ := ends.view
    rw [view]
    exact follows_reject _ _ ends.tokens
  · rw [(breaks : c.view = _)]
    exact follows_fail breaks.tokens
termination_by 8 * c.workload

theorem follows_parts (count : Nat) (c : Cursor) :
    Follows count c (parts count c) (Grammar.parts count c) := by
  rw [parts, Grammar.parts]
  rcases c.view_cases with ⟨⟨l, p⟩, rest, reads⟩ | ⟨t, here, ends⟩ | ⟨d, here, breaks⟩
  · obtain ⟨_, shorter, view⟩ := reads.view
    rw [view]
    rcases l with text | text | sym
    case number => exact follows_reject _ _ List.suffix_rfl
    case name => exact ((follows_parts count rest).map _ _).of_reads reads
    cases sym
    case rightQuote => exact follows_ok reads.tokens
    case dollar =>
      exact ((follows_consume .noVariable _).andThen fun part rest _ =>
        (follows_parts count rest).map _ _).of_reads reads
    case leftBracket =>
      exact ((follows_substitution (count + 1) rest).of_reads reads).inBrackets.andThen
        fun commands rest _ => (follows_parts count rest).map _ _
    all_goals exact follows_reject _ _ List.suffix_rfl
  · obtain ⟨_, view⟩ := ends.view
    rw [view]
    exact follows_reject _ _ ends.tokens
  · rw [(breaks : c.view = _)]
    exact follows_fail breaks.tokens
termination_by 8 * c.workload

theorem follows_substitution (count : Nat) (c : Cursor) :
    Follows count c (substitution count c) (Grammar.substitution count c) := by
  rw [substitution, Grammar.substitution]
  rcases c.view_cases with ⟨t, rest, reads⟩ | ⟨t, here, ends⟩ | ⟨d, here, breaks⟩
  · obtain ⟨_, shorter, view⟩ := reads.view
    rw [view]
    dsimp only
    split
    · exact follows_ok reads.tokens
    · split
      · exact ((follows_substitution count rest).widen _).of_reads reads
      · exact (follows_command count c).andThen fun first rest _ =>
          (follows_endOfStatement first).andThen fun _ rest _ =>
            (follows_substitution count rest).map _ _
  · obtain ⟨_, view⟩ := ends.view
    rw [view]
    exact follows_reject _ _ ends.tokens
  · rw [(breaks : c.view = _)]
    exact follows_fail breaks.tokens
termination_by 8 * c.workload + 1

theorem follows_word (count : Nat) (role : Operand) (c : Cursor) :
    Follows count c (word count role c) (Grammar.word count role c) := by
  rw [word, Grammar.word]
  rcases c.view_cases with ⟨⟨l, p⟩, rest, reads⟩ | ⟨t, here, ends⟩ | ⟨d, here, breaks⟩
  · obtain ⟨_, shorter, view⟩ := reads.view
    rw [view]
    -- a sign may belong to the number behind it
    have signed (s : Symbol) : @Follows Expr c.workload count c
        (match rest.view with
          | .token next behind _ _ =>
            match next.lexeme with
            | .number digits =>
              (.ok (.number (s.text ++ digits) ⟨l, p⟩) behind (by omega), count)
            | _ => (.ok (.word s.text ⟨l, p⟩) rest (by omega), count)
          | .finish _ here _ => (.ok (.word s.text ⟨l, p⟩) here (by omega), count)
          | .broken d here => (.fail d here, count))
        (match rest.view with
          | .token next behind _ _ =>
            match next.lexeme with
            | .number digits => .ok (.number (s.text ++ digits) ⟨l, p⟩) behind (by omega)
            | _ => .ok (.word s.text ⟨l, p⟩) rest (by omega)
          | .finish _ here _ => .ok (.word s.text ⟨l, p⟩) here (by omega)
          | .broken d here => .fail d here) := by
      rcases rest.view_cases with ⟨⟨l', q⟩, behind, next⟩ | ⟨t, here, ends⟩ | ⟨d, here, breaks⟩
      · obtain ⟨_, _, view⟩ := next.view
        rw [view]
        rcases l' with digits | name | other
        case number => exact follows_ok (next.tokens.trans reads.tokens)
        all_goals exact follows_ok reads.tokens
      · obtain ⟨_, view⟩ := ends.view
        rw [view]
        exact follows_ok (ends.tokens.trans reads.tokens)
      · rw [(breaks : rest.view = _)]
        exact follows_fail (breaks.tokens.trans reads.tokens)
    rcases l with text | text | sym
    case number => exact follows_ok reads.tokens
    case name => exact follows_ok reads.tokens
    cases sym
    case dollar => exact ((follows_consume .noVariable _).widen _).of_reads reads
    case leftQuote => exact ((follows_parts count rest).map _ _).of_reads reads
    case leftBrace => exact ((follows_block p).map _ _).of_reads reads
    case leftBracket =>
      exact ((follows_substitution (count + 1) rest).of_reads reads).inBrackets.map _ _
    case plus => exact signed .plus
    case minus => exact signed .minus
    case puts | expr | unset | set | times | divide | leftParen | rightParen =>
      exact follows_ok reads.tokens
    all_goals exact follows_reject _ _ List.suffix_rfl
  · obtain ⟨_, view⟩ := ends.view
    rw [view]
    exact follows_reject _ _ ends.tokens
  · rw [(breaks : c.view = _)]
    exact follows_fail breaks.tokens
termination_by 8 * c.workload

theorem follows_arguments (count : Nat) (c : Cursor) :
    Follows count c (arguments count c) (Grammar.arguments count c) := by
  rw [arguments, Grammar.arguments]
  rcases c.view_cases with ⟨t, rest, reads⟩ | ⟨t, here, ends⟩ | ⟨d, here, breaks⟩
  · obtain ⟨_, shorter, view⟩ := reads.view
    rw [view]
    dsimp only
    split
    · exact follows_ok List.suffix_rfl
    · exact (follows_word count .argument c).andThen fun first rest _ =>
        (follows_arguments count rest).map _ _
  · obtain ⟨_, view⟩ := ends.view
    rw [view]
    exact follows_ok ends.tokens
  · rw [(breaks : c.view = _)]
    exact follows_fail breaks.tokens
termination_by 8 * c.workload + 1

theorem follows_formula (count : Nat) (c : Cursor) :
    Follows count c (formula count c) (Grammar.formula count c) := by
  rw [formula, Grammar.formula]
  rcases c.view_cases with ⟨t, rest, reads⟩ | ⟨t, here, ends⟩ | ⟨d, here, breaks⟩
  · obtain ⟨_, shorter, view⟩ := reads.view
    rw [view]
    dsimp only
    split
    · next brace =>
      refine ((follows_block t.position).andThen fun body rest' _ => ?_).of_reads reads
      have smaller : (Cursor.ofExpression body.val).workload < c.workload :=
        workload_ofExpression_lt (brace ▸ shorter) body
      rw [(follows_chain .sum 0 ((Cursor.ofExpression body.val).withLog rest'.log)).same]
      dsimp only
      cases Grammar.chain .sum 0 ((Cursor.ofExpression body.val).withLog rest'.log) with
      | ok inner behind _ =>
        dsimp only
        cases behind.view with
        | finish t here same => exact follows_ok List.suffix_rfl
        | token t rest => exact follows_fail List.suffix_rfl
        | broken d here => exact follows_fail List.suffix_rfl
      | fail d here => exact follows_fail List.suffix_rfl
    · exact follows_chain .sum count c
  · obtain ⟨_, view⟩ := ends.view
    rw [view]
    exact follows_chain .sum count c
  · rw [(breaks : c.view = _)]
    exact follows_chain .sum count c
termination_by 8 * c.workload + 5

theorem follows_command (count : Nat) (c : Cursor) :
    Follows count c (command count c) (Grammar.command count c) := by
  rw [command, Grammar.command]
  rcases c.view_cases with ⟨⟨l, p⟩, rest, reads⟩ | ⟨t, here, ends⟩ | ⟨d, here, breaks⟩
  · obtain ⟨_, shorter, view⟩ := reads.view
    rw [view]
    rcases l with text | name | sym
    case number => exact follows_reject _ _ List.suffix_rfl
    case name => exact ((follows_arguments count rest).map _ _).of_reads reads
    cases sym
    case set =>
      exact ((follows_consume (.noTarget .set) _).andThen fun name rest _ =>
        (follows_word count .assigned rest).map _ _).of_reads reads
    case unset => exact ((follows_consume (.noTarget .unset) _).map _ _).of_reads reads
    case puts => exact ((follows_word count .printed rest).map _ _).of_reads reads
    case expr => exact ((follows_formula count rest).map _ _).of_reads reads
    case leftBrace => exact ((follows_block p).map _ _).of_reads reads
    all_goals exact follows_reject _ _ List.suffix_rfl
  · obtain ⟨_, view⟩ := ends.view
    rw [view]
    exact follows_reject _ _ ends.tokens
  · rw [(breaks : c.view = _)]
    exact follows_fail breaks.tokens
termination_by 8 * c.workload

end

/-- Outside of brackets a statement is read as the grammar says, and no bracket is open behind it. -/
theorem follows_statement (c : Cursor) :
    Follows 0 c (statement 0 c) (Grammar.statement c) := by
  rw [statement, Grammar.statement]
  exact (follows_command 0 c).andThen fun first rest _ =>
    (follows_endOfStatement first).andThen fun _ rest _ => follows_ok List.suffix_rfl

end Counted
end TinyTcl
