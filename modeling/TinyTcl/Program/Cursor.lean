import TinyTcl.Program.Basic
import TinyTcl.Token.Scan

/-! Reading tokens one after another. A cursor stands in front of the tokens that are not read yet.
At an end of file it stays for good; where the tokens run out without one, it sees an end of file on
the line of the token read last. A lexical fault behind the tokens is met once.

Reading is bounded by `workload`, which counts tokens, and a block by the tokens its body can hold:
taking a token lowers it (`Cursor.View`), and the tokens of a block's text stay below that of the
block (`workload_ofText_le`). -/
namespace TinyTcl

/-- Twice the length of the block body that is read next. -/
def bodyRoom : List Token → Nat
  | ⟨.name body, _⟩ :: _ => 2 * body.length
  | _ => 0

/-- What a token adds to the work because a block starts at it. -/
def blockRoom (t : Lexeme) (rest : List Token) : Nat :=
  if t = .symbol .leftBrace then 1 + bodyRoom rest else 0

/-- The number of tokens in a list and in the bodies of its blocks, counted from above. -/
def workload : List Token → Nat
  | [] => 0
  | t :: rest => 1 + blockRoom t.lexeme rest + workload rest

/-- The tokens that are still to be read (the state of `Parser`). -/
structure Cursor where
  tokens : List Token
  /-- The lexical fault behind the tokens. -/
  fault : Option Diagnostic
  /-- The line of the token read last, or 1. -/
  line : Int
  /-- The note to take when the end of the text is seen. -/
  announcement : Option Event
  /-- The notes taken so far. -/
  log : List Event

namespace Cursor

/-- The start of a list of tokens (`Parser`). -/
def ofTokens (tokens : List Token) : Cursor := ⟨tokens, none, 1, none, []⟩

/-- The start of a stream; `size` and `last` are the number of tokens and the last line of the text
that the stream comes from. -/
def ofStream (s : TokenStream) (size : Nat) (last : Int) : Cursor :=
  ⟨s.tokens, s.fault, 1, some (.lexed size last), []⟩

/-- The start of a text (`Parser.from_source`). -/
def ofText (t : Text) (start : Position) : Cursor :=
  let stream := TokenStream.ofText t start
  ofStream stream stream.tokens.length (start.after t).line

/-- The start of an expression in braces, where ends of lines do not count (the inner parser of
`Parser.expr_argument`). -/
def ofExpression (body : Block) : Cursor :=
  let stream := TokenStream.ofText body.text body.position
  ofStream stream.joinLines stream.tokens.length (body.position.after body.text).line

/-- The work that is left. -/
def workload (c : Cursor) : Nat := TinyTcl.workload c.tokens

/-- The same cursor after the end of the text was seen. -/
def announce (c : Cursor) : Cursor :=
  { c with announcement := none, log := c.log ++ c.announcement.toList }

/-- What stands at a cursor. -/
inductive View (c : Cursor) where
  /-- A token, and the cursor behind it. -/
  | token (t : Token) (rest : Cursor) (read : c.tokens = t :: rest.tokens)
      (shorter : rest.workload + blockRoom t.lexeme rest.tokens < c.workload)
  /-- The end, as a token, and the cursor that has seen it. -/
  | finish (t : Token) (here : Cursor) (same : here.workload = c.workload)
  /-- A lexical fault, and the cursor that has met it. -/
  | broken (d : Diagnostic) (here : Cursor)

/-- Looks at what stands at a cursor (`Parser.peek`). -/
def view (c : Cursor) : View c :=
  match h : c.tokens with
  | [] =>
    match c.fault with
    | some d => .broken d { c with fault := none }
    | none => .finish (.ofSymbol .endOfFile ⟨c.line, 0⟩) c rfl
  | t :: rest =>
    if t.lexeme = .symbol .endOfFile then .finish t c.announce rfl
    else .token t { c with tokens := rest, line := t.position.line } h (by
      simp only [workload, h, TinyTcl.workload]
      omega)

/-- The cursor behind the separators that stand at a cursor (the start of `Parser.next_command`). -/
def skipSeparators (c : Cursor) : Cursor :=
  match c.view with
  | .token t rest _ _ => if t.lexeme.isSeparator then rest.skipSeparators else c
  | _ => c
termination_by c.workload

theorem workload_skipSeparators_le (c : Cursor) : c.skipSeparators.workload ≤ c.workload := by
  fun_induction skipSeparators c <;> omega

/-- The cursor behind the bracket that closes the outermost of `depth` open ones, or at the end of
the tokens (`Parser.skip_substitution`). A lexical fault on the way is met there. -/
def leave (depth : Nat) (c : Cursor) : Option Diagnostic × Cursor :=
  match depth with
  | 0 => (none, c)
  | depth + 1 =>
    match c.view with
    | .token t rest _ _ =>
      match t.lexeme with
      | .symbol .leftBracket => rest.leave (depth + 2)
      | .symbol .rightBracket => rest.leave depth
      | _ => rest.leave (depth + 1)
    | .finish _ here _ => (none, here)
    | .broken d here => (some d, here)
termination_by c.workload

/-- The same cursor with one more note. -/
def note (c : Cursor) (e : Event) : Cursor := { c with log := c.log ++ [e] }

@[simp] theorem workload_note (c : Cursor) (e : Event) : (c.note e).workload = c.workload := rfl

/-- The same cursor with other notes. -/
def withLog (c : Cursor) (log : List Event) : Cursor := { c with log }

@[simp] theorem workload_withLog (c : Cursor) (log : List Event) :
    (c.withLog log).workload = c.workload := rfl

end Cursor

/-! ### The work in a text -/

/-- Tokens that open no block add one each, or nothing where they are left out. -/
theorem workload_filter_append_le (keep : Token → Bool) (tail : List Token) (tokens : List Token)
    (plain : ∀ t ∈ tokens, t.lexeme ≠ .symbol .leftBrace) :
    workload (tokens.filter keep ++ tail) ≤ tokens.length + workload tail := by
  induction tokens with
  | nil => simp
  | cons t rest ih =>
    have others := ih fun t inside => plain t (List.mem_cons_of_mem _ inside)
    have first := plain t List.mem_cons_self
    by_cases kept : keep t = true
    · simp only [List.filter_cons_of_pos kept, List.cons_append, workload, blockRoom, first,
        if_false, List.length_cons]
      omega
    · simp only [List.filter_cons_of_neg kept, List.length_cons]
      omega

/-- The tokens of a text make at most twice as much work as it has characters; also where some
tokens are left out, as long as names are kept. What follows them must not read as the body of a
block. -/
theorem workload_scan_le (keep : Token → Bool) (keeps : ∀ b p, keep ⟨.name b, p⟩ = true)
    (t : Text) (tail : List Token) (apart : bodyRoom tail = 0) (inside : List Enclosure)
    (fresh : Bool) (place : Nat) (p : Position) :
    workload ((Piece.tokensFrom p (scan inside fresh place t).pieces).filter keep ++ tail)
      ≤ 2 * t.length + workload tail := by
  fun_induction scan inside fresh place t generalizing p with
  | case1 | case2 | case3 => simp [Piece.tokensFrom]
  | case4 inside fresh place c rest pieces inside' fresh' rest' step ih =>
    have later := ih (p.after (Piece.sources pieces))
    have whole : (Piece.sources pieces).length + rest'.length = (c :: rest).length := by
      rw [← (Scan.sources_step step).1, List.length_append]
    simp only [Scanned.behind, Piece.tokensFrom_append, List.filter_append, List.append_assoc]
    generalize (Piece.tokensFrom (p.after (Piece.sources pieces)) _).filter keep ++ tail = others
      at later ⊢
    rcases Scan.isPlain_of_step step with plain | ⟨body, rfl⟩
    · have here := workload_filter_append_le keep others _
        fun _ => Piece.ne_leftBrace_of_mem_tokensFrom (p := p) plain
      have few := Piece.length_tokensFrom_le p pieces
      have short := Piece.length_le_sources plain
      omega
    · simp only [Piece.sources_cons, Piece.source_token, Piece.sources_nil, List.length_append,
        List.length_cons, List.length_nil] at whole
      have closing := workload_filter_append_le keep others
        [⟨.symbol .rightBrace, (p.after ['{']).after body⟩] (by simp)
      simp only [List.length_cons, List.length_nil] at closing
      simp only [Piece.tokensFrom]
      generalize (p.after ['{']).after body = q at closing ⊢
      rw [List.filter_cons, List.filter_cons_of_pos (keeps _ _)]
      generalize [Token.mk (.symbol .rightBrace) q].filter keep = last at closing ⊢
      split <;> simp [workload, blockRoom, bodyRoom] <;> omega
  | case5 inside fresh place c rest pieces fault place' step =>
    rcases Scan.pieces_of_stop step with rfl | ⟨rfl, _⟩
    · simp [Piece.tokensFrom]
    · simp only [Piece.tokensFrom, List.filter_cons, List.filter_nil]
      split
      · simp only [List.cons_append, List.nil_append, workload, blockRoom, apart, if_true,
          List.length_cons]
        omega
      · simp only [List.nil_append]
        omega

private theorem workload_stream_le (keep : Token → Bool) (keeps : ∀ b p, keep ⟨.name b, p⟩ = true)
    (t : Text) (p : Position) :
    workload ((TokenStream.ofText t p).tokens.filter keep) ≤ 2 * t.length + 1 := by
  unfold TokenStream.ofText Scanned.ofText
  dsimp only
  split
  · have bound := workload_scan_le keep keeps t
      ([Token.ofSymbol .endOfFile (p.after t)].filter keep)
      (by simp only [List.filter_cons, List.filter_nil]; split <;> rfl) [] true 0 p
    have one : workload ([Token.ofSymbol .endOfFile (p.after t)].filter keep) ≤ 1 := by
      simp only [List.filter_cons, List.filter_nil]
      split <;> simp [workload, blockRoom, Token.ofSymbol]
    simp only [List.filter_append]
    omega
  · have bound := workload_scan_le keep keeps t [] rfl [] true 0 p
    simp only [List.append_nil, workload] at bound
    exact Nat.le_succ_of_le bound

namespace Cursor

/-- Reading a text is no more work than twice its length, and one for its end. -/
theorem workload_ofText_le (t : Text) (p : Position) :
    (ofText t p).workload ≤ 2 * t.length + 1 := by
  have bound := workload_stream_le (fun _ => true) (fun _ _ => rfl) t p
  rwa [List.filter_eq_self.mpr fun _ _ => rfl] at bound

/-- Reading a braced expression is no more work than twice its length, and one for its end. -/
theorem workload_ofExpression_le (body : Block) :
    (ofExpression body).workload ≤ 2 * body.text.length + 1 :=
  workload_stream_le _ (fun _ _ => rfl) body.text body.position

end Cursor

/-! ### Replies

The outcome of reading something at a cursor. Success bounds the work that is left, which is what
lets the readers of the grammar call one another; failure keeps the cursor too, because a reader can
be asked to go on after it. -/

/-- What was read and the cursor behind it, or a fault and the cursor where reading stopped. -/
inductive Reply (α : Type) (limit : Nat) where
  | ok (value : α) (rest : Cursor) (within : rest.workload < limit)
  | fail (fault : Diagnostic) (here : Cursor)

namespace Reply

variable {α β : Type} {n m : Nat}

/-- Reads on behind what was read. -/
def andThen (r : Reply α n) (next : α → (rest : Cursor) → rest.workload < n → Reply β m) :
    Reply β m :=
  match r with
  | ok value rest within => next value rest within
  | fail fault here => fail fault here

/-- The same outcome under a wider bound. -/
def widen (r : Reply α n) (h : n ≤ m) : Reply α m :=
  match r with
  | ok value rest within => ok value rest (Nat.lt_of_lt_of_le within h)
  | fail fault here => fail fault here

/-- The same outcome with another form of what was read, under a wider bound. -/
def map (r : Reply α n) (f : α → β) (h : n ≤ m) : Reply β m :=
  match r with
  | ok value rest within => ok (f value) rest (Nat.lt_of_lt_of_le within h)
  | fail fault here => fail fault here

end Reply

/-- Refuses a token (`Parser.error`). Inside `depth` brackets the cursor first leaves them all, and
a lexical fault met on the way is reported instead. -/
def reject {α : Type} {n : Nat} (depth : Nat) (fault : GrammarFault) (t : Token) (here : Cursor) :
    Reply α n :=
  match here.leave depth with
  | (none, after) => .fail (.ofCause (.grammar fault) t.position) after
  | (some lexical, after) => .fail lexical after

end TinyTcl
