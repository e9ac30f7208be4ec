import TinyTcl.Proofs.Program.Counted

/-! Asking a parser again and again. A parser keeps what is left of its script, and how many brackets
are open, from one call to the next. Whatever the calls come to, no bracket is open between them, the
tokens that are left only get fewer, and the end stays the end (`Reader.calls_consistent`). -/
namespace TinyTcl

namespace Cursor

variable {c here : Cursor} {t : Token}

/-- The end is met again by whoever has seen it. -/
theorem Ends.again (h : c.Ends t here) : ∃ u there, here.Ends u there := by
  rcases ends_iff.mp h with ⟨⟨rest, tokens⟩, last, rfl⟩ | ⟨tokens, sound, -, rfl⟩
  · exact ⟨t, _, ends_of_tokens (c := c.announce) tokens last⟩
  · exact ⟨_, _, ends_of_nil tokens sound⟩

/-- Nothing stands in front of the end. -/
theorem Ends.skipSeparators (h : c.Ends t here) : c.skipSeparators = c :=
  skipSeparators_of_not_reads fun _ _ reads => reads.not_ends h

/-- A tail with less work is a shorter one. -/
theorem length_tokens_lt {c rest : Cursor} (tail : rest.tokens <:+ c.tokens)
    (less : rest.workload < c.workload) : rest.tokens.length < c.tokens.length := by
  refine Nat.lt_of_le_of_ne tail.length_le fun same => ?_
  have whole := tail.eq_of_length same
  unfold workload at less
  rw [whole] at less
  exact Nat.lt_irrefl _ less

/-- A statement outside of brackets is over behind a separator, or at the end of the script. -/
def Concluded (behind rest : Cursor) : Prop :=
  (∃ t, behind.Reads t rest ∧ t.lexeme.isSeparator = true) ∨ ∃ t, behind.Ends t rest

end Cursor

namespace Grammar

/-- Outside of brackets nothing but a separator and the end concludes a statement. -/
theorem concluded_of_endOfStatement {first : Command} {behind rest : Cursor}
    {within : rest.workload < behind.workload + 1}
    (h : endOfStatement 0 first behind = .ok () rest within) : behind.Concluded rest := by
  rcases behind.view_cases with ⟨t, next, reads⟩ | ⟨t, here, ends⟩ | ⟨d, here, breaks⟩
  · by_cases separates : t.lexeme.isSeparator = true
    · rw [endOfStatement_of_separator reads separates] at h
      cases h
      exact .inl ⟨t, reads, separates⟩
    · rw [endOfStatement_of_other reads (by simp [separates])] at h
      exact absurd h not_reject
  · rw [endOfStatement_of_ends ends] at h
    cases h
    exact .inr ⟨t, ends⟩
  · rw [endOfStatement_of_breaks breaks] at h
    cases h

end Grammar

/-- A parser that counts open brackets: a reader, and the count. -/
structure CountingReader where
  reader : Reader
  brackets : Nat

/-- The next command, or none at the end, and the parser behind it. -/
def CountingReader.next (p : CountingReader) :
    Except Diagnostic (Option Command) × CountingReader :=
  let start := p.reader.cursor.skipSeparators
  match start.view with
  | .finish _ here _ => (.ok none, ⟨{ p.reader with cursor := here }, p.brackets⟩)
  | .broken d here =>
    (.error (Reader.inScript p.reader.filename d), ⟨{ p.reader with cursor := here }, p.brackets⟩)
  | .token _ _ _ _ =>
    match Counted.statement p.brackets start with
    | (.ok command rest _, count) => (.ok (some command), ⟨{ p.reader with cursor := rest }, count⟩)
    | (.fail d here, count) =>
      (.error (Reader.inScript p.reader.filename d), ⟨{ p.reader with cursor := here }, count⟩)

/-- The parser behind `count` calls. -/
def CountingReader.after : (count : Nat) → CountingReader → CountingReader
  | 0, p => p
  | count + 1, p => after count p.next.2

namespace Reader

/-- The reader behind `count` calls. -/
def after : (count : Nat) → Reader → Reader
  | 0, r => r
  | count + 1, r => after count r.next.2

/-- The commands among several outcomes. -/
def delivered (outcomes : List (Except Diagnostic (Option Command))) : List Command :=
  outcomes.filterMap fun outcome => outcome.toOption.join

/-- What a call can come to, and what is left behind it. A command has been read as one outside of
brackets, up to where its statement is over. -/
inductive Call (r : Reader) : Except Diagnostic (Option Command) → Reader → Prop where
  | finish {t : Token} {here : Cursor} (ends : r.cursor.skipSeparators.Ends t here) :
    Call r (.ok none) { r with cursor := here }
  | command {command : Command} {behind rest : Cursor}
    {within : behind.workload < r.cursor.skipSeparators.workload}
    (read : Grammar.command 0 r.cursor.skipSeparators = .ok command behind within)
    (concluded : behind.Concluded rest) (shorter : rest.tokens.length < r.cursor.tokens.length) :
    Call r (.ok (some command))
      { r with cursor := rest.note (.parsed command.name command.position.line) }
  | fault {d : Diagnostic} {here : Cursor} (tail : here.tokens <:+ r.cursor.tokens) :
    Call r (.error (inScript r.filename d)) { r with cursor := here }

variable {r : Reader}

/-- Every call comes to one of these. -/
theorem call_next (r : Reader) : r.Call r.next.1 r.next.2 := by
  obtain ⟨c, filename⟩ := r
  have skipped := c.tokens_skipSeparators
  rcases c.skipSeparators.view_cases with ⟨t, rest, reads⟩ | ⟨t, here, ends⟩ | ⟨d, here, breaks⟩
  · have tail := (Counted.follows_statement c.skipSeparators).tail
    cases read : Grammar.statement c.skipSeparators with
    | ok command rest within =>
      rw [next_of_statement filename reads read]
      rw [read] at tail
      have shorter := Nat.lt_of_lt_of_le (Cursor.length_tokens_lt tail within) skipped.length_le
      rw [Grammar.statement] at read
      obtain ⟨first, behind, inside, first_read, read⟩ := Reply.andThen_eq_ok.mp read
      obtain ⟨_, rest, _, closed, read⟩ := Reply.andThen_eq_ok.mp read
      cases read
      exact .command first_read (Grammar.concluded_of_endOfStatement closed) shorter
    | fail d here =>
      rw [next_of_fail filename reads read]
      rw [read] at tail
      exact .fault (tail.trans skipped)
  · rw [next_of_ends filename ends]
    exact .finish ends
  · rw [next_of_breaks filename breaks]
    exact .fault (breaks.tokens.trans skipped)

/-- A parser outside of all brackets makes the calls of the reader, and is outside of all brackets
behind them. -/
theorem counting_next (r : Reader) : CountingReader.next ⟨r, 0⟩ = (r.next.1, ⟨r.next.2, 0⟩) := by
  rw [CountingReader.next, Reader.next]
  dsimp only
  cases r.cursor.skipSeparators.view with
  | finish t here same => rfl
  | broken d here => rfl
  | token t rest read shorter =>
    dsimp only
    rw [(Counted.follows_statement r.cursor.skipSeparators).same]
    cases Grammar.statement r.cursor.skipSeparators <;> rfl

private theorem counting_after (r : Reader) (count : Nat) :
    CountingReader.after count ⟨r, 0⟩ = ⟨r.after count, 0⟩ := by
  induction count generalizing r with
  | zero => rfl
  | succ count ih => rw [CountingReader.after, counting_next, ih, after]

/-- At the end a call finds the end, and so does the call behind it. -/
theorem next_of_finished (h : r.next.1 = .ok none) : r.next.2.next.1 = .ok none := by
  have call := r.call_next
  rw [h] at call
  generalize r.next.2 = later at call
  cases call with
  | @finish t here ends =>
    obtain ⟨u, there, again⟩ := ends.again
    have start : here.skipSeparators.Ends u there := by
      rw [again.skipSeparators]
      exact again
    rw [next_of_ends _ start]

private theorem next_after_of_finished (h : r.next.1 = .ok none) (later : Nat) :
    (r.after later).next.1 = .ok none := by
  induction later generalizing r with
  | zero => exact h
  | succ later ih => exact ih (next_of_finished h)

/-- Each command takes a token at least, and no call gives one back. -/
theorem length_delivered_add_le (r : Reader) (count : Nat) :
    (delivered (r.nexts count)).length + (r.after count).cursor.tokens.length ≤
      r.cursor.tokens.length := by
  induction count generalizing r with
  | zero => simp [nexts, delivered, after]
  | succ count ih =>
    have later := ih r.next.2
    have call := r.call_next
    rw [nexts, after]
    generalize r.next = made at call later ⊢
    obtain ⟨outcome, left⟩ := made
    cases call with
    | @finish t here ends =>
      have fewer := (ends.tokens.trans r.cursor.tokens_skipSeparators).length_le
      exact Nat.le_trans later fewer
    | command read concluded shorter =>
      have fewer := Nat.lt_of_le_of_lt later shorter
      change (delivered (nexts count _)).length + 1 + _ ≤ _
      omega
    | fault tail => exact Nat.le_trans later tail.length_le

private theorem length_nexts (r : Reader) (count : Nat) : (r.nexts count).length = count := by
  induction count generalizing r with
  | zero => rfl
  | succ count ih => rw [nexts, List.length_cons, ih]

/-- A closing bracket behind a command is refused outside of brackets. -/
theorem next_of_rightBracket {command : Command} {behind rest : Cursor} {t : Token}
    {within : behind.workload < r.cursor.skipSeparators.workload}
    (read : Grammar.command 0 r.cursor.skipSeparators = .ok command behind within)
    (reads : behind.Reads t rest) (closes : t.lexeme = .symbol .rightBracket) :
    r.next.1 = .error (inScript r.filename
      (.ofCause (.grammar (.afterCommand t.lexeme command.name)) t.position)) := by
  obtain ⟨u, next, starts⟩ := Grammar.exists_reads_of_command read
  have other : ¬ (t.lexeme.isSeparator = true ∨ 0 < 0 ∧ t.lexeme = .symbol .rightBracket) := by
    rw [closes]
    decide
  have refused : Grammar.statement r.cursor.skipSeparators =
      .fail (.ofCause (.grammar (.afterCommand t.lexeme command.name)) t.position) behind := by
    rw [Grammar.statement, read]
    simp only [Reply.andThen]
    rw [Grammar.endOfStatement_of_other reads other, reject, Cursor.leave_zero]
  rw [next_of_fail r.filename starts refused]

/-- **A parser stays consistent.** Ask a parser for a list of tokens, or for a text, again and again,
whatever faults the calls before have met. A parser that counts its open brackets counts none between
two calls, and so gives what the reader gives. A command that is given has been read as one outside
of brackets, and its statement was over behind a separator or at the end; where a closing bracket
stands behind it instead, the call is refused for that bracket. Once a call has found the end, all
calls behind it do. Each call comes to an outcome, and all calls together give no more commands than
tokens of the stream have been taken. -/
theorem calls_consistent (r : Reader) (count : Nat) :
    let q := r.after count
    let start := q.cursor.skipSeparators
    (CountingReader.after count ⟨r, 0⟩ = ⟨q, 0⟩ ∧
        CountingReader.next ⟨q, 0⟩ = (q.next.1, ⟨q.next.2, 0⟩)) ∧
      (∀ command, q.next.1 = .ok (some command) → ∃ behind within rest,
        Grammar.command 0 start = .ok command behind within ∧ behind.Concluded rest ∧
          q.next.2.cursor.tokens = rest.tokens) ∧
      (∀ command behind within t rest, Grammar.command 0 start = .ok command behind within →
        behind.Reads t rest → t.lexeme = .symbol .rightBracket →
          q.next.1 = .error (inScript q.filename
            (.ofCause (.grammar (.afterCommand t.lexeme command.name)) t.position))) ∧
      (q.next.1 = .ok none → ∀ later, (q.after later).next.1 = .ok none) ∧
      (r.nexts count).length = count ∧
      (delivered (r.nexts count)).length + q.cursor.tokens.length ≤ r.cursor.tokens.length := by
  intro q start
  refine ⟨⟨counting_after r count, counting_next q⟩, fun command given => ?_,
    fun _ _ _ _ _ => next_of_rightBracket, next_after_of_finished, length_nexts r count,
    length_delivered_add_le r count⟩
  have call := q.call_next
  rw [given] at call
  generalize q.next.2 = left at call ⊢
  cases call with
  | command read concluded shorter => exact ⟨_, _, _, read, concluded, rfl⟩

/-- A fault in brackets, a command behind it, and the end. -/
theorem calls_consistent_bracket :
    let r := ofText "puts [set ]\nunset a".toList none .start
    CountingReader.after 2 ⟨r, 0⟩ = ⟨r.after 2, 0⟩ ∧
      (delivered (r.nexts 2)).map Command.name = ["unset".toList] ∧
      (r.after 2).next.1 = .ok none ∧ ∀ later, ((r.after 2).after later).next.1 = .ok none := by
  intro r
  obtain ⟨⟨counted, -⟩, -, -, stays, -⟩ := calls_consistent r 2
  have finished : (r.after 2).next.1 = .ok none := by
    have told : (r.after 2).next.1.toOption.map Option.isNone = some true := by decide +kernel
    revert told
    rcases (r.after 2).next.1 with d | _ | command
    · nofun
    · exact fun _ => rfl
    · nofun
  exact ⟨counted, by decide +kernel, finished, stays finished⟩

end Reader
end TinyTcl
