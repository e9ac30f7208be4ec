import TinyTcl.Proofs.Program.Placed

/-! The notes of reading. Reading takes a note of each text that it comes to the end of and of each
statement, and none of a command that is carried out; so in the log of a run such notes tell what was
carried out. -/
namespace TinyTcl

/-- Whether a note tells of a command that is carried out under tracing. -/
def Event.isTraced : Event → Bool
  | .traced _ _ _ => true
  | _ => false

/-- No note tells of a command that is carried out. -/
def Untraced (events : List Event) : Prop := ∀ e ∈ events, e.isTraced = false

private theorem untraced_append {events others : List Event} :
    Untraced (events ++ others) ↔ Untraced events ∧ Untraced others := List.forall_mem_append

theorem Untraced.filter_eq_nil {events : List Event} (h : Untraced events) :
    events.filter Event.isTraced = [] :=
  List.filter_eq_nil_iff.mpr fun e inside => by simp [h e inside]

/-- A cursor has taken, and is to take, no note of a command that is carried out. -/
structure Cursor.Quiet (c : Cursor) : Prop where
  log : Untraced c.log
  announcement : Untraced c.announcement.toList

namespace Cursor.Quiet

variable {c inner rest here : Cursor} {t : Token} {d : Diagnostic}

private theorem ofText (t : Text) (start : Position) : (Cursor.ofText t start).Quiet :=
  ⟨by simp [Untraced, Cursor.ofText, ofStream], by
    simp [Untraced, Cursor.ofText, ofStream, Event.isTraced]⟩

theorem ofExpression (body : Block) {log : List Event} (quiet : Untraced log) :
    ((Cursor.ofExpression body).withLog log).Quiet :=
  ⟨quiet, by simp [Untraced, Cursor.ofExpression, ofStream, withLog, Event.isTraced]⟩

private theorem reads (h : c.Quiet) (k : c.Reads t rest) : rest.Quiet := by
  obtain ⟨_, _, same⟩ := reads_iff.mp k
  rw [same]
  exact ⟨h.log, h.announcement⟩

private theorem ends (h : c.Quiet) (k : c.Ends t here) : here.Quiet := by
  rcases ends_iff.mp k with ⟨_, _, rfl⟩ | ⟨_, _, _, rfl⟩
  · exact ⟨untraced_append.mpr ⟨h.log, h.announcement⟩, by simp [Untraced, announce]⟩
  · exact h

private theorem breaks (h : c.Quiet) (k : c.Breaks d here) : here.Quiet := by
  obtain ⟨_, _, rfl⟩ := breaks_iff.mp k
  exact ⟨h.log, h.announcement⟩

private theorem withLog (h : c.Quiet) (k : inner.Quiet) : (c.withLog inner.log).Quiet :=
  ⟨k.log, h.announcement⟩

private theorem leave (h : c.Quiet) (depth : Nat) : (c.leave depth).2.Quiet := by
  fun_induction Cursor.leave depth c with
  | case1 => exact h
  | case2 c depth t rest _ _ view _ ih => exact ih (h.reads ⟨_, _, view⟩)
  | case3 c depth t rest _ _ view _ ih => exact ih (h.reads ⟨_, _, view⟩)
  | case4 c depth t rest _ _ view _ _ ih => exact ih (h.reads ⟨_, _, view⟩)
  | case5 c depth t here same view => exact h.ends ⟨same, view⟩
  | case6 c depth d here view => exact h.breaks view

private theorem refusal (h : c.Quiet) (depth : Nat) (f : GrammarFault) (t : Token) :
    (TinyTcl.refusal depth f t c).2.Quiet := by
  have left := h.leave depth
  unfold TinyTcl.refusal
  revert left
  rcases c.leave depth with ⟨_ | d, after⟩ <;> exact id

end Cursor.Quiet

/-- Reading does what it does, and stays quiet. -/
theorem synchronous_quiet :
    Synchronous Eq (fun _ c c' => c = c' ∧ c.Quiet) False Eq (fun c c' => c = c' ∧ c.Quiet) where
  column := by
    rintro p _ rfl
    rfl
  reads h reads := by
    obtain ⟨rfl, quiet⟩ := h
    exact ⟨_, _, reads, ⟨rfl, rfl⟩, rfl, quiet.reads reads⟩
  ends h ends := by
    obtain ⟨rfl, quiet⟩ := h
    exact ⟨_, _, ends, rfl, quiet.ends ends⟩
  broken h breaks := by
    obtain ⟨rfl, quiet⟩ := h
    exact ⟨_, _, breaks, .inr ⟨rfl, rfl, quiet.breaks breaks⟩⟩
  refuse {s c c' here here' t t' f} h shows shows' same := by
    obtain ⟨rfl, quiet⟩ := h
    obtain ⟨rfl, rfl⟩ := shows.unique shows'
    have seen : here'.Quiet := by
      rcases shows with ⟨_, rfl⟩ | ends
      · exact quiet
      · exact quiet.ends ends
    rw [same]
    exact .inr ⟨rfl, rfl, seen.refusal _ _ _⟩
  braces _ _ _ _ _ _ same h := by
    obtain ⟨rfl, quiet⟩ := h
    rw [same.eq]
    exact ⟨rfl, .ofExpression _ quiet.log⟩
  surplus h inner _ _ alike := by
    obtain ⟨rfl, quiet⟩ := h
    obtain ⟨rfl, within⟩ := inner
    rw [alike.eq]
    exact .inr ⟨rfl, rfl, quiet.withLog within⟩
  withLog h inner := by
    obtain ⟨rfl, quiet⟩ := h
    obtain ⟨rfl, within⟩ := inner
    exact ⟨rfl, quiet.withLog within⟩
  after h inner := by
    obtain ⟨rfl, quiet⟩ := h
    obtain ⟨rfl, within⟩ := inner
    exact ⟨rfl, quiet.withLog within⟩

namespace Grammar

/-- A reply whose cursor is quiet, be it behind what was read or behind a failure. -/
def QuietReply {α : Type} {n : Nat} : Reply α n → Prop
  | .ok _ rest _ => rest.Quiet
  | .fail _ here => here.Quiet

private theorem quiet_statement {c : Cursor} (quiet : c.Quiet) : QuietReply (statement c) := by
  have laws := synchronous_quiet.lawful
  have first := laws.command (s := .start false) ⟨rfl, quiet⟩ trivial
  change Simulation.Agree _ _ _ (command 0 c) (command 0 c) at first
  rw [statement]
  cases read : command 0 c with
  | fail d here =>
    rw [read] at first
    obtain ⟨_, _, same, _, _, quiet⟩ := first.resolve_left id
    exact quiet
  | ok first' rest within =>
    rw [read] at first
    obtain ⟨_, _, quiet⟩ := first
    have last := laws.endOfStatement (s := .start false) (d := first') (e := first') ⟨rfl, quiet⟩
      trivial rfl
    change Simulation.Agree _ _ _ (endOfStatement 0 first' rest)
      (endOfStatement 0 first' rest) at last
    simp only [Reply.andThen]
    cases closed : endOfStatement 0 first' rest with
    | fail d here =>
      rw [closed] at last
      obtain ⟨_, _, same, _, _, quiet⟩ := last.resolve_left id
      exact quiet
    | ok _ behind within =>
      rw [closed] at last
      obtain ⟨_, _, quiet⟩ := last
      exact ⟨untraced_append.mpr ⟨quiet.log, by simp [Untraced, Event.isTraced]⟩,
        quiet.announcement⟩

/-- Reading a text takes no note of a command that is carried out. -/
theorem untraced_program {c : Cursor} (quiet : c.Quiet) : Untraced (program c).notes := by
  induction work : c.workload using Nat.strongRecOn generalizing c with
  | ind size ih =>
    obtain ⟨_, start⟩ := synchronous_quiet.skipSeparators (s := .start false) ⟨rfl, quiet⟩
    rw [program]
    rcases c.skipSeparators.view_cases with ⟨t, rest, reads⟩ | ⟨t, here, ends⟩ | ⟨d, here, breaks⟩
    · obtain ⟨_, _, view⟩ := reads.view
      have read := quiet_statement start
      rw [view]
      cases h : statement c.skipSeparators with
      | ok command behind within =>
        rw [h] at read
        have later : behind.Quiet := read
        have emptied : (behind.withLog []).Quiet := ⟨by simp [Untraced, Cursor.withLog],
          later.announcement⟩
        have less : (behind.withLog []).workload < size :=
          work ▸ Nat.lt_of_lt_of_le within c.workload_skipSeparators_le
        exact untraced_append.mpr ⟨later.log, ih _ less emptied rfl⟩
      | fail d here =>
        rw [h] at read
        exact Cursor.Quiet.log read
    · obtain ⟨_, view⟩ := ends.view
      rw [view]
      exact (start.ends ends).log
    · rw [(breaks : c.skipSeparators.view = _)]
      exact (start.breaks breaks).log

end Grammar

mutual

/-- The notes of reading the blocks in an operand tell of no command that is carried out. -/
def Expr.Quiet : Expr → Prop
  | .number _ _ | .word _ _ | .reference _ _ => True
  | .quoted parts _ => Expr.AllQuiet parts
  | .substitution commands _ => Command.AllQuiet commands
  | .signed _ _ operand | .group operand => operand.Quiet
  | .binary left _ _ right => left.Quiet ∧ right.Quiet

/-- This holds of all of some operands. -/
def Expr.AllQuiet : List Expr → Prop
  | [] => True
  | first :: rest => first.Quiet ∧ Expr.AllQuiet rest

/-- This holds of the blocks in a command; the words behind an unknown name are never looked at. -/
def Command.Quiet : Command → Prop
  | .set _ _ value | .puts _ value | .expr _ value => value.Quiet
  | .unset _ _ | .invoke _ _ _ => True
  | .block _ _ program => program.Quiet

/-- This holds of all of some commands. -/
def Command.AllQuiet : List Command → Prop
  | [] => True
  | first :: rest => first.Quiet ∧ Command.AllQuiet rest

/-- The notes of reading a text and the blocks in it tell of no command that is carried out. -/
def Program.Quiet : Program → Prop
  | .finish notes | .fault notes _ => Untraced notes
  | .step notes command rest => Untraced notes ∧ command.Quiet ∧ rest.Quiet

end

mutual

theorem Expr.quiet : (e : Expr) → ∀ {ts : List Token}, Expr.Written e ts → e.Quiet
  | .number _ _, _, _ | .word _ _, _, _ | .reference _ _, _, _ => by
    unfold Expr.Quiet
    trivial
  | .quoted parts _, _, written => by
    cases written with
    | quoted _ _ all => exact Expr.allQuiet parts all
  | .substitution commands _, _, written => by
    cases written with
    | substitution _ _ row => exact Command.allQuiet commands row
  | .signed _ _ operand, _, written => by
    cases written with
    | signed _ _ inner => exact operand.quiet inner
  | .binary left _ _ right, _, written => by
    cases written with
    | binary _ _ before behind => exact ⟨left.quiet before, right.quiet behind⟩
  | .group inner, _, written => by
    cases written with
    | group _ _ content => exact inner.quiet content

theorem Expr.allQuiet : (es : List Expr) → ∀ {ts : List Token}, Expr.AllWritten es ts →
    Expr.AllQuiet es
  | [], _, _ => trivial
  | first :: rest, _, written => by
    cases written with
    | cons here others => exact ⟨first.quiet here, Expr.allQuiet rest others⟩

theorem Command.quiet : (c : Command) → ∀ {ts : List Token}, Command.Written c ts → c.Quiet
  | .set _ _ value, _, written => by
    cases written with
    | set _ _ _ operand => exact value.quiet operand
  | .unset _ _, _, _ | .invoke _ _ _, _, _ => trivial
  | .puts _ value, _, written => by
    cases written with
    | puts _ operand => exact value.quiet operand
  | .expr _ operand, _, written => by
    cases written with
    | expr _ plain _ => exact operand.quiet plain
    | bracedExpr _ _ _ _ _ _ _ inner => exact operand.quiet inner
  | .block _ body program, _, written => by
    obtain ⟨same, _⟩ := Command.written_block written
    obtain ⟨ts, _, _, row, _⟩ := Grammar.sound_program (nested_ofText body.text body.position)
    have notes := Grammar.untraced_program (Cursor.Quiet.ofText body.text body.position)
    rw [← same] at row notes
    exact program.quiet row notes

theorem Command.allQuiet : (cs : List Command) → ∀ {ts : List Token}, Command.Sequence cs ts →
    Command.AllQuiet cs
  | [], _, _ => trivial
  | first :: rest, _, row => by
    obtain ⟨_, _, _, _, _, written, others⟩ := row.exists_first
    exact ⟨first.quiet written, Command.allQuiet rest others⟩

theorem Program.quiet : (p : Program) → ∀ {ts : List Token}, Command.Sequence p.delivery.1 ts →
    Untraced p.notes → p.Quiet
  | .finish _, _, _, notes | .fault _ _, _, _, notes => notes
  | .step _ command rest, _, row, notes => by
    obtain ⟨_, _, _, _, _, written, others⟩ := Command.Sequence.exists_first row
    obtain ⟨here, behind⟩ := untraced_append.mp notes
    exact ⟨here, command.quiet written, rest.quiet others behind⟩

end

/-- No note that reading a script takes, down to its innermost block, tells of a command that is
carried out. -/
theorem quiet_program (source : Text) (start : Position) :
    (Grammar.program (.ofText source start)).Quiet := by
  obtain ⟨_, _, _, row, _⟩ := Grammar.sound_program (nested_ofText source start)
  exact Program.quiet _ row (Grammar.untraced_program (Cursor.Quiet.ofText source start))

end TinyTcl
