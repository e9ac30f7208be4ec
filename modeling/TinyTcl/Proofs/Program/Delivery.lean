import TinyTcl.Program.Reader
import TinyTcl.Proofs.Program.Synchronous

/-! What a reader delivers does not depend on how it is asked. A program is read statement by
statement with an empty log each time, a reader goes on with the log it has; no reader of the
grammar looks at the log, or at what was read before (`abreast`), so what is delivered depends on
the tokens and the fault ahead alone (`Reader.nexts_of_sameRest`). Asking a reader again and again
gives the commands of the program in order, and then its end or its fault
(`Reader.delivers_program`). -/
namespace TinyTcl

/-- Cursors with the same tokens and the same fault ahead. -/
structure Cursor.SameRest (c c' : Cursor) : Prop where
  tokens : c'.tokens = c.tokens
  fault : c'.fault = c.fault

/-- Cursors that cannot be told apart by reading on: the line of what was read shows only where the
tokens run out. -/
structure Cursor.Abreast (c c' : Cursor) : Prop extends c.SameRest c' where
  line : c.tokens = [] → c.fault = none → c'.line = c.line

namespace Cursor.Abreast

variable {c c' rest here : Cursor} {t : Token} {d : Diagnostic}

theorem refl (c : Cursor) : c.Abreast c := ⟨⟨rfl, rfl⟩, fun _ _ => rfl⟩

theorem withLog (h : c.Abreast c') (log log' : List Event) :
    (c.withLog log).Abreast (c'.withLog log') :=
  ⟨⟨h.tokens, h.fault⟩, h.line⟩

theorem reads (h : c.Abreast c') (k : c.Reads t rest) :
    ∃ rest', c'.Reads t rest' ∧ rest.Abreast rest' := by
  obtain ⟨tokens, other, same⟩ := reads_iff.mp k
  have reads' := reads_of_tokens (h.tokens.trans tokens) other
  refine ⟨_, reads', ?_⟩
  rw [same]
  exact ⟨⟨rfl, h.fault⟩, fun _ _ => rfl⟩

theorem ends (h : c.Abreast c') (k : c.Ends t here) :
    ∃ here', c'.Ends t here' ∧ here.Abreast here' := by
  rcases ends_iff.mp k with ⟨⟨rest, tokens⟩, last, rfl⟩ | ⟨tokens, sound, rfl, rfl⟩
  · exact ⟨_, ends_of_tokens (h.tokens.trans tokens) last, ⟨h.tokens, h.fault⟩, h.line⟩
  · rw [← h.line tokens sound]
    exact ⟨_, ends_of_nil (h.tokens.trans tokens) (h.fault.trans sound), h⟩

theorem breaks (h : c.Abreast c') (k : c.Breaks d here) :
    ∃ here', c'.Breaks d here' ∧ here.SameRest here' := by
  obtain ⟨tokens, fault, rfl⟩ := breaks_iff.mp k
  exact ⟨_, breaks_of_nil (h.tokens.trans tokens) (h.fault.trans fault), h.tokens, rfl⟩

theorem shows (h : c.Abreast c') (k : c.Shows t here) :
    ∃ here', c'.Shows t here' ∧ here.Abreast here' := by
  rcases k with ⟨⟨rest, reads⟩, rfl⟩ | ends
  · obtain ⟨rest', reads', _⟩ := h.reads reads
    exact ⟨c', reads'.shows, h⟩
  · obtain ⟨here', ends', same⟩ := h.ends ends
    exact ⟨here', .inr ends', same⟩

private theorem leave (h : c.Abreast c') (depth : Nat) :
    (c'.leave depth).1 = (c.leave depth).1 ∧ (c.leave depth).2.SameRest (c'.leave depth).2 := by
  induction work : c.workload using Nat.strongRecOn generalizing c c' depth with
  | ind size ih =>
    cases depth with
    | zero => simpa using h.toSameRest
    | succ depth =>
      rcases c.view_cases with ⟨t, rest, reads⟩ | ⟨t, here, ends⟩ | ⟨d, here, breaks⟩
      · obtain ⟨rest', reads', same⟩ := h.reads reads
        have less : rest.workload < size := work ▸ reads.shorter
        by_cases opens : t.lexeme = .symbol .leftBracket
        · rw [leave_of_leftBracket reads opens, leave_of_leftBracket reads' opens]
          exact ih _ less same _ rfl
        · by_cases closes : t.lexeme = .symbol .rightBracket
          · rw [leave_of_rightBracket reads closes, leave_of_rightBracket reads' closes]
            exact ih _ less same _ rfl
          · rw [leave_of_other reads opens closes, leave_of_other reads' opens closes]
            exact ih _ less same _ rfl
      · obtain ⟨here', ends', same⟩ := h.ends ends
        rw [leave_of_ends ends, leave_of_ends ends']
        exact ⟨rfl, same.toSameRest⟩
      · obtain ⟨here', breaks', same⟩ := h.breaks breaks
        rw [leave_of_breaks breaks, leave_of_breaks breaks']
        exact ⟨rfl, same⟩

theorem refusal (h : c.Abreast c') (depth : Nat) (f : GrammarFault) (t : Token) :
    (TinyTcl.refusal depth f t c).1 = (TinyTcl.refusal depth f t c').1 ∧
      (TinyTcl.refusal depth f t c).2.SameRest (TinyTcl.refusal depth f t c').2 := by
  obtain ⟨same, after⟩ := h.leave depth
  unfold TinyTcl.refusal
  revert same after
  rcases c.leave depth with ⟨_ | _, _⟩ <;> rcases c'.leave depth with ⟨_ | _, _⟩ <;>
    intro same after
  · exact ⟨rfl, after⟩
  · cases same
  · cases same
  · cases same
    exact ⟨rfl, after⟩

end Cursor.Abreast

/-- Cursors that cannot be told apart, and the same faults. -/
theorem synchronous_abreast :
    Synchronous Eq (fun _ => Cursor.Abreast) False Eq Cursor.SameRest where
  column := by
    rintro p _ rfl
    rfl
  reads h reads := by
    obtain ⟨rest', reads', same⟩ := h.reads reads
    exact ⟨_, rest', reads', ⟨rfl, rfl⟩, same⟩
  ends h ends := by
    obtain ⟨here', ends', same⟩ := h.ends ends
    exact ⟨_, here', ends', same⟩
  broken h breaks := by
    obtain ⟨here', breaks', same⟩ := h.breaks breaks
    exact ⟨_, here', breaks', .inr ⟨rfl, same⟩⟩
  refuse {s c c' here here' t t' f} h shows shows' same := by
    obtain ⟨there, shown, next⟩ := h.shows shows
    obtain ⟨rfl, rfl⟩ := shown.unique shows'
    rw [same]
    exact .inr (next.refusal s.brackets f t')
  braces _ _ _ _ _ _ same _ := by
    rw [same.eq]
    exact (Cursor.Abreast.refl _).withLog _ _
  surplus h _ _ _ alike := by
    rw [alike.eq]
    exact .inr ⟨rfl, (h.withLog _ _).toSameRest⟩
  withLog h _ := h.withLog _ _
  after h _ := (h.withLog _ _).toSameRest

/-- Replies that agree but for what was read before. -/
def abreast : Simulation := .everywhere Eq (fun _ => Cursor.Abreast) False Eq Cursor.SameRest

theorem lawful_abreast : abreast.Lawful := synchronous_abreast.lawful

/-- Cursors that cannot be told apart read the same statement. -/
theorem agree_statement {c c' : Cursor} (h : c.Abreast c') :
    abreast.Agree (Command.Alike Eq) Cursor.Abreast (Grammar.statement c)
      (Grammar.statement c') := by
  apply (lawful_abreast.statement (s := .start false) h trivial rfl rfl).weaken
  rintro rest rest' ⟨b, b', e, e', same, rfl, rfl⟩
  exact ⟨⟨same.tokens, same.fault⟩, same.line⟩

/-- The commands of a program in order, and the fault that ends it, if one does. -/
def Program.delivery : Program → List Command × Option Diagnostic
  | finish _ => ([], none)
  | fault _ d => ([], some d)
  | step _ c rest => (c :: rest.delivery.1, rest.delivery.2)

/-- Parsing gives all that is delivered, or the fault alone. -/
theorem Program.commands_eq_delivery (p : Program) :
    p.commands = match p.delivery.2 with
      | none => .ok p.delivery.1
      | some d => .error d := by
  induction p with
  | finish | fault => rfl
  | step notes command rest ih =>
    rw [commands, ih]
    simp only [delivery]
    cases rest.delivery.2 <;> rfl

/-- The commands of a text without faults are all that it delivers. -/
theorem Program.delivery_of_commands {p : Program} {commands : List Command}
    (h : p.commands = .ok commands) : p.delivery = (commands, none) := by
  rw [commands_eq_delivery] at h
  cases fault : p.delivery.2 with
  | some d =>
    rw [fault] at h
    cases h
  | none =>
    rw [fault] at h
    cases h
    exact Prod.ext rfl fault

/-- The fault that a text is refused with is the one behind all that it delivers. -/
theorem Program.commands_eq_error_iff {p : Program} {d : Diagnostic} :
    p.commands = .error d ↔ p.delivery.2 = some d := by
  rw [commands_eq_delivery]
  cases p.delivery.2 with
  | none => simp
  | some e => simp

namespace Reader

/-- The outcome behind the last command. -/
def ending : Option Diagnostic → Except Diagnostic (Option Command)
  | none => .ok none
  | some d => .error d

/-- Asked again and again, a reader gives these commands, and then its end or this fault. -/
def Delivers (r : Reader) (commands : List Command) (fault : Option Diagnostic) : Prop :=
  r.nexts (commands.length + 1) = commands.map (fun c => .ok (some c)) ++ [ending fault]

section Delivers

variable {r : Reader} {c : Command} {commands others : List Command}
  {fault other : Option Diagnostic}

private theorem delivers_nil_iff : r.Delivers [] fault ↔ r.next.1 = ending fault := by
  simp [Delivers, nexts]

private theorem delivers_cons_iff :
    r.Delivers (c :: commands) fault ↔
      r.next.1 = .ok (some c) ∧ r.next.2.Delivers commands fault := by
  simp [Delivers, nexts]

private theorem ending_ne_command : ending fault ≠ .ok (some c) := by
  cases fault <;> simp [ending]

private theorem ending_injective (h : ending fault = ending other) : fault = other := by
  cases fault <;> cases other <;> simp_all [ending]

/-- A reader delivers one list of commands, and one end. -/
theorem Delivers.unique (h : r.Delivers commands fault) (k : r.Delivers others other) :
    commands = others ∧ fault = other := by
  induction commands generalizing r others with
  | nil =>
    rw [delivers_nil_iff] at h
    cases others with
    | nil =>
      rw [delivers_nil_iff, h] at k
      exact ⟨rfl, ending_injective k⟩
    | cons d rest =>
      rw [delivers_cons_iff, h] at k
      exact absurd k.1 ending_ne_command
  | cons c rest ih =>
    rw [delivers_cons_iff] at h
    cases others with
    | nil =>
      rw [delivers_nil_iff, h.1] at k
      exact absurd k.symm ending_ne_command
    | cons d others =>
      rw [delivers_cons_iff, h.1] at k
      obtain ⟨same, k⟩ := k
      obtain ⟨rfl, rfl⟩ := ih h.2 k
      cases same
      exact ⟨rfl, rfl⟩

end Delivers

section Next

variable {c rest here : Cursor} {t : Token} {d : Diagnostic} {command : Command}
  (filename : Option Text)

theorem next_of_ends (h : c.skipSeparators.Ends t here) :
    next ⟨c, filename⟩ = (.ok none, ⟨here, filename⟩) := by
  obtain ⟨_, view⟩ := h
  rw [next, view]

theorem next_of_breaks (h : c.skipSeparators.Breaks d here) :
    next ⟨c, filename⟩ = (.error (inScript filename d), ⟨here, filename⟩) := by
  rw [next, (h : c.skipSeparators.view = _)]

theorem next_of_statement (h : c.skipSeparators.Reads t rest) {behind : Cursor}
    {within : behind.workload < c.skipSeparators.workload}
    (read : Grammar.statement c.skipSeparators = .ok command behind within) :
    next ⟨c, filename⟩ = (.ok (some command), ⟨behind, filename⟩) := by
  obtain ⟨_, _, view⟩ := h
  simp only [next, view, read]

theorem next_of_fail (h : c.skipSeparators.Reads t rest)
    (fails : Grammar.statement c.skipSeparators = .fail d here) :
    next ⟨c, filename⟩ = (.error (inScript filename d), ⟨here, filename⟩) := by
  obtain ⟨_, _, view⟩ := h
  simp only [next, view, fails]

end Next

/-- Behind the same tokens and fault the next outcome is the same, and so is what is left then. -/
theorem next_of_sameRest {c c' : Cursor} (h : c.SameRest c') (filename : Option Text) :
    ∃ outcome d d', next ⟨c, filename⟩ = (outcome, ⟨d, filename⟩) ∧
      next ⟨c', filename⟩ = (outcome, ⟨d', filename⟩) ∧ d.SameRest d' := by
  by_cases spent : c.tokens = [] ∧ c.fault = none
  · have ends := Cursor.ends_of_nil spent.1 spent.2
    have ends' := Cursor.ends_of_nil (h.tokens.trans spent.1) (h.fault.trans spent.2)
    have start := Cursor.skipSeparators_of_not_reads fun _ _ reads => reads.not_ends ends
    have start' := Cursor.skipSeparators_of_not_reads fun _ _ reads => reads.not_ends ends'
    exact ⟨_, _, _, next_of_ends filename (by rw [start]; exact ends),
      next_of_ends filename (by rw [start']; exact ends'), h⟩
  have skipped := synchronous_abreast.skipSeparators (s := .start false)
    ⟨h, fun tokens fault => absurd ⟨tokens, fault⟩ spent⟩
  rcases c.skipSeparators.view_cases with ⟨t, rest, reads⟩ | ⟨t, here, ends⟩ | ⟨d, here, breaks⟩
  · obtain ⟨rest', reads', _⟩ := skipped.reads reads
    have agree := agree_statement skipped
    cases read : Grammar.statement c.skipSeparators with
    | ok command behind within =>
      rw [read] at agree
      obtain ⟨command', behind', _, read', alike, same⟩ := agree.of_ok
      obtain rfl := alike.eq
      exact ⟨_, _, _, next_of_statement filename reads read,
        next_of_statement filename reads' read', same.toSameRest⟩
    | fail d here =>
      cases read' : Grammar.statement c'.skipSeparators with
      | ok command' behind' _ =>
        rw [read, read'] at agree
        obtain ⟨_, _, same, _⟩ := agree.resolve_left id
        cases same
      | fail d' here' =>
        rw [read, read'] at agree
        obtain ⟨_, _, same, rfl, after⟩ := agree.resolve_left id
        cases same
        exact ⟨_, _, _, next_of_fail filename reads read, next_of_fail filename reads' read', after⟩
  · obtain ⟨here', ends', same⟩ := skipped.ends ends
    exact ⟨_, _, _, next_of_ends filename ends, next_of_ends filename ends', same.toSameRest⟩
  · obtain ⟨here', breaks', same⟩ := skipped.breaks breaks
    exact ⟨_, _, _, next_of_breaks filename breaks, next_of_breaks filename breaks', same⟩

/-- What a reader delivers depends only on the tokens and the fault that are left. -/
theorem nexts_of_sameRest {c c' : Cursor} (h : c.SameRest c') (filename : Option Text)
    (count : Nat) : nexts count ⟨c', filename⟩ = nexts count ⟨c, filename⟩ := by
  induction count generalizing c c' with
  | zero => rfl
  | succ count ih =>
    obtain ⟨outcome, d, d', next, next', same⟩ := next_of_sameRest h filename
    rw [nexts, nexts, next, next', ih same]

private theorem Delivers.of_sameRest {c c' : Cursor} {filename : Option Text}
    {commands : List Command} {fault : Option Diagnostic}
    (h : Delivers ⟨c, filename⟩ commands fault) (same : c.SameRest c') :
    Delivers ⟨c', filename⟩ commands fault :=
  (nexts_of_sameRest same filename _).trans h

/-- A reader delivers the program that is read at its cursor. -/
theorem delivers_program {c : Cursor} {r : Reader} (h : c.Abreast r.cursor) :
    r.Delivers (Grammar.program c).delivery.1
      ((Grammar.program c).delivery.2.map (inScript r.filename)) := by
  obtain ⟨c', filename⟩ := r
  refine Delivers.of_sameRest ?_ h.toSameRest
  clear h
  induction work : c.workload using Nat.strongRecOn generalizing c with
  | ind size ih =>
    rw [Grammar.program]
    rcases c.skipSeparators.view_cases with ⟨t, rest, reads⟩ | ⟨t, here, ends⟩ | ⟨d, here, breaks⟩
    · obtain ⟨_, _, view⟩ := reads.view
      rw [view]
      cases read : Grammar.statement c.skipSeparators with
      | ok command behind within =>
        have outcome := next_of_statement filename reads read
        have less : (behind.withLog []).workload < size :=
          work ▸ Nat.lt_of_lt_of_le within c.workload_skipSeparators_le
        refine delivers_cons_iff.mpr ⟨congrArg Prod.fst outcome, ?_⟩
        rw [outcome]
        exact (ih _ less rfl).of_sameRest ⟨rfl, rfl⟩
      | fail d here =>
        exact delivers_nil_iff.mpr (congrArg Prod.fst (next_of_fail filename reads read))
    · obtain ⟨_, view⟩ := ends.view
      rw [view]
      exact delivers_nil_iff.mpr (congrArg Prod.fst (next_of_ends filename ends))
    · rw [(breaks : c.skipSeparators.view = _)]
      exact delivers_nil_iff.mpr (congrArg Prod.fst (next_of_breaks filename breaks))

end Reader

end TinyTcl
