import TinyTcl.Proofs.Program.Alike
import TinyTcl.Proofs.Program.Readers
import TinyTcl.Proofs.Token.Nesting

/-! Relations of cursors that the readers of the grammar keep. A `Simulation` relates cursors by
where they stand, and `Simulation.Lawful` says what one token, one pause and one fault do to the
relation. Under these laws every reader reads at the second cursor what it reads at the first one,
up to places, and where it fails at the first, it fails likewise at the second, unless nothing is
asked about failures (`Agree`). In that case the second cursor may also stand in more brackets. -/
namespace TinyTcl

/-- The same fault about another token. -/
def GrammarFault.about (l : Lexeme) : GrammarFault → GrammarFault
  | noCommand _ => noCommand l
  | afterCommand _ command => afterCommand l command
  | noWord operand _ => noWord operand l
  | noOperand _ => noOperand l
  | afterExpression _ => afterExpression l
  | fault => fault

/-- What a reply tells about a failure. -/
def Reply.failure? {α : Type} {n : Nat} : Reply α n → Option (Diagnostic × Cursor)
  | ok _ _ _ => none
  | fail d here => some (d, here)

/-- Where two related cursors stand: whether in a braced expression, and between which delimiters
of their text. -/
structure Spot where
  braced : Bool
  around : List Delimiter

namespace Spot

/-- The number of brackets around a spot. -/
def brackets (s : Spot) : Nat := s.around.count .bracket

/-- The spot behind a lexeme. -/
def behind (s : Spot) (l : Lexeme) : Spot := { s with around := l.enclose s.around }

@[simp] theorem brackets_behind_leftBracket (s : Spot) :
    (s.behind (.symbol .leftBracket)).brackets = s.brackets + 1 := List.count_cons_self

@[simp] theorem brackets_behind_leftQuote (s : Spot) :
    (s.behind (.symbol .leftQuote)).brackets = s.brackets := List.count_cons_of_ne (by decide)

/-- The start of a text. -/
def start (braced : Bool) : Spot := ⟨braced, []⟩

/-- Whether a lexeme that closes something finds it innermost. -/
def Fits (s : Spot) : Lexeme → Prop
  | .symbol .rightBracket => s.around.head? = some .bracket
  | .symbol .rightQuote => s.around.head? = some .quote
  | _ => True

end Spot

/-- A relation of cursors that the readers of the grammar may keep. -/
structure Simulation where
  /-- Places that may stand for one another. -/
  Q : Position → Position → Prop
  /-- Cursors in a statement or an expression. -/
  At : Spot → Cursor → Cursor → Prop
  /-- Cursors between two statements. -/
  Between : Spot → Cursor → Cursor → Prop
  /-- Spots where statements stand. -/
  Statements : Spot → Prop
  /-- The number of brackets around the second cursor. -/
  Depth : Spot → Nat := Spot.brackets
  /-- Nothing is asked about failures. -/
  Lenient : Prop
  /-- Faults that may stand for one another. -/
  Faults : Diagnostic → Diagnostic → Prop
  /-- Cursors behind a failure. -/
  After : Cursor → Cursor → Prop

namespace Simulation

/-- Failures that agree. -/
def Failures (S : Simulation) (d : Diagnostic) (here : Cursor) (d' : Diagnostic) (here' : Cursor) :
    Prop :=
  S.Faults d d' ∧ S.After here here'

/-- A failure of the first reader, and what the second reader says. -/
def Fails (S : Simulation) (d : Diagnostic) (here : Cursor)
    (other : Option (Diagnostic × Cursor)) : Prop :=
  S.Lenient ∨ ∃ d' here', other = some (d', here') ∧ S.Failures d here d' here'

/-- Replies that agree: on what was read and the cursors behind it, or on the failure. -/
def Agree (S : Simulation) {α β : Type} {n m : Nat} (V : α → β → Prop)
    (P : Cursor → Cursor → Prop) : Reply α n → Reply β m → Prop
  | .ok a rest _, .ok b rest' _ => V a b ∧ P rest rest'
  | .ok _ _ _, .fail _ _ => False
  | .fail d here, other => S.Fails d here other.failure?

/-- What reading a lexeme does to the relation. Behind an opening bracket a statement may begin. -/
def Behind (S : Simulation) (s : Spot) (l : Lexeme) (rest rest' : Cursor) : Prop :=
  match l with
  | .symbol .leftBracket => S.Between (s.behind (.symbol .leftBracket)) rest rest'
  | l => S.At (s.behind l) rest rest'

section Replies

variable {S : Simulation} {α β γ δ : Type} {n m k l : Nat} {V : α → β → Prop} {W : γ → δ → Prop}
  {P R : Cursor → Cursor → Prop}

theorem Agree.widen {r : Reply α n} {r' : Reply β m} (h : S.Agree V P r r') (wide : n ≤ k)
    (wide' : m ≤ l) : S.Agree V P (r.widen wide) (r'.widen wide') := by
  cases r <;> cases r' <;> exact h

theorem Agree.map {r : Reply α n} {r' : Reply β m} (h : S.Agree V P r r') {f : α → γ} {g : β → δ}
    (same : ∀ a b, V a b → W (f a) (g b)) (wide : n ≤ k) (wide' : m ≤ l) :
    S.Agree W P (r.map f wide) (r'.map g wide') := by
  cases r <;> cases r'
  case ok.ok => exact ⟨same _ _ h.1, h.2⟩
  all_goals exact h

theorem Agree.weaken {r : Reply α n} {r' : Reply β m} (h : S.Agree V P r r')
    (weaker : ∀ rest rest', P rest rest' → R rest rest') : S.Agree V R r r' := by
  cases r <;> cases r'
  case ok.ok => exact ⟨h.1, weaker _ _ h.2⟩
  all_goals exact h

/-- What agrees with a reader that has read something has read something as well. -/
theorem Agree.of_ok {a : α} {rest : Cursor} {within : rest.workload < n} {r' : Reply β m}
    (h : S.Agree V P (.ok a rest within) r') :
    ∃ b rest' within', r' = .ok b rest' within' ∧ V a b ∧ P rest rest' := by
  cases r' with
  | ok b rest' within' => exact ⟨b, rest', within', rfl, h⟩
  | fail d here => exact h.elim

theorem Agree.andThen_of_eq {r : Reply α n} {r' : Reply β m} (h : S.Agree V P r r')
    {next : α → (rest : Cursor) → rest.workload < n → Reply γ k}
    {next' : β → (rest : Cursor) → rest.workload < m → Reply δ l}
    (step : ∀ a b rest rest' within within', r = .ok a rest within → r' = .ok b rest' within' →
      V a b → P rest rest' → S.Agree W R (next a rest within) (next' b rest' within')) :
    S.Agree W R (r.andThen next) (r'.andThen next') := by
  cases r with
  | ok a rest within =>
    cases r' with
    | ok b rest' within' => exact step _ _ _ _ _ _ rfl rfl h.1 h.2
    | fail d here => exact h.elim
  | fail d here =>
    cases r' with
    | ok b rest' within' => exact .inl (h.resolve_right (by rintro ⟨_, _, same, _⟩; cases same))
    | fail d' here' => exact h

theorem Agree.andThen {r : Reply α n} {r' : Reply β m} (h : S.Agree V P r r')
    {next : α → (rest : Cursor) → rest.workload < n → Reply γ k}
    {next' : β → (rest : Cursor) → rest.workload < m → Reply δ l}
    (step : ∀ a b rest rest' within within', V a b → P rest rest' →
      S.Agree W R (next a rest within) (next' b rest' within')) :
    S.Agree W R (r.andThen next) (r'.andThen next') :=
  h.andThen_of_eq fun _ _ _ _ _ _ _ _ => step _ _ _ _ _ _

theorem agree_fail {d d' : Diagnostic} {here here' : Cursor}
    (h : S.Lenient ∨ S.Failures d here d' here') :
    S.Agree V P (.fail d here : Reply α n) (.fail d' here' : Reply β m) :=
  h.imp_right fun same => ⟨d', here', rfl, same⟩

theorem agree_of_lenient (h : S.Lenient) {d : Diagnostic} {here : Cursor} {r' : Reply β m} :
    S.Agree V P (.fail d here : Reply α n) r' :=
  .inl h

/-- Agreement on what was read does not depend on the simulation if nothing is asked of failures. -/
theorem Agree.of_lenient {T : Simulation} {r : Reply α n} {r' : Reply β m}
    (h : S.Agree V P r r') (lenient : T.Lenient) : T.Agree V P r r' := by
  cases r with
  | ok a rest within => cases r' <;> exact h
  | fail d here => exact agree_of_lenient lenient

end Replies

/-- The laws that make the readers of the grammar keep a relation of cursors. -/
structure Lawful (S : Simulation) : Prop where
  /-- Only where nothing is asked about failures may the second cursor stand in more brackets. -/
  level : S.Lenient ∨ ∀ s, S.Depth s = s.brackets
  bracketed (s : Spot) : S.Depth (s.behind (.symbol .leftBracket)) = S.Depth s + 1
  quoted (s : Spot) : S.Depth (s.behind (.symbol .leftQuote)) = S.Depth s
  outermost : S.Depth (.start true) = 0
  /-- The place behind a brace goes with the brace. -/
  column {p q : Position} : S.Q p q → S.Q ⟨p.line, p.column + 1⟩ ⟨q.line, q.column + 1⟩
  token {s : Spot} {c c' rest : Cursor} {t : Token} : S.At s c c' → c.Reads t rest →
    t.lexeme.isSeparator = false → ∃ t' rest', c'.Reads t' rest' ∧ t.Alike S.Q t' ∧
      (s.Fits t.lexeme → S.Behind s t.lexeme rest rest')
  separator {s : Spot} {c c' rest : Cursor} {t : Token} : S.At s c c' → c.Reads t rest →
    t.lexeme.isSeparator = true → ∃ t' here', c'.Stops t' here'
  finish {s : Spot} {c c' here : Cursor} {t : Token} : S.At s c c' → c.Ends t here →
    ∃ t' here', c'.Stops t' here'
  broken {s : Spot} {c c' here : Cursor} {d : Diagnostic} : S.At s c c' → c.Breaks d here →
    S.Lenient ∨ ∃ d' here', c'.Breaks d' here' ∧ S.Failures d here d' here'
  look {s : Spot} {c c' : Cursor} : S.At s c c' → S.At s c.look c'.look
  /-- A refused token is refused in both places. -/
  refuse {s : Spot} {c c' here here' : Cursor} {t t' : Token} {f : GrammarFault} : S.At s c c' →
    c.Shows t here → c'.Shows t' here' → f.about t.lexeme = f → S.Lenient ∨
      S.Failures (refusal s.brackets f t here).1 (refusal s.brackets f t here).2
        (refusal (S.Depth s) (f.about t'.lexeme) t' here').1
        (refusal (S.Depth s) (f.about t'.lexeme) t' here').2
  /-- Statements stand in brackets, if not elsewhere. -/
  statements {s : Spot} : s.around.head? = some .bracket → S.Statements s
  conclude {s : Spot} {c c' : Cursor} : S.At s c c' → S.Statements s → c.Concludes s.brackets →
    c'.Concludes (S.Depth s)
  endOfStatement {s : Spot} {c c' : Cursor} {d e : Command} : S.At s c c' → S.Statements s →
    e.name = d.name → S.Agree (fun _ _ => True) (S.Between s)
      (Grammar.endOfStatement s.brackets d c) (Grammar.endOfStatement (S.Depth s) e c')
  resume {s : Spot} {c c' : Cursor} : S.Between s c c' → s.around.head? = some .bracket →
    S.At s c.skipSeparators c'.skipSeparators
  unclosed {s : Spot} {c c' here : Cursor} {t : Token} : S.At s c c' →
    s.around.head? = some .bracket → c.Ends t here → S.Lenient ∨ ∃ t' here', c'.Ends t' here'
  /-- The text between the braces of an expression is read at a spot of its own. -/
  braces {s : Spot} {c c' rest rest' behind behind' : Cursor} {t t' : Token}
    {body : { b : Block // 2 * b.text.length ≤ bodyRoom rest.tokens }}
    {body' : { b : Block // 2 * b.text.length ≤ bodyRoom rest'.tokens }}
    {within : behind.workload < rest.workload} {within' : behind'.workload < rest'.workload} :
    S.At s c c' → c.Reads t rest → t.lexeme = .symbol .leftBrace → c'.Reads t' rest' →
    Grammar.block s.brackets t.position rest = .ok body behind within →
    Grammar.block (S.Depth s) t'.position rest' = .ok body' behind' within' →
    body.val.Alike S.Q body'.val → S.At s behind behind' →
    S.At (.start true) ((Cursor.ofExpression body.val).withLog behind.log)
      ((Cursor.ofExpression body'.val).withLog behind'.log)
  exhausted {c c' here : Cursor} {t : Token} : S.At (.start true) c c' → c.Ends t here →
    ∃ t' here', c'.Ends t' here'
  /-- Behind a braced expression there is nothing to read. -/
  surplus {s : Spot} {c c' inner inner' rest : Cursor} {t : Token} : S.At s c c' →
    S.At (.start true) inner inner' → inner.Reads t rest → S.Lenient ∨ ∃ t' rest',
      inner'.Reads t' rest' ∧
      S.Failures (.ofCause (.grammar (.afterExpression t.lexeme)) t.position) (c.withLog inner.log)
        (.ofCause (.grammar (.afterExpression t'.lexeme)) t'.position) (c'.withLog inner'.log)
  withLog {s : Spot} {c c' inner inner' : Cursor} : S.At s c c' → S.At (.start true) inner inner' →
    S.At s (c.withLog inner.log) (c'.withLog inner'.log)
  after {s : Spot} {c c' inner inner' : Cursor} : S.At s c c' → S.After inner inner' →
    S.After (c.withLog inner.log) (c'.withLog inner'.log)

/-- What stands at two related cursors. -/
inductive Met (S : Simulation) (s : Spot) (c c' : Cursor) : Prop where
  | token (l : Lexeme) (p q : Position) (rest rest' : Cursor) (reads : c.Reads ⟨l, p⟩ rest)
      (reads' : c'.Reads ⟨l, q⟩ rest') (place : S.Q p q)
      (behind : s.Fits l → S.Behind s l rest rest')
  | stop {t t' : Token} {here here' : Cursor} (stops : c.Stops t here) (stops' : c'.Stops t' here')
  | broken {d : Diagnostic} {here : Cursor} (breaks : c.Breaks d here)
    (other : S.Lenient ∨ ∃ d' here', c'.Breaks d' here' ∧ S.Failures d here d' here')

section Meeting

variable {S : Simulation} (laws : S.Lawful) {s : Spot} {c c' : Cursor} {α β : Type} {n m : Nat}
  {V : α → β → Prop} {P : Cursor → Cursor → Prop}

include laws

theorem Lawful.met (h : S.At s c c') : Met S s c c' := by
  rcases c.view_cases with ⟨t, rest, reads⟩ | ⟨t, here, ends⟩ | ⟨d, here, breaks⟩
  · cases separates : t.lexeme.isSeparator with
    | false =>
      obtain ⟨⟨_, q⟩, rest', reads', ⟨rfl, place⟩, behind⟩ := laws.token h reads separates
      exact .token _ _ q rest rest' reads reads' place behind
    | true =>
      obtain ⟨t', here', stops'⟩ := laws.separator h reads separates
      exact .stop (.inl ⟨⟨rest, reads⟩, .inl separates, rfl⟩) stops'
  · obtain ⟨t', here', stops'⟩ := laws.finish h ends
    exact .stop (.inr ends) stops'
  · exact .broken breaks (laws.broken h breaks)

theorem Lawful.agree_reject {here here' : Cursor} {t t' : Token} {f f' : GrammarFault}
    (h : S.At s c c') (shows : c.Shows t here) (shows' : c'.Shows t' here')
    (same : f.about t.lexeme = f) (same' : f.about t'.lexeme = f') :
    S.Agree V P (reject s.brackets f t here : Reply α n)
      (reject (S.Depth s) f' t' here' : Reply β m) := by
  rw [reject_eq, reject_eq, ← same']
  exact agree_fail (laws.refuse h shows shows' same)

omit laws in
theorem agree_of_breaks {d : Diagnostic} {here : Cursor} {r : Reply α n} {r' : Reply β m}
    (other : S.Lenient ∨ ∃ d' here', c'.Breaks d' here' ∧ S.Failures d here d' here')
    (fails : r = .fail d here) (fails' : ∀ d' here', c'.Breaks d' here' → r' = .fail d' here') :
    S.Agree V P r r' := by
  rw [fails]
  rcases other with lenient | ⟨d', here', breaks', failures⟩
  · exact agree_of_lenient lenient
  · rw [fails' _ _ breaks']
    exact agree_fail (.inr failures)

end Meeting

end Simulation

end TinyTcl
