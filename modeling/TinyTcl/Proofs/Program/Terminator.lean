import TinyTcl.Proofs.Program.Delivery

/-! The end of a list of tokens. Where the tokens run out, a reader sees an end of file on the line
of the token read last; at an end of file that stands among them it stays for good. Main statement:
`nexts_terminated`. A list that breaks off and a list with an end of file at that point give the
same outcomes, however often a reader is asked: the two ends differ in their places alone, and these
show only in the faults that are reported there (`Finding`).

Cursors in front of the same tokens, with an end behind them at `q` and at `q'` (`Terminated`), keep
step with the tokens. The text of a braced expression is cut anew and has an end of its own, so
there the cursors cannot be told apart (`Bounded`). -/
namespace TinyTcl

/-- The line that was read last behind tokens that are read from a line on. -/
def lastLine (line : Int) (tokens : List Token) : Int :=
  (tokens.getLast?.map (·.position.line)).getD line

private theorem lastLine_cons (line : Int) (t : Token) (tokens : List Token) :
    lastLine line (t :: tokens) = lastLine t.position.line tokens := by
  unfold lastLine
  rw [List.getLast?_cons]
  cases tokens.getLast? <;> rfl

namespace Cursor

/-- How tokens end: they break off behind a line, or an end of file stands next. The end is seen
at `q`. -/
inductive Ending : Position → Int → List Token → Prop where
  | missing (line : Int) : Ending ⟨line, 0⟩ line []
  | present (q : Position) (line : Int) (behind : List Token) :
      Ending q line (.ofSymbol .endOfFile q :: behind)

/-- Cursors in front of the same tokens, behind which the end is seen at `q` and at `q'`. -/
inductive Terminated (q q' : Position) (c c' : Cursor) : Prop where
  | intro (tokens : List Token) {ending ending' : List Token}
      (plain : ∀ t ∈ tokens, t.lexeme ≠ .symbol .endOfFile)
      (here : c.tokens = tokens ++ ending) (ends : Ending q (lastLine c.line tokens) ending)
      (here' : c'.tokens = tokens ++ ending') (ends' : Ending q' (lastLine c'.line tokens) ending')
      (sound : c.fault = none) (sound' : c'.fault = none)

private theorem Ending.ends {q : Position} {c : Cursor} (h : Ending q c.line c.tokens)
    (sound : c.fault = none) : ∃ here, c.Ends ⟨.symbol .endOfFile, q⟩ here ∧
      here.tokens = c.tokens ∧ here.line = c.line ∧ here.fault = none := by
  obtain ⟨tokens, fault, line, announcement, log⟩ := c
  cases h with
  | missing => exact ⟨_, ends_of_nil rfl sound, rfl, rfl, sound⟩
  | present => exact ⟨_, ends_of_tokens rfl rfl, rfl, rfl, sound⟩

namespace Terminated

variable {q q' : Position} {c c' rest here : Cursor} {t : Token}

private theorem withLog (h : c.Terminated q q' c') (log log' : List Event) :
    (c.withLog log).Terminated q q' (c'.withLog log') := by
  obtain ⟨tokens, plain, at_c, ends, at_c', ends', sound, sound'⟩ := h
  exact ⟨tokens, plain, at_c, ends, at_c', ends', sound, sound'⟩

/-- The cursors read the same token, or stand at the end both. -/
theorem met (h : c.Terminated q q' c') :
    (∃ t rest rest', c.Reads t rest ∧ c'.Reads t rest' ∧ rest.Terminated q q' rest') ∨
      ∃ here here', c.Ends ⟨.symbol .endOfFile, q⟩ here ∧ c'.Ends ⟨.symbol .endOfFile, q'⟩ here' ∧
        here.Terminated q q' here' := by
  obtain ⟨tokens, plain, at_c, ending, at_c', ending', sound, sound'⟩ := h
  cases tokens with
  | nil =>
    rw [List.nil_append] at at_c at_c'
    subst at_c at_c'
    obtain ⟨d, ends, tokens, line, sound⟩ := Ending.ends (c := c) ending sound
    obtain ⟨d', ends', tokens', line', sound'⟩ := Ending.ends (c := c') ending' sound'
    exact .inr ⟨d, d', ends, ends', [], plain, tokens, line ▸ ending, tokens', line' ▸ ending',
      sound, sound'⟩
  | cons t tokens =>
    have other := plain t List.mem_cons_self
    rw [lastLine_cons] at ending ending'
    exact .inl ⟨t, _, _, reads_of_tokens at_c other, reads_of_tokens at_c' other, tokens,
      fun u inside => plain u (List.mem_cons_of_mem _ inside), rfl, ending, rfl, ending', sound,
      sound'⟩

private theorem reads (h : c.Terminated q q' c') (k : c.Reads t rest) :
    ∃ rest', c'.Reads t rest' ∧ rest.Terminated q q' rest' := by
  rcases h.met with ⟨u, other, rest', reads, reads', next⟩ | ⟨_, _, ends, _⟩
  · obtain ⟨rfl, rfl⟩ := reads.unique k
    exact ⟨rest', reads', next⟩
  · exact absurd ends k.not_ends

private theorem ends (h : c.Terminated q q' c') (k : c.Ends t here) :
    t = ⟨.symbol .endOfFile, q⟩ ∧
      ∃ here', c'.Ends ⟨.symbol .endOfFile, q'⟩ here' ∧ here.Terminated q q' here' := by
  rcases h.met with ⟨_, _, _, reads, _⟩ | ⟨_, here', ends, ends', next⟩
  · exact absurd k reads.not_ends
  · obtain ⟨rfl, rfl⟩ := ends.unique k
    exact ⟨rfl, here', ends', next⟩

private theorem not_breaks {d : Diagnostic} (h : c.Terminated q q' c') : ¬ c.Breaks d here := by
  rcases h.met with ⟨_, _, _, reads, _⟩ | ⟨_, _, ends, _⟩
  · exact reads.not_breaks
  · exact ends.not_breaks

/-- Brackets are left without a fault, to the same tokens or to the end. -/
theorem leave (h : c.Terminated q q' c') (depth : Nat) :
    (c.leave depth).1 = none ∧ (c'.leave depth).1 = none ∧
      (c.leave depth).2.Terminated q q' (c'.leave depth).2 := by
  induction work : c.workload using Nat.strongRecOn generalizing c c' depth with
  | ind size ih =>
    cases depth with
    | zero => simpa using h
    | succ depth =>
      rcases h.met with ⟨t, rest, rest', reads, reads', next⟩ | ⟨here, here', ends, ends', next⟩
      · have less : rest.workload < size := work ▸ reads.shorter
        by_cases opens : t.lexeme = .symbol .leftBracket
        · rw [leave_of_leftBracket reads opens, leave_of_leftBracket reads' opens]
          exact ih _ less next _ rfl
        · by_cases closes : t.lexeme = .symbol .rightBracket
          · rw [leave_of_rightBracket reads closes, leave_of_rightBracket reads' closes]
            exact ih _ less next _ rfl
          · rw [leave_of_other reads opens closes, leave_of_other reads' opens closes]
            exact ih _ less next _ rfl
      · rw [leave_of_ends ends, leave_of_ends ends']
        exact ⟨rfl, rfl, next⟩

private theorem refusal (h : c.Terminated q q' c') (depth : Nat) (f : GrammarFault) (t t' : Token) :
    (TinyTcl.refusal depth f t c).1 = .ofCause (.grammar f) t.position ∧
      (TinyTcl.refusal depth f t' c').1 = .ofCause (.grammar f) t'.position ∧
      (TinyTcl.refusal depth f t c).2.Terminated q q' (TinyTcl.refusal depth f t' c').2 := by
  obtain ⟨none_c, none_c', next⟩ := h.leave depth
  unfold TinyTcl.refusal
  revert none_c none_c' next
  rcases c.leave depth with ⟨_ | _, _⟩ <;> rcases c'.leave depth with ⟨_ | _, _⟩ <;>
    intro none_c none_c' next
  · exact ⟨rfl, rfl, next⟩
  · cases none_c'
  · cases none_c
  · cases none_c

end Terminated

/-- Cursors that differ in their end alone: in the tokens of the list, and not in the text of a
braced expression. -/
inductive Bounded (q q' : Position) (s : Spot) (c c' : Cursor) : Prop where
  | braced (inside : s.braced = true) (same : c.Abreast c')
  | bare (outside : s.braced = false) (same : c.Terminated q q' c')

end Cursor

/-- The same fault, at its place or at the end. -/
def Diagnostic.Bounded (q q' : Position) (d d' : Diagnostic) : Prop :=
  d = d' ∨ ∃ f, d = .ofCause (.grammar f) q ∧ d' = .ofCause (.grammar f) q'

/-- Cursors behind a failure that differ in their end alone. -/
def Cursor.Left (q q' : Position) (c c' : Cursor) : Prop := c.SameRest c' ∨ c.Terminated q q' c'

section Laws

variable {q q' : Position} {s : Spot} {c c' : Cursor}

private theorem Cursor.Bounded.withLog (h : c.Bounded q q' s c') (log log' : List Event) :
    (c.withLog log).Bounded q q' s (c'.withLog log') := by
  cases h with
  | braced inside same => exact .braced inside (same.withLog _ _)
  | bare outside same => exact .bare outside (same.withLog _ _)

theorem Cursor.Bounded.left (h : c.Bounded q q' s c') : c.Left q q' c' := by
  cases h with
  | braced _ same => exact .inl same.toSameRest
  | bare _ same => exact .inr same

/-- What is refused at both cursors is refused at the same place, or at the end. -/
theorem Cursor.Bounded.refuse {here here' : Cursor} {t t' : Token} {f : GrammarFault}
    (h : c.Bounded q q' s c') (shows : c.Shows t here) (shows' : c'.Shows t' here')
    (about : f.about t.lexeme = f) :
    (refusal s.brackets f t here).1.Bounded q q'
        (refusal s.brackets (f.about t'.lexeme) t' here').1 ∧
      (refusal s.brackets f t here).2.Left q q'
        (refusal s.brackets (f.about t'.lexeme) t' here').2 := by
  cases h with
  | braced inside same =>
    obtain ⟨there, shown, next⟩ := same.shows shows
    obtain ⟨rfl, rfl⟩ := shown.unique shows'
    rw [about]
    obtain ⟨alike, after⟩ := next.refusal s.brackets f t'
    exact ⟨.inl alike, .inl after⟩
  | bare outside same =>
    rcases shows with ⟨⟨rest, reads⟩, rfl⟩ | ends
    · obtain ⟨rest', reads', -⟩ := same.reads reads
      obtain ⟨rfl, rfl⟩ := reads'.shows.unique shows'
      rw [about]
      obtain ⟨first, second, after⟩ := same.refusal s.brackets f t' t'
      exact ⟨.inl (first.trans second.symm), .inr after⟩
    · obtain ⟨rfl, there, ends', next⟩ := same.ends ends
      obtain ⟨rfl, rfl⟩ := Shows.unique (.inr ends') shows'
      rw [about]
      obtain ⟨first, second, after⟩ := next.refusal s.brackets f _ _
      exact ⟨.inr ⟨f, first, second⟩, .inr after⟩

private theorem synchronous_bounded (q q' : Position) :
    Synchronous Eq (fun s c c' => Cursor.Bounded q q' s c c') False (Diagnostic.Bounded q q')
      (Cursor.Left q q') where
  column := by
    rintro p _ rfl
    rfl
  reads h reads := by
    cases h with
    | braced inside same =>
      obtain ⟨rest', reads', next⟩ := same.reads reads
      exact ⟨_, rest', reads', ⟨rfl, rfl⟩, .braced inside next⟩
    | bare outside same =>
      obtain ⟨rest', reads', next⟩ := same.reads reads
      exact ⟨_, rest', reads', ⟨rfl, rfl⟩, .bare outside next⟩
  ends h ends := by
    cases h with
    | braced inside same =>
      obtain ⟨here', ends', next⟩ := same.ends ends
      exact ⟨_, here', ends', .braced inside next⟩
    | bare outside same =>
      obtain ⟨-, here', ends', next⟩ := same.ends ends
      exact ⟨_, here', ends', .bare outside next⟩
  broken h breaks := by
    cases h with
    | braced inside same =>
      obtain ⟨here', breaks', next⟩ := same.breaks breaks
      exact ⟨_, here', breaks', .inr ⟨.inl rfl, .inl next⟩⟩
    | bare outside same => exact absurd breaks same.not_breaks
  refuse h shows shows' about := .inr (h.refuse shows shows' about)
  braces _ _ _ _ _ _ same _ := by
    rw [same.eq]
    exact .braced rfl ((Cursor.Abreast.refl _).withLog _ _)
  surplus h _ _ _ alike := by
    rw [alike.eq]
    exact .inr ⟨.inl rfl, (h.withLog _ _).left⟩
  withLog h _ := h.withLog _ _
  after h _ := (h.withLog _ _).left

end Laws

/-- What a reader finds, told apart from where the end is: an outcome with a place of its own, if it
has one, or a fault at the end. -/
inductive Finding where
  | placed (outcome : Except Diagnostic (Option Command))
  | atEnd (fault : GrammarFault)

/-- The outcome in a script of this name that ends at `q`. -/
def Finding.shown (filename : Option Text) (q : Position) :
    Finding → Except Diagnostic (Option Command)
  | placed outcome => outcome
  | atEnd fault => .error { Diagnostic.ofCause (.grammar fault) q with filename }

private theorem Finding.shown_atEnd_inj {filename : Option Text} {f g : GrammarFault}
    {q q' : Position} :
    (atEnd f).shown filename q = (atEnd g).shown filename q' ↔ f = g ∧ q = q' := by
  cases q
  cases q'
  simp [shown, Diagnostic.ofCause]

namespace Reader

variable {q q' : Position} {c c' : Cursor}

private theorem exists_finding_of_bounded {d d' : Diagnostic} (h : d.Bounded q q' d')
    (filename : Option Text) : ∃ finding : Finding,
      .error (inScript filename d) = finding.shown filename q ∧
        .error (inScript filename d') = finding.shown filename q' := by
  rcases h with rfl | ⟨f, rfl, rfl⟩
  · exact ⟨.placed _, rfl, rfl⟩
  · exact ⟨.atEnd f, rfl, rfl⟩

/-- One call finds the same at both cursors, and leaves cursors that differ in their end alone. -/
theorem next_terminated (h : c.Terminated q q' c') (filename : Option Text) :
    ∃ (finding : Finding) (d d' : Cursor),
      next ⟨c, filename⟩ = (finding.shown filename q, ⟨d, filename⟩) ∧
      next ⟨c', filename⟩ = (finding.shown filename q', ⟨d', filename⟩) ∧ d.Left q q' d' := by
  have laws := synchronous_bounded q q'
  have start := laws.skipSeparators (s := .start false) (.bare rfl h)
  rcases start with ⟨⟨⟩, -⟩ | ⟨-, start⟩
  rcases start.met with ⟨t, rest, rest', reads, reads', -⟩ | ⟨here, here', ends, ends', next⟩
  · have agree := laws.lawful.statement (s := .start false) (.bare rfl start) trivial rfl rfl
    cases read : Grammar.statement c.skipSeparators with
    | ok command behind within =>
      rw [read] at agree
      obtain ⟨_, _, _, read', alike, b, b', e, e', same, rfl, rfl⟩ := agree.of_ok
      obtain rfl := alike.eq
      exact ⟨.placed _, _, _, next_of_statement filename reads read,
        next_of_statement filename reads' read', (same.withLog _ _).left⟩
    | fail d here =>
      rw [read] at agree
      obtain ⟨d', here', failure, faults, left⟩ := agree.resolve_left id
      cases read' : Grammar.statement c'.skipSeparators with
      | ok command' behind' _ =>
        rw [read'] at failure
        cases failure
      | fail d' here' =>
        rw [read'] at failure
        cases failure
        obtain ⟨finding, shown, shown'⟩ := exists_finding_of_bounded faults filename
        exact ⟨finding, _, _, shown ▸ next_of_fail filename reads read,
          shown' ▸ next_of_fail filename reads' read', left⟩
  · exact ⟨.placed (.ok none), _, _, next_of_ends filename ends, next_of_ends filename ends',
      .inr next⟩

/-- All calls find the same at both cursors. -/
theorem nexts_of_left (h : c.Left q q' c') (filename : Option Text) (count : Nat) :
    ∃ findings : List Finding,
      nexts count ⟨c, filename⟩ = findings.map (Finding.shown filename q) ∧
        nexts count ⟨c', filename⟩ = findings.map (Finding.shown filename q') := by
  induction count generalizing c c' with
  | zero => exact ⟨[], rfl, rfl⟩
  | succ count ih =>
    rcases h with same | h
    · refine ⟨(nexts (count + 1) ⟨c, filename⟩).map .placed, ?_, ?_⟩
      · simp [Function.comp_def, Finding.shown]
      · rw [nexts_of_sameRest same]
        simp [Function.comp_def, Finding.shown]
    · obtain ⟨finding, d, d', first, first', left⟩ := next_terminated h filename
      obtain ⟨findings, later, later'⟩ := ih left
      exact ⟨finding :: findings, by rw [nexts, first, later]; rfl,
        by rw [nexts, first', later']; rfl⟩

/-- All calls find the same in lists of tokens that end in different ways. -/
theorem nexts_of_ending {tokens ending ending' : List Token}
    (plain : ∀ t ∈ tokens, t.lexeme ≠ .symbol .endOfFile)
    (ends : Cursor.Ending q (lastLine 1 tokens) ending)
    (ends' : Cursor.Ending q' (lastLine 1 tokens) ending') (filename : Option Text) (count : Nat) :
    ∃ findings : List Finding,
      (ofTokens (tokens ++ ending) filename).nexts count =
          findings.map (Finding.shown filename q) ∧
        (ofTokens (tokens ++ ending') filename).nexts count =
          findings.map (Finding.shown filename q') :=
  nexts_of_left (.inr ⟨tokens, plain, rfl, ends, rfl, ends', rfl, rfl⟩) filename count

/-- Findings that look alike in two scripts which end at different places look alike wherever a
script ends. -/
theorem shown_eq_of_apart {filename : Option Text} {x y z : Finding} (apart : q ≠ q')
    {p : Position} (first : x.shown filename q = y.shown filename q)
    (second : x.shown filename q' = z.shown filename q')
    (third : y.shown filename p = z.shown filename p) :
    y.shown filename p = x.shown filename p := by
  cases x with
  | placed o =>
    cases y with
    | placed o' => exact first.symm
    | atEnd f =>
      cases z with
      | placed o' => exact third.trans second.symm
      | atEnd g => exact absurd (Finding.shown_atEnd_inj.mp (first.symm.trans second)).2 apart
  | atEnd f =>
    cases y with
    | atEnd g =>
      obtain ⟨rfl, -⟩ := Finding.shown_atEnd_inj.mp first
      rfl
    | placed o =>
      cases z with
      | placed o' =>
        exact absurd (Finding.shown_atEnd_inj.mp (first.trans (third.trans second.symm))).2 apart
      | atEnd g =>
        obtain ⟨rfl, -⟩ := Finding.shown_atEnd_inj.mp second
        exact third

private theorem map_shown_eq_of_apart {filename : Option Text} {xs ys zs : List Finding}
    (apart : q ≠ q') {p : Position}
    (first : xs.map (Finding.shown filename q) = ys.map (Finding.shown filename q))
    (second : xs.map (Finding.shown filename q') = zs.map (Finding.shown filename q'))
    (third : ys.map (Finding.shown filename p) = zs.map (Finding.shown filename p)) :
    ys.map (Finding.shown filename p) = xs.map (Finding.shown filename p) := by
  induction xs generalizing ys zs with
  | nil =>
    rw [List.map_eq_nil_iff.mp first.symm]
  | cons x xs ih =>
    cases ys with
    | nil => cases first
    | cons y ys =>
      cases zs with
      | nil => cases second
      | cons z zs =>
        simp only [List.map_cons, List.cons.injEq] at first second third ⊢
        exact ⟨shown_eq_of_apart apart first.1 second.1 third.1, ih first.2 second.2 third.2⟩

/-- **The end of a list of tokens need not be there.** Take tokens without an end of file, and ask a
reader of them as often as you like, faults or not. It finds what a reader finds for which an end of
file, and anything at all, follows these tokens: the same commands, the same answers that nothing is
left, and the same faults at the same places, but for the faults that are reported at the end. These
stand where the end of file stands, and without one at the start of the line that was read last. -/
theorem nexts_terminated {tokens : List Token} (plain : ∀ t ∈ tokens, t.lexeme ≠ .symbol .endOfFile)
    (filename : Option Text) (count : Nat) :
    ∃ findings : List Finding,
      (ofTokens tokens filename).nexts count =
          findings.map (Finding.shown filename ⟨lastLine 1 tokens, 0⟩) ∧
        ∀ p behind, (ofTokens (tokens ++ .ofSymbol .endOfFile p :: behind) filename).nexts count =
          findings.map (Finding.shown filename p) := by
  -- Two ends apart from one another tell which findings are made at the end.
  have pair {q q' : Position} {ending ending' : List Token}
      (ends : Cursor.Ending q (lastLine 1 tokens) ending)
      (ends' : Cursor.Ending q' (lastLine 1 tokens) ending') :=
    nexts_of_ending plain ends ends' filename count
  obtain ⟨findings, here, there⟩ := pair (.present ⟨0, 0⟩ _ []) (.present ⟨1, 0⟩ _ [])
  have everywhere {p : Position} {ending : List Token}
      (ends : Cursor.Ending p (lastLine 1 tokens) ending) :
      (ofTokens (tokens ++ ending) filename).nexts count =
        findings.map (Finding.shown filename p) := by
    obtain ⟨first, at_first, shown⟩ := pair (.present ⟨0, 0⟩ _ []) ends
    obtain ⟨second, at_second, shown'⟩ := pair (.present ⟨1, 0⟩ _ []) ends
    rw [shown]
    exact map_shown_eq_of_apart (by decide) (here.symm.trans at_first) (there.symm.trans at_second)
      (shown.symm.trans shown')
  refine ⟨findings, ?_, fun p behind => everywhere (.present p _ behind)⟩
  have bare := everywhere (.missing _)
  rwa [List.append_nil] at bare

/-- A command without its value, on line 3, and the line that the fault names: the last one that was
read, or the one of the end of file, on line 9 here. -/
theorem nexts_terminated_puts :
    let tokens : List Token := [⟨.symbol .puts, ⟨3, 1⟩⟩]
    let lines := List.map fun outcome : Except Diagnostic (Option Command) => match outcome with
      | .error d => d.line
      | .ok _ => none
    (∀ t ∈ tokens, t.lexeme ≠ .symbol .endOfFile) ∧
      (∃ findings : List Finding,
        (ofTokens tokens none).nexts 2 = findings.map (Finding.shown none ⟨3, 0⟩) ∧
          ∀ p behind, (ofTokens (tokens ++ .ofSymbol .endOfFile p :: behind) none).nexts 2 =
            findings.map (Finding.shown none p)) ∧
      lines ((ofTokens tokens none).nexts 2) = [some 3, none] ∧
      lines ((ofTokens (tokens ++ [.ofSymbol .endOfFile ⟨9, 1⟩]) none).nexts 2) = [some 9, none] :=
  ⟨by decide, nexts_terminated (by decide) none 2, by decide +kernel, by decide +kernel⟩

end Reader
end TinyTcl
