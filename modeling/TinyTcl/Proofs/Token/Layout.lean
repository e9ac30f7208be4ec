import TinyTcl.Proofs.Token.Exchange
import TinyTcl.Proofs.Token.Places

/-! Layout between tokens. Blanks and joined lines may be put in wherever a token or a gap ends in a
script, but directly behind a dollar sign: the text is still cut to its end, into the same lexemes
(`TokenStream.insert_layout`). Behind a comment they become part of it (`scan_comment`), elsewhere
they are gaps of their own (`gives_layout`). What is in front of them is read as before, since a
step reads so little ahead (`scan_exchange`). -/
namespace TinyTcl

/-- Blanks and joined lines. -/
inductive IsLayout : Text → Prop where
  | nil : IsLayout []
  | blank {c : Char} {t : Text} : isSpacing c = true → IsLayout t → IsLayout (c :: t)
  | joined {t : Text} : IsLayout t → IsLayout ('\\' :: '\n' :: t)

theorem endsWord_of_isSpacing {c : Char} (h : isSpacing c = true) : EndsWord c := by
  simp only [isSpacing, Bool.or_eq_true, beq_iff_eq] at h
  obtain (rfl | rfl) | rfl := h
  all_goals exact ⟨by decide +kernel, by decide⟩

private theorem IsLayout.endsWord {d : Char} {t : Text} (h : IsLayout (d :: t)) : EndsWord d := by
  cases h with
  | blank spacing _ => exact endsWord_of_isSpacing spacing
  | joined _ => exact ⟨by decide +kernel, by decide⟩

/-- In a comment layout is part of the comment. -/
theorem comment_layout {ins v : Text} (layout : IsLayout ins)
    (stops : v = [] ∨ ∃ u, v = '\n' :: u) : Span.comment (ins ++ v) = (ins, v) := by
  induction layout with
  | nil => obtain rfl | ⟨u, rfl⟩ := stops <;> rfl
  | @blank c t spacing _ ih =>
    have other : c ≠ '\\' ∧ c ≠ '\n' := by
      constructor <;> (rintro rfl; cases spacing)
    rw [List.cons_append, Span.comment_of_other (fun same => absurd same other.1) other.2, ih]
  | joined _ ih => simp [Span.comment, ih]

/-! ### Scans that give the same lexemes -/

/-- A scan that reaches the end and gives these lexemes. -/
structure Scanned.Gives (s : Scanned) (ls : List Lexeme) : Prop where
  reached : s.stopped = none
  lexemes : Piece.lexemes s.pieces = ls

private theorem Scanned.Gives.behind {s : Scanned} {ls : List Lexeme} (h : s.Gives ls)
    (pieces : List Piece) : (s.behind pieces).Gives (Piece.lexemes pieces ++ ls) :=
  ⟨h.reached, by rw [Scanned.behind, Piece.lexemes_append, h.lexemes]⟩

section Setting

variable {inside : List Enclosure} {fresh : Bool} {place : Nat} {t ins : Text} {ls : List Lexeme}

private theorem Scanned.Gives.elsewhere (h : (scan inside fresh place t).Gives ls) (place' : Nat) :
    (scan inside fresh place' t).Gives ls := by
  have moved : (scan inside fresh place' t).stopped = none ∧
      (scan inside fresh place' t).pieces = (scan inside fresh place t).pieces :=
    scan_elsewhere rfl id h.reached
  exact ⟨moved.1, moved.2 ▸ h.lexemes⟩

private theorem Scan.step_of_inScript (script : InScript (inside.map Enclosure.delimiter))
    (fresh : Bool) (place : Nat) (c : Char) (rest : Text) :
    step inside fresh place c rest = scriptStep inside fresh place c rest := by
  unfold step
  split
  · exact absurd rfl script
  · rfl

/-- In a script, layout in front of a text is a gap. -/
theorem gives_layout (layout : IsLayout ins) (script : InScript (inside.map Enclosure.delimiter))
    (h : (scan inside fresh place t).Gives ls) (place' : Nat) :
    (scan inside fresh place' (ins ++ t)).Gives ls := by
  induction layout generalizing place' with
  | nil => exact h.elsewhere place'
  | @blank c u spacing _ ih =>
    have step : Scan.step inside fresh place' c (u ++ t) =
        .read [.gap [c]] inside fresh (u ++ t) := by
      simp [Scan.step_of_inScript script, Scan.scriptStep, spacing]
    rw [List.cons_append, scan_of_read step]
    exact (ih _).behind [.gap [c]]
  | @joined u _ ih =>
    have step : Scan.step inside fresh place' '\\' ('\n' :: (u ++ t)) =
        .read [.gap ['\\', '\n']] inside fresh (u ++ t) := by
      simp [Scan.step_of_inScript script, Scan.scriptStep, isSpacing]
    rw [List.cons_append, List.cons_append, scan_of_read step]
    exact (ih _).behind [.gap ['\\', '\n']]

/-- No script goes on with a point. -/
theorem head?_ne_point (script : InScript (inside.map Enclosure.delimiter))
    (h : (scan inside fresh place t).stopped = none) : t.head? ≠ some '.' := by
  intro point
  obtain ⟨u, rfl⟩ := List.head?_eq_some_iff.mp point
  have digit : isDigit '.' = false := by decide +kernel
  have letter : startsName '.' = false := by decide +kernel
  have step : Scan.step inside fresh place '.' u = .stop [] (.unexpectedCharacter '.') place := by
    simp [Scan.step_of_inScript script, Scan.scriptStep, isSpacing, digit, letter, Scan.operator?]
  rw [scan_of_stop step] at h
  cases h

end Setting

/-! ### Where layout may stand -/

/-- Pieces that layout may stand behind, between some delimiters. -/
structure Piece.TakesLayout (around : List Delimiter) (ps : List Piece) : Prop where
  script : InScript (enclosing around (lexemes ps))
  block : ¬ InBlock ps
  dollar : ∀ s, ps.getLast? ≠ some (token (.symbol .dollar) s)

private theorem Piece.TakesLayout.of_append {around : List Delimiter} {ps qs : List Piece}
    (h : TakesLayout around (ps ++ qs)) : TakesLayout (enclosing around (lexemes ps)) qs := by
  refine ⟨by simpa using h.script, fun inside => h.block ?_, fun s last => h.dollar s ?_⟩
  · rcases inside with ⟨front, rfl⟩ | ⟨front, body, rfl⟩
    · exact .inl ⟨ps ++ front, by simp⟩
    · exact .inr ⟨ps ++ front, body, by simp⟩
  · rw [List.getLast?_append, last]
    rfl

namespace Scan

private theorem reference_cases (rest : Text) :
    (reference rest).1 = [.token (.symbol .dollar) ['$']] ∨
    ∃ n, (reference rest).1 = [.token (.symbol .dollar) ['$'], .token (.name n) n] := by
  unfold reference
  split
  · split
    · exact .inr ⟨_, rfl⟩
    · exact .inl rfl
  · exact .inl rfl

section Step

variable {inside inside' : List Enclosure} {fresh fresh' : Bool} {place : Nat} {c : Char}
  {rest v : Text} {pieces : List Piece}

/-- The pieces that a step reads: one, a dollar sign with a name, or a block. -/
theorem shape_of_step (h : step inside fresh place c rest = .read pieces inside' fresh' v) :
    (∃ p, pieces = [p]) ∨
      (∃ n, pieces = [.token (.symbol .dollar) ['$'], .token (.name n) n]) ∨
      ∃ body, pieces = [.token (.symbol .leftBrace) ['{'], .token (.name body) body,
        .token (.symbol .rightBrace) ['}']] := by
  have reference (rest : Text) : (∃ p, (reference rest).1 = [p]) ∨ _ :=
    (reference_cases rest).imp_left fun alone => ⟨_, alone⟩
  revert h
  unfold step
  split
  · next opened outer =>
    fun_cases quoteStep opened outer place c rest
    all_goals intro h
    all_goals cases h
    case case3.refl => exact (reference rest).imp_right .inl
    all_goals exact .inl ⟨_, rfl⟩
  · fun_cases scriptStep inside fresh place c rest
    all_goals intro h
    all_goals cases h
    case h_2.case7.refl => exact (reference rest).imp_right .inl
    case h_2.case11.refl brace _ _ =>
      subst brace
      exact .inr (.inr ⟨_, rfl⟩)
    all_goals exact .inl ⟨_, rfl⟩

/-- Layout may not stand between the pieces of a step. -/
theorem exists_append_of_step {ps qs others : List Piece} {around : List Delimiter}
    (h : step inside fresh place c rest = .read pieces inside' fresh' v)
    (takes : Piece.TakesLayout around ps) (some : ps ≠ []) (same : pieces ++ others = ps ++ qs) :
    ∃ behind, ps = pieces ++ behind ∧ others = behind ++ qs := by
  rcases List.append_eq_append_iff.mp same with found | ⟨x, rfl, rfl⟩
  · exact found
  · obtain ⟨p, ps, rfl⟩ := List.exists_cons_of_ne_nil some
    suffices whole : x = [] from ⟨[], by simp [whole]⟩
    rcases shape_of_step h with ⟨q, one⟩ | ⟨n, two⟩ | ⟨body, three⟩
    · exact (List.append_eq_nil_iff.mp (List.cons.inj one).2).2
    · rcases ps with _ | ⟨p', ps⟩
      · cases two
        exact absurd rfl (takes.dollar ['$'])
      · exact (List.append_eq_nil_iff.mp (List.cons.inj (List.cons.inj two).2).2).2
    · rcases ps with _ | ⟨p', _ | ⟨p'', ps⟩⟩
      · cases three
        exact absurd (.inl ⟨[], rfl⟩) takes.block
      · cases three
        exact absurd (.inr ⟨[], body, rfl⟩) takes.block
      · have last := (List.cons.inj (List.cons.inj (List.cons.inj three).2).2).2
        exact (List.append_eq_nil_iff.mp last).2

/-- A step that reads a comment reads it to the end of the line, whatever stands there. -/
theorem comment_of_step {x : Text}
    (h : step inside fresh place c rest = .read [.gap ('#' :: x)] inside' fresh' v) :
    Span.comment rest = (x, v) ∧
      ∀ t, step inside fresh place '#' t =
        .read [.gap ('#' :: (Span.comment t).1)] inside' fresh' (Span.comment t).2 := by
  obtain ⟨whole, -⟩ := sources_step h
  obtain rfl : '#' = c := (List.cons.inj whole).1
  have script : InScript (inside.map Enclosure.delimiter) := by
    apply inScript_iff.mpr
    rintro opened outer rfl
    change quoteStep opened outer place '#' rest = _ at h
    revert h
    fun_cases quoteStep opened outer place '#' rest
    all_goals intro h
    all_goals try cases h
    case case3 ended => simpa using Span.literal_eq_nil ended
  have step (t : Text) : step inside fresh place '#' t = scriptStep inside fresh place '#' t :=
    step_of_inScript script fresh place '#' t
  cases fresh with
  | false =>
    rw [step, scriptStep_hash] at h
    cases h
  | true =>
    have reads (t : Text) : scriptStep inside true place '#' t =
        .read [.gap ('#' :: (Span.comment t).1)] inside true (Span.comment t).2 := by
      simp [scriptStep, isSpacing]
    rw [step, reads] at h
    cases h
    exact ⟨rfl, fun t => (step t).trans (reads t)⟩

/-- Where layout may stand, the pieces of a step are a comment or go on with nothing. -/
theorem comment_or_closed {around : List Delimiter}
    (h : step inside fresh place c rest = .read pieces inside' fresh' v)
    (takes : Piece.TakesLayout around pieces) :
    (∃ x, pieces = [.gap ('#' :: x)]) ∨ ∀ p ∈ pieces.getLast?, p.isOpen = false := by
  rcases shape_of_step h with ⟨q, rfl⟩ | ⟨n, rfl⟩ | ⟨body, rfl⟩
  · cases goesOn : q.isOpen with
    | false => exact .inr (by simpa using goesOn)
    | true =>
      unfold Piece.isOpen at goesOn
      split at goesOn
      · exact absurd rfl (takes.dollar _)
      · exact .inl ⟨_, rfl⟩
      · cases goesOn
  · exact .inr (by simp [Piece.isOpen])
  · exact .inr (by simp [Piece.isOpen])

/-- What is read from a dollar sign on begins with its token, or is literal text of a string. -/
theorem step_dollar (h : step inside fresh place '$' rest = .read pieces inside' fresh' v) :
    (∃ more, pieces = .token (.symbol .dollar) ['$'] :: more) ∨
      ∃ t s, pieces = [.token (.name t) s] ∧ ¬ InScript (inside.map Enclosure.delimiter) := by
  have sign (rest : Text) :
      ∃ more, (reference rest).1 = .token (.symbol .dollar) ['$'] :: more := by
    obtain alone | ⟨n, named⟩ := reference_cases rest
    · exact ⟨_, alone⟩
    · exact ⟨_, named⟩
  revert h
  unfold step
  split
  · next opened outer =>
    have quoted : ¬ InScript ((Enclosure.quote opened :: outer).map Enclosure.delimiter) :=
      fun script => script rfl
    fun_cases quoteStep opened outer place '$' rest
    case case1 other | case2 other => exact absurd other (by decide)
    all_goals intro h
    all_goals cases h
    case case3.refl => exact .inl (sign rest)
    case case5.refl => exact .inr ⟨_, _, rfl, quoted⟩
  · intro h
    have signed : scriptStep inside fresh place '$' rest =
        .read (reference rest).1 inside false (reference rest).2 := by
      simp [scriptStep, isSpacing]
    cases signed.symm.trans h
    exact .inl (sign rest)

end Step

end Scan

/-- Layout behind a comment is read as part of it. -/
theorem scan_comment {inside inside' : List Enclosure} {fresh fresh' : Bool} {place : Nat}
    {c : Char} {rest x v ins : Text}
    (h : Scan.step inside fresh place c rest = .read [.gap ('#' :: x)] inside' fresh' v)
    (layout : IsLayout ins) :
    scan inside fresh place ('#' :: x ++ (ins ++ v)) =
      (scan inside' fresh' (place + ('#' :: (x ++ ins)).length) v).behind
        [.gap ('#' :: (x ++ ins))] := by
  obtain ⟨cut, reads⟩ := Scan.comment_of_step h
  have stops : v = [] ∨ ∃ u, v = '\n' :: u := by
    have stops := comment_stops rest
    rwa [cut] at stops
  have apart : (ins ++ v).head? = some '\n' → v ≠ [] := by
    rintro lineEnd rfl
    cases layout with
    | nil => cases lineEnd
    | blank spacing _ =>
      cases lineEnd
      cases spacing
    | joined _ => cases lineEnd
  have longer : Span.comment (x ++ (ins ++ v)) = (x ++ ins, v) := by
    rw [Span.comment_exchange cut apart, comment_layout layout stops]
  have step := reads (x ++ (ins ++ v))
  rw [longer] at step
  rw [List.cons_append, scan_of_read step]
  simp

/-- What a dollar sign begins takes no layout: the sign belongs to a name, or is literal. -/
theorem not_takesLayout_dollar {inside : List Enclosure} {fresh : Bool} {place : Nat} {u : Text}
    {p : Piece} {qs : List Piece} (cut : (scan inside fresh place ('$' :: u)).pieces = p :: qs) :
    ¬ Piece.TakesLayout (inside.map Enclosure.delimiter) [p] := by
  intro takes
  cases read : Scan.step inside fresh place '$' u with
  | stop pieces fault place' =>
    rw [scan_of_stop read] at cut
    rcases Scan.pieces_of_stop read with rfl | ⟨_, brace⟩
    · cases cut
    · cases brace
  | read pieces inside' fresh' v =>
    rw [scan_of_read read, Scanned.behind] at cut
    rcases Scan.step_dollar read with ⟨more, rfl⟩ | ⟨s, l, rfl, quoted⟩
    · obtain ⟨rfl, -⟩ := List.cons.inj cut
      exact takes.dollar _ rfl
    · obtain ⟨rfl, -⟩ := List.cons.inj cut
      exact quoted takes.script

/-- Where layout may stand behind pieces, the text behind whatever is in front of them begins with
them and can be exchanged for another one that does. -/
theorem exchange_of_cons {inside : List Enclosure} {fresh : Bool} {place : Nat} {v : Text}
    {p : Piece} {more qs : List Piece} (reached : (scan inside fresh place v).stopped = none)
    (cut : (scan inside fresh place v).pieces = p :: more ++ qs)
    (takes : Piece.TakesLayout (inside.map Enclosure.delimiter) (p :: more)) (front : List Piece)
    (w : Text) : Scan.Exchange inside front v (Piece.sources (p :: more) ++ w) := by
  have whole := sources_scan reached
  have formed := formed_scan inside fresh place v
  rw [cut] at whole formed
  have some : p.source ≠ [] := by
    intro empty
    have first : Piece.Formed _ ([] ++ p :: (more ++ qs)) := formed
    obtain ⟨front, _, none, _⟩ := first.block_of_empty empty
    simp at none
  obtain ⟨a, s, source⟩ := List.exists_cons_of_ne_nil some
  simp only [Piece.sources_append, Piece.sources_cons, source, List.cons_append,
    List.append_assoc] at whole ⊢
  refine .alike whole.symm ?_
  rintro rfl
  cases s with
  | cons b s => rfl
  | nil =>
    cases more with
    | nil =>
      rw [← whole] at cut
      exact absurd takes (not_takesLayout_dollar cut)
    | cons q more =>
      have later : q.source ≠ [] := by
        intro empty
        have second : Piece.Formed _ ([p] ++ q :: (more ++ qs)) := formed
        obtain ⟨front, _, brace, _⟩ := second.block_of_empty empty
        obtain rfl : p = .token (.symbol .leftBrace) ['{'] := by
          simpa using congrArg List.getLast? brace
        cases source
      obtain ⟨b, t, next⟩ := List.exists_cons_of_ne_nil later
      simp [next]

/-- Layout goes behind the pieces of a step: into a comment, else into a gap of its own. -/
theorem gives_step {inside inside' : List Enclosure} {fresh fresh' : Bool} {place place' : Nat}
    {c : Char} {rest v ins : Text} {pieces : List Piece} {ls : List Lexeme}
    (layout : IsLayout ins)
    (step : Scan.step inside fresh place c rest = .read pieces inside' fresh' v)
    (takes : Piece.TakesLayout (inside.map Enclosure.delimiter) pieces)
    (h : (scan inside' fresh' place' v).Gives ls) :
    (scan inside fresh place (Piece.sources pieces ++ (ins ++ v))).Gives
      (Piece.lexemes pieces ++ ls) := by
  have script := takes.script
  rw [Scan.enclosing_step step] at script
  rcases Scan.comment_or_closed step takes with ⟨x, rfl⟩ | closed
  · have longer := scan_comment step layout
    rw [Piece.sources_cons, Piece.sources_nil, List.append_nil, Piece.source_gap, longer]
    exact (h.elsewhere _).behind [.gap ('#' :: (x ++ ins))]
  · cases ins with
    | nil =>
      rw [List.nil_append, (Scan.sources_step step).1, scan_of_read step]
      exact (h.elsewhere _).behind pieces
    | cons d u =>
      have point := head?_ne_point script h.reached
      have exchange : Scan.Exchange inside' pieces v (d :: u ++ v) :=
        .apart layout.endsWord script closed
      rw [scan_exchange step (fun _ => point) exchange]
      exact (gives_layout layout script h _).behind pieces

/-- Layout that is put in where it may stand changes no lexeme that a scan gives. -/
theorem gives_insert {inside : List Enclosure} {fresh : Bool} {place : Nat} {t ins : Text}
    {ps qs : List Piece} {ls : List Lexeme} (layout : IsLayout ins)
    (h : (scan inside fresh place t).Gives ls)
    (cut : (scan inside fresh place t).pieces = ps ++ qs)
    (takes : Piece.TakesLayout (inside.map Enclosure.delimiter) ps) :
    (scan inside fresh place (Piece.sources ps ++ (ins ++ Piece.sources qs))).Gives ls := by
  fun_induction scan inside fresh place t generalizing ps ls with
  | case1 fresh place =>
    obtain ⟨rfl, rfl⟩ := List.append_eq_nil_iff.mp cut.symm
    have nothing : (scan [] fresh place []).Gives ls := by simpa [scan] using h
    exact gives_layout layout takes.script nothing place
  | case2 | case3 | case5 => cases h.reached
  | case4 inside fresh place c rest pieces inside' fresh' v step ih =>
    -- The layout stands in front of the pieces of this step, right behind them, or farther on.
    by_cases none : ps = []
    · subst none
      rw [← scan_of_read step] at h cut
      have whole : Piece.sources qs = c :: rest := by
        rw [← sources_scan h.reached, cut, List.nil_append]
      rw [Piece.sources_nil, List.nil_append, whole]
      exact gives_layout layout takes.script h place
    obtain ⟨reached, rfl⟩ := h
    obtain ⟨behind, rfl, others⟩ := Scan.exists_append_of_step step takes none cut
    simp only [Scanned.behind, Piece.lexemes_append]
    cases behind with
    | nil =>
      have whole : Piece.sources qs = v := by rw [← sources_scan reached, others, List.nil_append]
      rw [List.append_nil] at takes ⊢
      rw [whole]
      exact gives_step layout step takes ⟨reached, rfl⟩
    | cons p more =>
      have later := takes.of_append
      rw [Scan.enclosing_step step] at later
      have exchange := exchange_of_cons reached others later pieces (ins ++ Piece.sources qs)
      rw [Piece.sources_append, List.append_assoc,
        scan_exchange step (fun script => head?_ne_point script reached) exchange]
      exact (ih ⟨reached, rfl⟩ others later).behind pieces

/-- **Layout does not matter.** Blanks and joined lines may be put in wherever a token or a piece of
a gap begins or ends, but directly between quotes, in a block and directly behind a dollar sign: a
text without lexical faults still has none, and its tokens are of the same kinds, with the same
texts. -/
theorem TokenStream.insert_layout {t ins : Text} {ps qs : List Piece} {start : Position}
    (sound : (ofText t start).fault = none) (cut : (Scanned.ofText t).pieces = ps ++ qs)
    (quotes : ¬ InQuote (Piece.lexemes ps)) (block : ¬ Piece.InBlock ps)
    (dollar : ∀ s, ps.getLast? ≠ some (.token (.symbol .dollar) s)) (layout : IsLayout ins) :
    (ofText (Piece.sources ps ++ (ins ++ Piece.sources qs)) start).fault = none ∧
      lexemes (ofText (Piece.sources ps ++ (ins ++ Piece.sources qs)) start).tokens =
        lexemes (ofText t start).tokens := by
  have reached := (fault_ofText t start).mp sound
  have gives : (Scanned.ofText (Piece.sources ps ++ (ins ++ Piece.sources qs))).Gives
      (Piece.lexemes (Scanned.ofText t).pieces) :=
    gives_insert layout ⟨reached, rfl⟩ cut ⟨quotes, block, dollar⟩
  refine ⟨(fault_ofText _ start).mpr gives.reached, ?_⟩
  rw [lexemes_ofText, lexemes_ofText, gives.reached, gives.lexemes, reached]

/-- A joined line behind a comment, in a command in a string. -/
theorem TokenStream.insert_layout_comment :
    (ofText "puts \"a[# note \\\n\t\nset x 5]\"".toList .start).fault = none ∧
      lexemes (ofText "puts \"a[# note \\\n\t\nset x 5]\"".toList .start).tokens =
        lexemes (ofText "puts \"a[# note\nset x 5]\"".toList .start).tokens := by
  have cut : (Scanned.ofText "puts \"a[# note\nset x 5]\"".toList).pieces =
      [.token (.symbol .puts) "puts".toList, .gap [' '], .token (.symbol .leftQuote) ['"'],
        .token (.name ['a']) ['a'], .token (.symbol .leftBracket) ['['], .gap "# note".toList] ++
      [.token (.symbol .endOfLine) ['\n'], .token (.symbol .set) "set".toList, .gap [' '],
        .token (.name ['x']) ['x'], .gap [' '], .token (.number ['5']) ['5'],
        .token (.symbol .rightBracket) [']'], .token (.symbol .rightQuote) ['"']] := by
    decide +kernel
  have layout : IsLayout " \\\n\t".toList := .blank rfl (.joined (.blank rfl .nil))
  refine insert_layout (by decide +kernel) cut ?_ ?_ (by simp) layout
  · simp [InQuote, Lexeme.enclose]
  · rintro (⟨front, same⟩ | ⟨front, body, same⟩)
    · simpa using congrArg List.getLast? same
    · simpa using congrArg List.getLast? same

end TinyTcl
