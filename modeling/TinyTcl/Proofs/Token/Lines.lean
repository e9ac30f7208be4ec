import TinyTcl.Proofs.Token.Cut
import TinyTcl.Proofs.Token.Setting

/-! A text with further lines behind it. What a step reads of a text that is cut to its end it also
reads with a further line behind the text (`Scan.step_lineEnd`), as long as no backslash joins the
two lines; behind the line end the scan goes on as it would in a text of its own (`scan_lineEnd`).
The text may also stand between delimiters. Then no closing bracket that has nothing to close may
stand in it, since it would close what is around the text (`Confined`). -/
namespace TinyTcl

theorem takeWhile_append_of_stop {α : Type} {p : α → Bool} {a : α} (stops : p a = false)
    (as bs : List α) : (as ++ a :: bs).takeWhile p = as.takeWhile p := by
  induction as with
  | nil => simp [stops]
  | cons b rest ih => cases kept : p b <;> simp [kept, ih]

theorem dropWhile_append_of_stop {α : Type} {p : α → Bool} {a : α} (stops : p a = false)
    (as bs : List α) : (as ++ a :: bs).dropWhile p = as.dropWhile p ++ a :: bs := by
  induction as with
  | nil => simp [stops]
  | cons b rest ih => cases kept : p b <;> simp [kept, ih]

/-- Neither a word nor a number goes on with this character. -/
structure EndsWord (c : Char) : Prop where
  word : continuesName c = false
  point : c ≠ '.'

private theorem EndsWord.digit {c : Char} (h : EndsWord c) : isDigit c = false := by
  rw [Bool.eq_false_iff]
  intro digit
  cases h.word.symm.trans (continuesName_of_isDigit digit)

theorem endsWord_lineEnd : EndsWord '\n' := ⟨by decide +kernel, by decide⟩

private theorem startsName_lineEnd : startsName '\n' = false := by decide +kernel

namespace Span

section EndsWord

variable {c : Char} (h : EndsWord c) (t u : Text)

include h

theorem word_append_of_endsWord : word (t ++ c :: u) = ((word t).1, (word t).2 ++ c :: u) := by
  simp only [word, takeWhile_append_of_stop h.word, dropWhile_append_of_stop h.word]

private theorem digits_append_of_endsWord :
    digits (t ++ c :: u) = ((digits t).1, (digits t).2 ++ c :: u) := by
  unfold digits
  rw [takeWhile_append_of_stop h.digit, dropWhile_append_of_stop h.digit]
  rcases t.dropWhile isDigit with _ | ⟨d, _ | ⟨e, rest⟩⟩
  · simp [h.point]
  · by_cases point : d = '.'
    · subst point
      simp [h.digit]
    · simp [point]
  · by_cases point : d = '.'
    · subst point
      cases fraction : isDigit e
      · simp [fraction]
      · simp [fraction, takeWhile_append_of_stop h.digit, dropWhile_append_of_stop h.digit]
    · simp [point]

end EndsWord

variable {t : Text} (u : Text)

theorem comment_of_other {c : Char} {rest : Text} (joined : c = '\\' → rest.head? ≠ some '\n')
    (other : c ≠ '\n') : comment (c :: rest) = (c :: (comment rest).1, (comment rest).2) := by
  rw [comment.eq_def]
  split
  · next same =>
    cases same
    exact absurd rfl (joined rfl)
  · next same =>
    cases same
    exact absurd rfl other
  · next same =>
    cases same
    rfl
  · next same => cases same

private theorem comment_lineEnd (plain : t.getLast? ≠ some '\\') :
    comment (t ++ '\n' :: u) = ((comment t).1, (comment t).2 ++ '\n' :: u) := by
  fun_induction comment t with
  | case1 rest ih =>
    have later : rest.getLast? ≠ some '\\' := by
      cases rest <;> simp_all
    simp [comment, ih later]
  | case2 rest => simp [comment]
  | case3 c rest joined other ih =>
    have later : rest.getLast? ≠ some '\\' := by
      cases rest <;> simp_all
    have apart : c = '\\' → (rest ++ '\n' :: u).head? ≠ some '\n' := by
      rintro rfl
      cases rest <;> simp_all
    rw [List.cons_append, comment_of_other apart other, ih later]
  | case4 => simp [comment]

private theorem literal_append_of_stop {l r v : Text} {c : Char} (h : literal t = (l, c :: r)) :
    literal (t ++ v) = (l, c :: (r ++ v)) := by
  fun_induction literal t generalizing l with
  | case1 => cases h
  | case2 rest | case3 rest =>
    cases h
    simp [literal]
  | case4 d rest ih =>
    simp only [Prod.mk.injEq] at h
    obtain ⟨rfl, behind⟩ := h
    simp [literal, ih (Prod.ext rfl behind)]
  | case5 d rest starts =>
    cases h
    simp [literal, starts]
  | case6 d rest starts ih =>
    simp only [Prod.mk.injEq] at h
    obtain ⟨rfl, behind⟩ := h
    have := ih (Prod.ext rfl behind)
    simp_all [literal]
  | case7 d rest quote bracket escape dollar ih =>
    simp only [Prod.mk.injEq] at h
    obtain ⟨rfl, behind⟩ := h
    have later := ih (Prod.ext rfl behind)
    cases rest with
    | nil => cases behind
    | cons e rest =>
      have escape : d ≠ '\\' := fun same => escape e rest same rfl
      have dollar : d ≠ '$' := fun same => dollar e rest same rfl
      rw [List.cons_append] at later ⊢
      simp_all [literal]

private theorem body_append_of_some {depth : Nat} {b r v : Text} (h : body depth t = some (b, r)) :
    body depth (t ++ v) = some (b, r ++ v) := by
  fun_induction body depth t generalizing b r with
  | case1 => cases h
  | case2 depth c rest ih =>
    obtain ⟨⟨b', r'⟩, found, same⟩ := Option.map_eq_some_iff.mp h
    cases same
    simp [body, ih found]
  | case3 depth rest ih =>
    obtain ⟨⟨b', r'⟩, found, same⟩ := Option.map_eq_some_iff.mp h
    cases same
    simp [body, ih found]
  | case4 rest =>
    cases h
    simp [body]
  | case5 depth rest ih =>
    obtain ⟨⟨b', r'⟩, found, same⟩ := Option.map_eq_some_iff.mp h
    cases same
    simp [body, ih found]
  | case6 depth c rest escape opens closes closesInner ih =>
    obtain ⟨⟨b', r'⟩, found, same⟩ := Option.map_eq_some_iff.mp h
    cases same
    have later := ih found
    cases rest with
    | nil => cases depth <;> cases found
    | cons e rest =>
      have escape : c ≠ '\\' := fun same => escape e rest same rfl
      have closes : c ≠ '}' := by
        cases depth with
        | zero => exact closes rfl
        | succ depth => exact closesInner depth rfl
      rw [List.cons_append] at later ⊢
      simp_all [body]

end Span

/-- No closing bracket stands outside of all delimiters. -/
def Confined : List Delimiter → List Lexeme → Prop
  | _, [] => True
  | around, l :: rest =>
    (l = .symbol .rightBracket → around ≠ []) ∧ Confined (l.enclose around) rest

private theorem confined_append {around : List Delimiter} {ls ms : List Lexeme} :
    Confined around (ls ++ ms) ↔ Confined around ls ∧ Confined (enclosing around ls) ms := by
  induction ls generalizing around with
  | nil => simp [Confined]
  | cons l rest ih => simp [Confined, ih, and_assoc]

/-- Lexemes that leave the delimiters around them as they were close none of these: a bracket that
was closed without another in front would be closed in place of a quote around the lexemes, too. -/
theorem confined_of_enclosing {ls : List Lexeme} (closed : ∀ around, enclosing around ls = around) :
    Confined [] ls := by
  suffices general : ∀ {around}, enclosing around ls = [] →
      enclosing (around ++ [.quote]) ls = [.quote] → Confined around ls from
    general (closed []) (closed [.quote])
  clear closed
  intro around alone quoted
  induction ls generalizing around with
  | nil => trivial
  | cons l rest ih =>
    rw [enclosing_cons] at alone quoted
    by_cases closes : around = [] ∧ (l = .symbol .rightBracket ∨ l = .symbol .rightQuote)
    · obtain ⟨rfl, rfl | rfl⟩ := closes
      · cases alone.symm.trans quoted
      · cases alone.symm.trans quoted
    · have apart : l.enclose (around ++ [.quote]) = l.enclose around ++ [.quote] := by
        unfold Lexeme.enclose
        split
        · rfl
        · rfl
        · exact List.tail_append_of_ne_nil fun none => closes ⟨none, .inl rfl⟩
        · exact List.tail_append_of_ne_nil fun none => closes ⟨none, .inr rfl⟩
        · rfl
      exact ⟨fun bracket none => closes ⟨none, .inl bracket⟩, ih alone (apart ▸ quoted)⟩

namespace Scan

/-- Whether another step reads what a step reads, if it reads anything, with the delimiters `outer`
around those that a step leaves open and another line behind what it leaves unread. -/
def Step.Extends (outer : List Enclosure) (u : Text) : Step → Step → Prop
  | .read pieces inside fresh rest, other =>
    other = .read pieces (inside ++ outer) fresh (rest ++ '\n' :: u)
  | .stop _ _ _, _ => True

section Extends

variable {outer : List Enclosure} {u : Text}

private theorem reference_lineEnd (rest : Text) : reference (rest ++ '\n' :: u) =
    ((reference rest).1, (reference rest).2 ++ '\n' :: u) := by
  cases rest with
  | nil => simp [reference, startsName_lineEnd]
  | cons c rest =>
    have word := Span.word_append_of_endsWord endsWord_lineEnd (c :: rest) u
    rw [List.cons_append] at word
    simp only [reference, List.cons_append, word]
    split
    · rfl
    · rfl

theorem number_append_of_endsWord {c : Char} (h : EndsWord c) (t : Text) :
    number (t ++ c :: u) = ((number t).1, (number t).2 ++ c :: u) := by
  simp only [number, Span.digits_append_of_endsWord h, Span.word_append_of_endsWord h]

variable (outer u) in
private theorem scriptStep_lineEnd {inside : List Enclosure} {c : Char} {rest : Text} (fresh : Bool)
    (place : Nat) (plain : rest.getLast? ≠ some '\\') (confined : c = ']' → inside ≠ []) :
    (scriptStep inside fresh place c rest).Extends outer u
      (scriptStep (inside ++ outer) fresh place c (rest ++ '\n' :: u)) := by
  have number := number_append_of_endsWord (u := u) endsWord_lineEnd (c :: rest)
  have word := Span.word_append_of_endsWord endsWord_lineEnd (c :: rest) u
  rw [List.cons_append] at number word
  unfold scriptStep
  rw [number, reference_lineEnd, Span.comment_lineEnd u plain, word]
  refine Step.rel_ite (fun _ => rfl) fun _ => ?_
  refine Step.rel_ite (fun _ => ?joined) fun _ => ?_
  case joined =>
    split
    · rfl
    · trivial
  refine Step.rel_ite (fun _ => rfl) fun _ => ?_
  refine Step.rel_ite (fun _ => rfl) fun _ => ?_
  refine Step.rel_ite (fun _ => rfl) fun _ => ?_
  refine Step.rel_ite (fun _ => rfl) fun _ => ?_
  refine Step.rel_ite (fun _ => rfl) fun _ => ?_
  refine Step.rel_ite (fun closes => ?closing) fun _ => ?_
  case closing =>
    obtain ⟨first, others, rfl⟩ := List.exists_cons_of_ne_nil (confined closes)
    rfl
  refine Step.rel_ite (fun _ => rfl) fun _ => ?_
  refine Step.rel_ite (fun _ => ?block) fun _ => ?_
  case block =>
    cases found : Span.body 0 rest with
    | none => trivial
    | some parts =>
      rw [Span.body_append_of_some found]
      rfl
  refine Step.rel_ite (fun _ => rfl) fun _ => ?_
  refine Step.rel_ite (fun _ => rfl) fun _ => ?_
  split
  · rfl
  · trivial

variable (outer u) in
private theorem quoteStep_lineEnd (opened : Nat) (inner : List Enclosure) (place : Nat) (c : Char)
    (rest : Text) : (quoteStep opened inner place c rest).Extends outer u
      (quoteStep opened (inner ++ outer) place c (rest ++ '\n' :: u)) := by
  unfold quoteStep
  rw [reference_lineEnd]
  refine Step.rel_ite (fun _ => rfl) fun _ => ?_
  refine Step.rel_ite (fun _ => rfl) fun _ => ?_
  rcases found : Span.literal (c :: rest) with ⟨literal, _ | ⟨d, behind⟩⟩
  · cases literal with
    | nil =>
      have := Span.literal_append (c :: rest)
      rw [found] at this
      cases this
    | cons a l => trivial
  · have longer := Span.literal_append_of_stop (v := '\n' :: u) found
    rw [List.cons_append] at longer
    rw [longer]
    cases literal with
    | nil => rfl
    | cons a l => rfl

private theorem inside_ne_nil_of_confined {inside inside' : List Enclosure} {fresh fresh' : Bool}
    {place : Nat} {c : Char} {rest rest' : Text} {pieces : List Piece}
    (h : scriptStep inside fresh place c rest = .read pieces inside' fresh' rest')
    (confined : Confined (inside.map Enclosure.delimiter) (Piece.lexemes pieces))
    (closes : c = ']') : inside ≠ [] := by
  subst closes
  have bracket : scriptStep inside fresh place ']' rest =
      .read [.token (.symbol .rightBracket) [']']] inside.tail false rest := rfl
  rw [bracket] at h
  cases h
  rintro rfl
  exact confined.1 rfl rfl

/-- What a step reads does not depend on a further line behind the text, nor on what encloses the
delimiters that it can close. -/
theorem step_lineEnd {inside inside' : List Enclosure} {fresh fresh' : Bool} {place : Nat}
    {c : Char} {rest rest' : Text} {pieces : List Piece}
    (h : step inside fresh place c rest = .read pieces inside' fresh' rest')
    (plain : rest.getLast? ≠ some '\\')
    (confined : Confined (inside.map Enclosure.delimiter) (Piece.lexemes pieces))
    (script : ∀ opened others, outer ≠ .quote opened :: others) :
    step (inside ++ outer) fresh place c (rest ++ '\n' :: u) =
      .read pieces (inside' ++ outer) fresh' (rest' ++ '\n' :: u) := by
  have scripted {first : List Enclosure} (other : ∀ opened others, first ≠ .quote opened :: others)
      (rest : Text) : step first fresh place c rest = scriptStep first fresh place c rest := by
    unfold step
    split
    · next opened others => exact absurd rfl (other opened others)
    · rfl
  rcases inside with _ | ⟨opened | opened, others⟩
  · have longer := scriptStep_lineEnd outer u fresh place plain
      (inside_ne_nil_of_confined h confined)
    rw [show scriptStep [] fresh place c rest = _ from h] at longer
    exact (scripted script _).trans longer
  · have longer := scriptStep_lineEnd outer u fresh place plain
      (inside_ne_nil_of_confined h confined)
    rw [show scriptStep (.bracket opened :: others) fresh place c rest = _ from h] at longer
    exact longer
  · have longer := quoteStep_lineEnd outer u opened others place c rest
    rw [show quoteStep opened others place c rest = _ from h] at longer
    exact longer

end Extends

end Scan

private theorem getLast?_ne_of_append {α : Type} {a : α} {as bs : List α}
    (h : (as ++ bs).getLast? ≠ some a) : bs.getLast? ≠ some a := by
  rcases List.eq_nil_or_concat bs with rfl | ⟨front, b, rfl⟩
  · simp
  · simpa [List.concat_eq_append, ← List.append_assoc] using h

/-- The token of a line end, as a piece. -/
abbrev Piece.lineEnd : Piece := .token (.symbol .endOfLine) ['\n']

/-- **A line end closes off a text.** Behind a text that is cut to its end, a line end is a token,
and what follows is cut by itself, inside the delimiters around the text. -/
theorem scan_lineEnd {inside : List Enclosure} {fresh : Bool} {place : Nat} {t : Text}
    (outer : List Enclosure) (u : Text) (reached : (scan inside fresh place t).stopped = none)
    (plain : t.getLast? ≠ some '\\')
    (confined : Confined (inside.map Enclosure.delimiter)
      (Piece.lexemes (scan inside fresh place t).pieces))
    (script : ∀ opened others, outer ≠ .quote opened :: others) :
    scan (inside ++ outer) fresh place (t ++ '\n' :: u) =
      (scan outer true (place + t.length + 1) u).behind
        ((scan inside fresh place t).pieces ++ [.lineEnd]) := by
  fun_induction scan inside fresh place t with
  | case1 fresh place =>
    have step : Scan.step outer fresh place '\n' u = .read [.lineEnd] outer true u := by
      unfold Scan.step
      split
      · next opened others => exact absurd rfl (script opened others)
      · rfl
    exact scan_of_read step
  | case2 | case3 => simp at reached
  | case4 inside fresh place c rest pieces inside' fresh' rest' step ih =>
    have whole := (Scan.sources_step step).1
    simp only [Scanned.behind, Piece.lexemes_append, confined_append, Scan.enclosing_step step]
      at reached confined
    have later := ih reached (getLast?_ne_of_append (whole ▸ plain)) confined.2
    have plain : rest.getLast? ≠ some '\\' :=
      getLast?_ne_of_append (show ([c] ++ rest).getLast? ≠ some '\\' from plain)
    have offset : place + (Piece.sources pieces).length + rest'.length =
        place + (c :: rest).length := by
      rw [Nat.add_assoc, ← List.length_append, whole]
    rw [List.cons_append, scan_of_read (Scan.step_lineEnd step plain confined.1 script), later]
    simp only [Scanned.behind, List.append_assoc, offset]
  | case5 => simp at reached

/-- Behind a line end the tokens of a text are those of a text of its own. -/
theorem TokenStream.ofText_lineEnd {t : Text} (u : Text) (start : Position)
    (reached : (Scanned.ofText t).stopped = none) (plain : t.getLast? ≠ some '\\')
    (confined : Confined [] (Piece.lexemes (Scanned.ofText t).pieces)) :
    ofText (t ++ '\n' :: u) start =
      ⟨Piece.tokensFrom start (Scanned.ofText t).pieces ++ .ofSymbol .endOfLine (start.after t) ::
          (ofText u (start.after (t ++ ['\n']))).tokens,
        (ofText u (start.after (t ++ ['\n']))).fault⟩ := by
  have cut : Scanned.ofText (t ++ '\n' :: u) = ((Scanned.ofText u).shift (t.length + 1)).behind
      ((Scanned.ofText t).pieces ++ [.lineEnd]) := by
    have closed := scan_lineEnd [] u reached plain confined (by simp)
    have moved := scan_shift (t.length + 1) [] true 0 u
    rw [Nat.zero_add] at closed
    rw [List.map_nil, Nat.add_zero] at moved
    rw [moved] at closed
    exact closed
  have tokens (p : List Piece) :
      Piece.tokensFrom start ((Scanned.ofText t).pieces ++ [.lineEnd] ++ p) =
        Piece.tokensFrom start (Scanned.ofText t).pieces ++
          .ofSymbol .endOfLine (start.after t) ::
            Piece.tokensFrom (start.after (t ++ ['\n'])) p := by
    have whole : Piece.sources (Scanned.ofText t).pieces = t := sources_scan reached
    rw [List.append_assoc, Piece.tokensFrom_append, whole, Position.after_append]
    rfl
  have place (k : Nat) : start.after ((t ++ '\n' :: u).take (t.length + 1 + k)) =
      (start.after (t ++ ['\n'])).after (u.take k) := by
    have split : t ++ '\n' :: u = (t ++ ['\n']) ++ u := by simp
    have length : t.length + 1 = (t ++ ['\n']).length := by simp
    rw [split, length, List.take_length_add_append, Position.after_append]
  have last : start.after (t ++ '\n' :: u) = (start.after (t ++ ['\n'])).after u := by
    simp
  unfold ofText
  rw [cut]
  rcases stopped : (Scanned.ofText u).stopped with _ | ⟨fault, k⟩
  · simp only [Scanned.behind, Scanned.shift, stopped, Option.map_none, tokens, last]
    simp
  · simp only [Scanned.behind, Scanned.shift, stopped, Option.map_some, tokens, place]

/-- Behind a line end the place is the first one of a further line. -/
theorem Position.after_lineEnd (p : Position) (t : Text) :
    p.after (t ++ ['\n']) = ⟨p.line + t.count '\n' + 1, 1⟩ := by
  induction t generalizing p with
  | nil => simp [next]
  | cons c rest ih =>
    rw [List.cons_append, after_cons, ih]
    by_cases lineEnd : c = '\n'
    · subst lineEnd
      simp [next]
      omega
    · simp [next, lineEnd]

end TinyTcl
