import TinyTcl.Proofs.Token.Braces
import TinyTcl.Proofs.Token.Tiling
import TinyTcl.Proofs.Token.Words

/-! How little a step reads ahead. Behind the pieces of a step another text may stand if it begins
in the same way, or, in a script, if no piece goes on with it (`Scan.Exchange`): the step then reads
the same pieces in front of the other text (`Scan.step_exchange`). -/
namespace TinyTcl

/-! ### Behind a span -/

namespace Span

variable {t v w : Text}

private theorem word_stops {n : Text} (h : word t = (n, v)) :
    ∀ c ∈ v.head?, continuesName c = false := by
  obtain ⟨-, rfl⟩ := Prod.mk.inj h
  intro c first
  have stop := List.head?_dropWhile_not continuesName t
  simpa [Option.mem_def.mp first] using stop

private theorem word_exchange {n : Text} (h : word t = (n, v))
    (ends : ∀ c ∈ w.head?, continuesName c = false) : word (n ++ w) = (n, w) := by
  obtain ⟨rfl, -⟩ := Prod.mk.inj h
  exact word_append_of_all (fun _ inside => List.mem_takeWhile_imp inside) ends

/-- A comment goes on with another text as that text goes on by itself. A line end in front of it
could be joined to a backslash, so it may come first only where one ended the comment before. -/
theorem comment_exchange {x : Text} (h : comment t = (x, v))
    (apart : w.head? = some '\n' → v ≠ []) :
    comment (x ++ w) = (x ++ (comment w).1, (comment w).2) := by
  fun_induction comment t generalizing x with
  | case1 rest ih =>
    obtain ⟨rfl, same⟩ := Prod.mk.inj h
    simp [comment, ih (Prod.ext rfl same)]
  | case2 | case4 =>
    obtain ⟨rfl, -⟩ := Prod.mk.inj h
    rfl
  | case3 c rest joined other ih =>
    obtain ⟨rfl, rfl⟩ := Prod.mk.inj h
    have whole := comment_append rest
    have later : c = '\\' → ((comment rest).1 ++ w).head? ≠ some '\n' := by
      intro backslash lineEnd
      cases front : (comment rest).1 with
      | nil =>
        rw [front] at whole lineEnd
        obtain ⟨u, stops⟩ := (comment_stops rest).resolve_left (apart lineEnd)
        exact joined u backslash (whole.symm.trans stops)
      | cons d u =>
        rw [front] at whole lineEnd
        cases lineEnd
        exact joined _ backslash whole.symm
    rw [List.cons_append, comment_of_other later other, ih rfl, List.cons_append]

/-- Literal text ends in front of a text that begins as the one behind it. -/
theorem literal_exchange {l : Text} {a : Char} (h : literal t = (l, a :: v))
    (second : a = '$' → w.head? = v.head?) : literal (l ++ a :: w) = (l, a :: w) := by
  fun_induction literal t generalizing l with
  | case1 => cases h
  | case2 rest | case3 rest =>
    cases h
    simp [literal]
  | case4 c rest ih =>
    obtain ⟨rfl, same⟩ := Prod.mk.inj h
    simp [literal, ih (Prod.ext rfl same)]
  | case5 c rest starts =>
    cases h
    obtain ⟨u, rfl⟩ := List.head?_eq_some_iff.mp (second rfl)
    simp [literal, starts]
  | case6 c rest starts ih =>
    obtain ⟨rfl, same⟩ := Prod.mk.inj h
    have later := ih (Prod.ext rfl same)
    obtain ⟨u, begins⟩ : ∃ u, (literal (c :: rest)).1 ++ a :: w = c :: u := by
      have whole := literal_append (c :: rest)
      rw [same] at whole
      cases front : (literal (c :: rest)).1 <;> simp_all
    rw [List.cons_append, begins]
    rw [begins] at later
    simp [literal, starts, later]
  | case7 c rest quote bracket escape dollar ih =>
    obtain ⟨rfl, same⟩ := Prod.mk.inj h
    have later := ih (Prod.ext rfl same)
    cases rest with
    | nil => cases same
    | cons d rest =>
      have escape : c ≠ '\\' := fun same => escape d rest same rfl
      have dollar : c ≠ '$' := fun same => dollar d rest same rfl
      simp_all [literal]

private theorem body_exchange {b : Text} (h : body 0 t = some (b, v)) :
    body 0 (b ++ '}' :: w) = some (b, w) := by
  have balanced : Balanced b := closes_of_body h
  rw [body_append_of_balanced balanced, body]
  simp

end Span

/-! ### Behind a step -/

/-- Whether a piece may go on with what follows: a dollar sign, which takes a name, or a comment. -/
def Piece.isOpen : Piece → Bool
  | token (.symbol .dollar) _ => true
  | gap ('#' :: _) => true
  | _ => false

namespace Scan

private theorem number_stops {t v : Text} {p : Piece} (h : number t = (p, v)) :
    ∀ c ∈ v.head?, continuesName c = false := by
  obtain ⟨-, rfl⟩ := Prod.mk.inj h
  exact Span.word_stops (t := (Span.digits t).2) rfl

private theorem number_exchange {t v w : Text} {p : Piece} (h : number t = (p, v))
    (stop : v.EndsWord) (ends : w.EndsWord) :
    number (p.source ++ w) = (p, w) := by
  have alone : number p.source = (p, []) := by
    have whole := source_number t
    rw [h] at whole
    cases v with
    | nil => rwa [← whole, List.append_nil] at h
    | cons d u =>
      have cut := number_append_of_endsWord (u := u) (stop d rfl) p.source
      rw [whole, h] at cut
      obtain ⟨same, rest⟩ := Prod.mk.inj cut
      exact Prod.ext same.symm (List.append_left_eq_self.mp rest.symm)
  cases w with
  | nil => rwa [List.append_nil]
  | cons d u => rw [number_append_of_endsWord (ends d rfl), alone, List.nil_append]

/-- Whether another text may stand behind pieces that were read in front of a text. It may if it
begins with the same character, and the same one behind a dollar sign; in a script also if no word
or number goes on with it and the last piece is not open. -/
inductive Exchange (inside : List Enclosure) (pieces : List Piece) (v : Text) : Text → Prop where
  | alike {a : Char} {u w : Text} : v = a :: u → (a = '$' → w.head? = u.head?) →
      Exchange inside pieces v (a :: w)
  | apart {d : Char} {w : Text} : EndsWord d → InScript (inside.map Enclosure.delimiter) →
      (∀ p ∈ pieces.getLast?, p.isOpen = false) → Exchange inside pieces v (d :: w)

variable {inside : List Enclosure} {pieces : List Piece} {v w : Text}

private theorem Exchange.endsName (h : Exchange inside pieces v w)
    (ends : ∀ c ∈ v.head?, continuesName c = false) :
    ∀ c ∈ w.head?, continuesName c = false := by
  cases h with
  | alike same _ =>
    subst same
    exact ends
  | apart stop _ _ =>
    rintro c ⟨⟩
    exact stop.word

private theorem Exchange.endsWord (h : Exchange inside pieces v w) (ends : v.EndsWord) :
    w.EndsWord := by
  cases h with
  | alike same _ =>
    subst same
    exact ends
  | apart stop _ _ => exact Text.endsWord_cons stop _

/-- Whether another step, on a `whole` text that goes on with `w` behind the pieces of a step, reads
these pieces, too. In a script a point must not follow the pieces: no script goes on with one, but a
number does. -/
def Step.Exchanges (whole w : Text) : Step → Step → Prop
  | .read pieces inside fresh v, other =>
    (InScript (inside.map Enclosure.delimiter) → v.head? ≠ some '.') →
      Exchange inside pieces v w → Piece.sources pieces ++ w = whole →
      other = .read pieces inside fresh w
  | .stop _ _ _, _ => True

section Steps

variable {fresh : Bool} {c : Char} {rest other : Text}

/-- A step that reads one character needs nothing of what follows. -/
theorem Step.Exchanges.single {p : Piece} (source : p.source = [c]) :
    (Step.read [p] inside fresh rest).Exchanges (c :: other) w (.read [p] inside fresh other) := by
  intro _ _ whole
  have same : c :: w = c :: other := by simpa [source] using whole
  rw [(List.cons.inj same).2]

/-- A dollar sign in front of a name is read with the name. -/
theorem reference_of_startsName {d : Char} (starts : startsName d = true) (rest : Text) :
    ∃ n, Span.word (d :: rest) = (d :: n, (Span.word (d :: rest)).2) ∧ reference (d :: rest) =
      ([.token (.symbol .dollar) ['$'], .token (.name (d :: n)) (d :: n)],
        (Span.word (d :: rest)).2) := by
  have cut : (Span.word (d :: rest)).1 = d :: rest.takeWhile continuesName :=
    List.takeWhile_cons_of_pos (continuesName_of_startsName starts)
  exact ⟨_, Prod.ext cut rfl, by simp only [reference, starts, if_true, cut]⟩

private theorem reference_exchange
    (exchange : Exchange inside (reference rest).1 (reference rest).2 w)
    (whole : Piece.sources (reference rest).1 ++ w = '$' :: other) :
    reference other = ((reference rest).1, w) := by
  cases rest with
  | nil =>
    cases exchange with
    | alike same _ => cases same
    | apart _ _ closed => cases closed _ rfl
  | cons d rest =>
    by_cases starts : startsName d = true
    · obtain ⟨n, cut, read⟩ := reference_of_startsName starts rest
      rw [read] at exchange whole ⊢
      obtain rfl : d :: n ++ w = other := by simpa using whole
      have word := Span.word_exchange cut (exchange.endsName (Span.word_stops cut))
      rw [List.cons_append] at word ⊢
      simp only [reference, starts, if_true, word]
    · simp only [reference, starts] at exchange whole ⊢
      obtain rfl : w = other := by simpa using whole
      cases exchange with
      | alike same _ =>
        cases same
        simp [starts]
      | apart _ _ closed => cases closed _ rfl

private theorem scriptStep_exchange (script : InScript (inside.map Enclosure.delimiter))
    (fresh : Bool) (place : Nat) (c : Char) (rest other w : Text) :
    (scriptStep inside fresh place c rest).Exchanges (c :: other) w
      (scriptStep inside fresh place c other) := by
  unfold scriptStep
  refine Step.rel_ite (fun _ => .single rfl) fun _ => ?_
  refine Step.rel_ite (fun _ => ?joined) fun _ => ?_
  case joined =>
    split
    · intro _ _ whole
      cases whole
      rfl
    · trivial
  refine Step.rel_ite (fun _ => .single rfl) fun _ => ?_
  refine Step.rel_ite (fun _ => .single rfl) fun _ => ?_
  refine Step.rel_ite (fun hash => ?comment) fun _ => ?_
  case comment =>
    obtain ⟨rfl, -⟩ := hash
    intro _ exchange whole
    obtain rfl : (Span.comment rest).1 ++ w = other := by simpa using whole
    cases exchange with
    | @alike a u w same _ =>
      obtain ⟨_, lineEnd⟩ := (comment_stops rest).resolve_left (by simp [same])
      obtain ⟨rfl, -⟩ := List.cons.inj (same.symm.trans lineEnd)
      rw [Span.comment_exchange rfl (by simp [same])]
      simp [Span.comment]
    | apart _ _ closed => cases closed _ rfl
  refine Step.rel_ite (fun dollar => ?reference) fun _ => ?_
  case reference =>
    intro _ exchange whole
    rw [reference_exchange exchange (dollar ▸ whole)]
  refine Step.rel_ite (fun _ => .single rfl) fun _ => ?_
  refine Step.rel_ite (fun _ => .single rfl) fun _ => ?_
  refine Step.rel_ite (fun _ => .single rfl) fun _ => ?_
  refine Step.rel_ite (fun _ => ?block) fun _ => ?_
  case block =>
    cases found : Span.body 0 rest with
    | none => trivial
    | some parts =>
      intro _ _ whole
      obtain rfl : parts.1 ++ '}' :: w = other := by simpa using whole
      rw [Span.body_exchange found]
  refine Step.rel_ite (fun _ => ?number) fun _ => ?_
  case number =>
    rcases cut : number (c :: rest) with ⟨p, v⟩
    intro point exchange whole
    have stop : v.EndsWord := fun d first =>
      ⟨number_stops cut d first, fun same => point script (same ▸ first)⟩
    have number := number_exchange cut stop (exchange.endsWord stop)
    rw [show p.source ++ w = c :: other by simpa using whole] at number
    rw [number]
  refine Step.rel_ite (fun letter => ?word) fun _ => ?_
  case word =>
    rcases cut : Span.word (c :: rest) with ⟨n, v⟩
    intro _ exchange whole
    have word := Span.word_exchange cut (exchange.endsName (Span.word_stops cut))
    rw [show n ++ w = c :: other by simpa using whole] at word
    simp only [word]
  split
  · exact .single rfl
  · trivial

private theorem quoteStep_exchange (opened : Nat) (outer : List Enclosure) (place : Nat) (c : Char)
    (rest other w : Text) : (quoteStep opened outer place c rest).Exchanges (c :: other) w
      (quoteStep opened outer place c other) := by
  unfold quoteStep
  refine Step.rel_ite (fun _ => .single rfl) fun notQuote => ?_
  refine Step.rel_ite (fun _ => .single rfl) fun notBracket => ?_
  split
  · next ended =>
    intro _ exchange whole
    obtain ⟨rfl, d, behind, rfl, starts⟩ :=
      ((Span.literal_eq_nil ended).resolve_left notQuote).resolve_left notBracket
    have read := reference_exchange exchange whole
    obtain ⟨n, -, first⟩ := reference_of_startsName starts behind
    rw [first] at whole
    obtain rfl : d :: n ++ w = other := by simpa using whole
    have literal : Span.literal ('$' :: (d :: n ++ w)) = ([], '$' :: (d :: n ++ w)) := by
      simp [Span.literal, starts]
    rw [literal, read]
  · trivial
  · next literal behind some _ cut =>
    intro _ exchange whole
    cases exchange with
    | @alike a u w same second =>
      subst same
      have later := Span.literal_exchange cut second
      rw [show literal ++ a :: w = c :: other by simpa using whole] at later
      rw [later]
      obtain ⟨e, l, rfl⟩ := List.exists_cons_of_ne_nil some
      rfl
    | apart _ script _ => exact absurd rfl script

/-- A step reads the same pieces where another text stands behind them. -/
theorem step_exchange {inside' : List Enclosure} {fresh' : Bool} {place : Nat}
    (h : step inside fresh place c rest = .read pieces inside' fresh' v)
    (point : InScript (inside'.map Enclosure.delimiter) → v.head? ≠ some '.')
    (exchange : Exchange inside' pieces v w) (whole : Piece.sources pieces ++ w = c :: other) :
    step inside fresh place c other = .read pieces inside' fresh' w := by
  have exchanges : (step inside fresh place c rest).Exchanges (c :: other) w
      (step inside fresh place c other) := by
    unfold step
    split
    · exact quoteStep_exchange _ _ place c rest other w
    · next script => exact scriptStep_exchange (inScript_iff.mpr script) fresh place c rest other w
  rw [h] at exchanges
  exact exchanges point exchange whole

end Steps

end Scan

/-- A scan reads the same pieces first where another text stands behind them. -/
theorem scan_exchange {inside inside' : List Enclosure} {fresh fresh' : Bool} {place : Nat}
    {c : Char} {rest v w : Text} {pieces : List Piece}
    (h : Scan.step inside fresh place c rest = .read pieces inside' fresh' v)
    (point : InScript (inside'.map Enclosure.delimiter) → v.head? ≠ some '.')
    (exchange : Scan.Exchange inside' pieces v w) :
    scan inside fresh place (Piece.sources pieces ++ w) =
      (scan inside' fresh' (place + (Piece.sources pieces).length) w).behind pieces := by
  obtain ⟨whole, nonempty⟩ := Scan.sources_step h
  obtain ⟨d, x, sources⟩ := List.exists_cons_of_ne_nil nonempty
  rw [sources, List.cons_append] at whole ⊢
  obtain ⟨rfl, -⟩ := List.cons.inj whole
  have step : Scan.step inside fresh place d (x ++ w) = .read pieces inside' fresh' w :=
    Scan.step_exchange h point exchange (by rw [sources, List.cons_append])
  rw [scan_of_read step, sources]

end TinyTcl
