import TinyTcl.Proofs.Token.Nesting

/-! Pieces do not depend on the setting of a text. How many characters stand in front of it matters
to the place of a fault alone (`scan_shift`), and whether a command may begin there matters to a
comment alone: a text that is cut to its end where no command may begin is cut in the same way where
one may (`scan_elsewhere`). -/
namespace TinyTcl

namespace Scan

/-- Where no command may begin, a hash sign is no comment. -/
theorem scriptStep_hash (inside : List Enclosure) (place : Nat) (rest : Text) :
    scriptStep inside false place '#' rest = .stop [] (.unexpectedCharacter '#') place := by
  have digit : isDigit '#' = false := by decide +kernel
  have letter : startsName '#' = false := by decide +kernel
  simp [scriptStep, isSpacing, digit, letter, operator?]

/-- Whether another step reads what a step reads, if it reads anything, and leaves the same kinds of
delimiters open. A command may begin behind the other step wherever one may behind this one. -/
def Step.Carries : Step → Step → Prop
  | .read pieces inside fresh rest, other =>
    ∃ inside' fresh', other = .read pieces inside' fresh' rest ∧
      inside.map Enclosure.delimiter = inside'.map Enclosure.delimiter ∧
      (fresh = true → fresh' = true)
  | .stop _ _ _, _ => True

section Elsewhere

variable {inside inside' : List Enclosure} {fresh fresh' : Bool}

private theorem Step.Carries.read {pieces : List Piece} {rest : Text}
    (same : inside.map Enclosure.delimiter = inside'.map Enclosure.delimiter)
    (later : fresh = true → fresh' = true) :
    (Step.read pieces inside fresh rest).Carries (.read pieces inside' fresh' rest) :=
  ⟨inside', fresh', rfl, same, later⟩

/-- Steps that decide alike are related as their branches are. -/
theorem Step.rel_ite {R : Step → Step → Prop} {p : Prop} [Decidable p]
    {first second first' second' : Step} (yes : p → R first first') (no : ¬ p → R second second') :
    R (if p then first else second) (if p then first' else second') := by
  by_cases h : p
  · rw [if_pos h, if_pos h]
    exact yes h
  · rw [if_neg h, if_neg h]
    exact no h

private theorem scriptStep_elsewhere (place place' : Nat) (c : Char) (rest : Text)
    (same : inside.map Enclosure.delimiter = inside'.map Enclosure.delimiter)
    (later : fresh = true → fresh' = true) :
    (scriptStep inside fresh place c rest).Carries (scriptStep inside' fresh' place' c rest) := by
  by_cases hash : c = '#' ∧ fresh = false
  · obtain ⟨rfl, rfl⟩ := hash
    rw [scriptStep_hash]
    trivial
  -- From here on the two steps decide alike whether a comment stands here.
  have comment : (c = '#' ∧ fresh' = true) = (c = '#' ∧ fresh = true) := by
    refine propext ⟨fun here => ⟨here.1, ?_⟩, And.imp_right later⟩
    exact eq_true_of_ne_false fun closed => hash ⟨here.1, closed⟩
  unfold scriptStep
  simp only [comment]
  refine Step.rel_ite (fun _ => .read same later) fun _ => ?_
  refine Step.rel_ite (fun _ => ?joined) fun _ => ?_
  case joined =>
    split
    · exact .read same later
    · trivial
  refine Step.rel_ite (fun _ => .read same id) fun _ => ?_
  refine Step.rel_ite (fun _ => .read same id) fun _ => ?_
  refine Step.rel_ite (fun _ => .read same id) fun _ => ?_
  refine Step.rel_ite (fun _ => .read same id) fun _ => ?_
  refine Step.rel_ite (fun _ => .read (congrArg (Delimiter.bracket :: ·) same) id) fun _ => ?_
  refine Step.rel_ite (fun _ => .read (by rw [List.map_tail, same, List.map_tail]) id) fun _ => ?_
  refine Step.rel_ite (fun _ => .read (congrArg (Delimiter.quote :: ·) same) id) fun _ => ?_
  refine Step.rel_ite (fun _ => ?block) fun _ => ?_
  case block =>
    split
    · exact .read same id
    · trivial
  refine Step.rel_ite (fun _ => .read same id) fun _ => ?_
  refine Step.rel_ite (fun _ => .read same id) fun _ => ?_
  split
  · exact .read same id
  · trivial

private theorem quoteStep_elsewhere {opened opened' : Nat} {outer outer' : List Enclosure}
    (place place' : Nat) (c : Char) (rest : Text)
    (same : outer.map Enclosure.delimiter = outer'.map Enclosure.delimiter) :
    (quoteStep opened outer place c rest).Carries (quoteStep opened' outer' place' c rest) := by
  unfold quoteStep
  refine Step.rel_ite (fun _ => .read same id) fun _ => ?_
  refine Step.rel_ite (fun _ => ?_) fun _ => ?_
  · exact .read (congrArg (Delimiter.bracket :: Delimiter.quote :: ·) same) id
  · split
    · exact .read (congrArg (Delimiter.quote :: ·) same) id
    · trivial
    · exact .read (congrArg (Delimiter.quote :: ·) same) id

/-- A step reads the same pieces in another setting. -/
theorem step_elsewhere (place place' : Nat) (c : Char) (rest : Text)
    (same : inside.map Enclosure.delimiter = inside'.map Enclosure.delimiter)
    (later : fresh = true → fresh' = true) :
    (step inside fresh place c rest).Carries (step inside' fresh' place' c rest) := by
  rcases inside with _ | ⟨opened | opened, outer⟩ <;>
    rcases inside' with _ | ⟨opened' | opened', outer'⟩
  all_goals try (cases same; done)
  · exact scriptStep_elsewhere place place' c rest same later
  · exact scriptStep_elsewhere place place' c rest same later
  · exact quoteStep_elsewhere place place' c rest (List.cons.inj same).2

end Elsewhere

end Scan

/-- A text that is cut to its end is cut into the same pieces in another setting. -/
theorem scan_elsewhere {inside inside' : List Enclosure} {fresh fresh' : Bool} {place place' : Nat}
    {t : Text} (same : inside.map Enclosure.delimiter = inside'.map Enclosure.delimiter)
    (later : fresh = true → fresh' = true) (h : (scan inside fresh place t).stopped = none) :
    (scan inside' fresh' place' t).stopped = none ∧
      (scan inside' fresh' place' t).pieces = (scan inside fresh place t).pieces := by
  fun_induction scan inside fresh place t generalizing inside' fresh' place' with
  | case1 =>
    obtain rfl := List.map_eq_nil_iff.mp same.symm
    simp [scan]
  | case2 | case3 => simp at h
  | case4 inside fresh place c rest pieces inside₁ fresh₁ rest₁ step ih =>
    have carried := Scan.step_elsewhere place place' c rest same later
    rw [step] at carried
    obtain ⟨inside₂, fresh₂, step', same', later'⟩ := carried
    rw [scan_of_read step']
    obtain ⟨reached, read⟩ := ih same' later' h
    exact ⟨reached, congrArg (pieces ++ ·) read⟩
  | case5 => simp at h

/-! ### More characters in front -/

/-- The same delimiter with more characters in front of it. -/
def Enclosure.shift (k : Nat) : Enclosure → Enclosure
  | bracket opened => bracket (k + opened)
  | quote opened => quote (k + opened)

/-- The same pieces and fault with more characters in front of them. -/
def Scanned.shift (k : Nat) (s : Scanned) : Scanned :=
  { s with stopped := s.stopped.map fun (fault, place) => (fault, k + place) }

namespace Scan

/-- Whether another step does what a step does, with `k` more characters in front of it. -/
def Step.Shifts (k : Nat) : Step → Step → Prop
  | .read pieces inside fresh rest, other =>
    other = .read pieces (inside.map (Enclosure.shift k)) fresh rest
  | .stop pieces fault place, other => other = .stop pieces fault (k + place)

private theorem scriptStep_shift (k : Nat) (inside : List Enclosure) (fresh : Bool) (place : Nat)
    (c : Char) (rest : Text) :
    (scriptStep inside fresh place c rest).Shifts k
      (scriptStep (inside.map (Enclosure.shift k)) fresh (k + place) c rest) := by
  unfold scriptStep
  refine Step.rel_ite (fun _ => rfl) fun _ => ?_
  refine Step.rel_ite (fun _ => ?joined) fun _ => ?_
  case joined =>
    split
    · rfl
    · rfl
  refine Step.rel_ite (fun _ => rfl) fun _ => ?_
  refine Step.rel_ite (fun _ => rfl) fun _ => ?_
  refine Step.rel_ite (fun _ => rfl) fun _ => ?_
  refine Step.rel_ite (fun _ => rfl) fun _ => ?_
  refine Step.rel_ite (fun _ => rfl) fun _ => ?_
  refine Step.rel_ite (fun _ => ?closing) fun _ => ?_
  case closing => exact congrArg (Step.read _ · _ _) List.map_tail.symm
  refine Step.rel_ite (fun _ => rfl) fun _ => ?_
  refine Step.rel_ite (fun _ => ?block) fun _ => ?_
  case block =>
    split
    · rfl
    · rfl
  refine Step.rel_ite (fun _ => rfl) fun _ => ?_
  refine Step.rel_ite (fun _ => rfl) fun _ => ?_
  split
  · rfl
  · rfl

private theorem quoteStep_shift (k opened : Nat) (outer : List Enclosure) (place : Nat) (c : Char)
    (rest : Text) : (quoteStep opened outer place c rest).Shifts k
      (quoteStep (k + opened) (outer.map (Enclosure.shift k)) (k + place) c rest) := by
  unfold quoteStep
  refine Step.rel_ite (fun _ => rfl) fun _ => ?_
  refine Step.rel_ite (fun _ => rfl) fun _ => ?_
  split
  · rfl
  · rfl
  · rfl

private theorem step_shift (k : Nat) (inside : List Enclosure) (fresh : Bool) (place : Nat)
    (c : Char) (rest : Text) :
    (step inside fresh place c rest).Shifts k
      (step (inside.map (Enclosure.shift k)) fresh (k + place) c rest) := by
  rcases inside with _ | ⟨opened | opened, outer⟩
  · exact scriptStep_shift k _ fresh place c rest
  · exact scriptStep_shift k _ fresh place c rest
  · exact quoteStep_shift k opened outer place c rest

end Scan

/-- Characters in front of a text do not change how it is cut, and move its fault along. -/
theorem scan_shift (k : Nat) (inside : List Enclosure) (fresh : Bool) (place : Nat) (t : Text) :
    scan (inside.map (Enclosure.shift k)) fresh (k + place) t =
      (scan inside fresh place t).shift k := by
  fun_induction scan inside fresh place t with
  | case1 => simp [scan, Scanned.shift]
  | case2 => simp [scan, Scanned.shift, Enclosure.shift]
  | case3 => simp [scan, Scanned.shift, Enclosure.shift]
  | case4 inside fresh place c rest pieces inside' fresh' rest' step ih =>
    have moved := Scan.step_shift k inside fresh place c rest
    rw [step] at moved
    rw [scan_of_read moved, Nat.add_assoc, ih]
    rfl
  | case5 inside fresh place c rest pieces fault place' step =>
    have moved := Scan.step_shift k inside fresh place c rest
    rw [step] at moved
    rw [scan_of_stop moved]
    rfl

/-! ### A keyword in front -/

namespace Symbol

variable {s : Symbol} (keyword : s.isKeyword = true)

include keyword

/-- Keywords are spelled with letters. -/
theorem continuesName_of_isKeyword : ∀ c ∈ s.text, continuesName c = true := by
  have letters : s.text.all continuesName = true := by
    revert keyword
    cases s <;> decide +kernel
  exact List.all_eq_true.mp letters

theorem ofWord_of_isKeyword : Lexeme.ofWord s.text = .symbol s := by
  revert keyword
  cases s <;> decide +kernel

theorem first_of_isKeyword : ∃ c rest, s.text = c :: rest ∧ startsName c = true ∧
    isDigit c = false ∧
    c ∉ [' ', '\t', '\r', '\\', '\n', ';', '#', '$', '[', ']', '"', '{'] := by
  revert keyword
  cases s <;> first | exact fun _ => ⟨_, _, rfl, by decide +kernel⟩ | exact nofun

end Symbol

/-- Behind a keyword and a blank a text is cut where no command may begin. -/
theorem scan_keyword {s : Symbol} (keyword : s.isKeyword = true) (t : Text) :
    Scanned.ofText (s.text ++ ' ' :: t) = (scan [] false (s.text.length + 1) t).behind
      [.token (.symbol s) s.text, .gap [' ']] := by
  have letters := s.continuesName_of_isKeyword keyword
  have blank : continuesName ' ' = false := by decide +kernel
  have word : Span.word (s.text ++ ' ' :: t) = (s.text, ' ' :: t) := by
    simp [Span.word, List.takeWhile_append_of_pos letters, List.dropWhile_append_of_pos letters,
      blank]
  have spelled := s.ofWord_of_isKeyword keyword
  obtain ⟨c, rest, text, letter, digit, plain⟩ := s.first_of_isKeyword keyword
  have name : Scan.step [] true 0 c (rest ++ ' ' :: t) =
      .read [.token (.symbol s) s.text] [] false (' ' :: t) := by
    rw [text, List.cons_append] at word
    rw [← spelled, text]
    simp only [List.mem_cons, List.not_mem_nil, not_or, or_false] at plain
    simp [Scan.step, Scan.scriptStep, isSpacing, word, letter, digit, plain]
  have gap : Scan.step [] false s.text.length ' ' t = .read [.gap [' ']] [] false t := rfl
  calc Scanned.ofText (s.text ++ ' ' :: t)
      = scan [] true 0 (c :: (rest ++ ' ' :: t)) := by rw [text]; rfl
    _ = (scan [] false s.text.length (' ' :: t)).behind [.token (.symbol s) s.text] := by
        rw [scan_of_read name]
        simp
    _ = ((scan [] false (s.text.length + 1) t).behind [.gap [' ']]).behind
        [.token (.symbol s) s.text] := by rw [scan_of_read gap]; rfl

end TinyTcl
