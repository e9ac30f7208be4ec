import Mathlib.Data.List.Chain
import TinyTcl.Proofs.Token.Words

/-! Quoted strings that are put together from parts: literal texts, in which a backslash stands in
front of every character that has a meaning between quotes (`Text.escape`), and references to
variables (`Template.Part`). Literal parts that follow each other are cut off as one lexeme, and a
reference as its two (`Template.lexemes`).

Main statement: between quotes, a template is cut into its lexemes (`Template.cuts`). -/
namespace TinyTcl

/-- The characters that have a meaning between quotes. -/
def Text.isSpecial (c : Char) : Bool := c ∈ ['\\', '"', '$', '[']

/-- A text as it is written between quotes to be taken literally. -/
def Text.escape : Text → Text
  | [] => []
  | c :: rest => if isSpecial c then '\\' :: c :: escape rest else c :: escape rest

namespace Template

/-- A part of a quoted string. -/
inductive Part where
  | literal (text : Text)
  | reference (name : Text)
deriving DecidableEq, Repr

/-- The part as it is written between quotes. -/
def Part.written : Part → Text
  | .literal text => text.escape
  | .reference name => '$' :: name

/-- A literal part is not empty, and a name starts with a letter or an underscore. -/
def Part.Sound : Part → Prop
  | .literal text => text ≠ []
  | .reference name => (∃ c ∈ name.head?, startsName c = true) ∧ ∀ c ∈ name, continuesName c = true

/-- What the first part ends with does not go on in the second: no name goes on in a literal. -/
def Part.Apart : Part → Part → Prop
  | .reference _, .literal text => ∀ c ∈ text.head?, continuesName c = false
  | _, _ => True

/-- Parts that can stand behind each other as they are written. -/
structure Sound (parts : List Part) : Prop where
  each : ∀ part ∈ parts, part.Sound
  apart : parts.IsChain Part.Apart

/-- The parts as they are written, without the quotes around them. -/
def written (parts : List Part) : Text := parts.flatMap Part.written

@[simp] theorem written_nil : written [] = [] := rfl

@[simp] theorem written_cons (part : Part) (rest : List Part) :
    written (part :: rest) = part.written ++ written rest := rfl

private theorem Sound.of_cons {part : Part} {rest : List Part} (h : Sound (part :: rest)) :
    Sound rest where
  each other inside := h.each other (List.mem_cons_of_mem part inside)
  apart := h.apart.of_cons

/-- The lexeme of the literal text that is still to be cut off, if there is any. -/
def flush (pending : Text) : List Lexeme := if pending.isEmpty then [] else [.name pending]

/-- The lexemes of the parts behind literal text that is still to be cut off. -/
def lexemes (pending : Text) : List Part → List Lexeme
  | [] => flush pending
  | .literal text :: rest => lexemes (pending ++ text) rest
  | .reference name :: rest => flush pending ++ .symbol .dollar :: .name name :: lexemes [] rest

end Template

namespace Text

private theorem escape_append (t u : Text) : escape (t ++ u) = escape t ++ escape u := by
  induction t with
  | nil => rfl
  | cons c rest ih =>
    rw [List.cons_append, escape, escape, ih]
    split <;> rfl

/-- What is written starts as the text does, or with a backslash. -/
theorem head_escape {t : Text} {c : Char} (h : c ∈ (escape t).head?) :
    c = '\\' ∨ c ∈ t.head? ∧ isSpecial c = false := by
  cases t with
  | nil => cases h
  | cons d rest =>
    rw [escape] at h
    split at h
    · cases h
      exact .inl rfl
    · next plain =>
      cases h
      exact .inr ⟨rfl, by simpa using plain⟩

private theorem escapeValue_of_isSpecial {c : Char} (h : isSpecial c = true) :
    c ≠ '\n' ∧ escapeValue c = c := by
  simp only [isSpecial, decide_eq_true_eq, List.mem_cons, List.not_mem_nil, or_false] at h
  rcases h with rfl | rfl | rfl | rfl <;> exact ⟨by decide, rfl⟩

/-- An escaped text means itself. -/
theorem unescape_escape (t : Text) : unescape false (escape t) = t := by
  induction t with
  | nil => rfl
  | cons c rest ih =>
    rw [escape]
    split
    · next special =>
      obtain ⟨inLine, value⟩ := escapeValue_of_isSpecial special
      rw [unescape, if_neg inLine, value, ih]
    · next plain =>
      have escape : c ≠ '\\' := by
        rintro rfl
        exact plain rfl
      rw [unescape.eq_3 _ _ _ fun _ _ same => absurd same escape, ih]
      rfl

private theorem escape_eq_nil {t : Text} : escape t = [] ↔ t = [] := by
  constructor
  · intro none
    have meaning := unescape_escape t
    rw [none] at meaning
    exact meaning.symm
  · rintro rfl
    rfl

end Text

namespace Span

/-- Literal text goes on through an escaped text, up to where it ends. -/
theorem literal_escape (t : Text) {u : Text} (ends : literal u = ([], u)) :
    literal (t.escape ++ u) = (t.escape, u) := by
  induction t with
  | nil => exact ends
  | cons c rest ih =>
    rw [Text.escape]
    split
    · simp only [List.cons_append, literal, ih]
    · next plain =>
      simp only [Text.isSpecial, decide_eq_true_eq, List.mem_cons, List.not_mem_nil, or_false,
        not_or] at plain
      obtain ⟨escape, quote, dollar, bracket⟩ := plain
      rw [List.cons_append, literal.eq_6 _ _ quote bracket (fun _ _ same => absurd same escape)
        (fun _ _ same => absurd same dollar), ih]

end Span

namespace Template

variable {opened : Nat} {pending rest : Text} {parts : List Part}

/-- In a quoted string an escaped text is cut off where literal text ends behind it. -/
theorem cutsIn_escape (pending : Text) {u : Text} (ends : Span.literal u = ([], u))
    (more : u ≠ []) :
    Text.CutsIn [.quote opened] [.quote opened] pending.escape (flush pending) u := by
  cases written : pending.escape with
  | nil =>
    -- Nothing waits, and the scan has not moved.
    obtain rfl := Text.escape_eq_nil.mp written
    exact fun fresh place => ⟨fresh, place, [], rfl, rfl⟩
  | cons c t =>
    have some : pending ≠ [] := by
      rintro rfl
      cases written
    -- What is written neither ends the string nor opens a substitution, so it is literal text.
    have plain : c ≠ '"' ∧ c ≠ '[' := by
      have first : c ∈ pending.escape.head? := by
        rw [written]
        rfl
      rcases Text.head_escape first with rfl | ⟨_, plain⟩
      · decide
      · constructor
        all_goals
          rintro rfl
          cases plain
    have literal := Span.literal_escape pending ends
    have meaning := Text.unescape_escape pending
    obtain ⟨d, u, rfl⟩ := List.exists_cons_of_ne_nil more
    rw [written] at literal meaning
    rw [List.cons_append] at literal
    have flushed : flush pending = Piece.lexemes [.token (.name pending) (c :: t)] := by
      simp [flush, some]
    rw [flushed]
    refine .of_step _ fun fresh place => ⟨false, ?_⟩
    simp [Scan.step, Scan.quoteStep, plain, literal, meaning]

private theorem cutsIn_rightQuote (rest : Text) :
    Text.CutsIn [.quote opened] [] ['"'] [.symbol .rightQuote] rest :=
  .of_step [.token (.symbol .rightQuote) ['"']] fun _ _ => ⟨false, rfl⟩

section Reference

variable {name : Text} (sound : (Part.reference name).Sound)

include sound

private theorem Part.Sound.exists_cons : ∃ c t, name = c :: t ∧ startsName c = true ∧
    ∀ d ∈ c :: t, continuesName d = true := by
  obtain ⟨⟨c, first, letter⟩, all⟩ := sound
  cases name with
  | nil => cases first
  | cons d t =>
    cases first
    exact ⟨c, t, rfl, letter, all⟩

/-- In front of a reference literal text ends. -/
theorem Part.Sound.literal_eq_nil (u : Text) :
    Span.literal ('$' :: name ++ u) = ([], '$' :: name ++ u) := by
  obtain ⟨c, t, rfl, letter, -⟩ := sound.exists_cons
  simp [Span.literal, letter]

/-- In a quoted string a reference is cut off where no name goes on behind it. -/
theorem cutsIn_reference {u : Text} (ends : ∀ c ∈ u.head?, continuesName c = false) :
    Text.CutsIn [.quote opened] [.quote opened] ('$' :: name) [.symbol .dollar, .name name] u := by
  have literal := sound.literal_eq_nil u
  obtain ⟨c, t, rfl, letter, all⟩ := sound.exists_cons
  have word := Span.word_append_of_all all ends
  refine .of_step [.token (.symbol .dollar) ['$'], .token (.name (c :: t)) (c :: t)]
    fun fresh place => ⟨false, ?_⟩
  rw [List.cons_append] at word literal ⊢
  rw [List.cons_append] at literal
  simp [Scan.step, Scan.quoteStep, literal, Scan.reference, letter, word]

end Reference

/-- Behind a reference no name goes on. -/
theorem Sound.ends_name {name : Text} (sound : Sound (.reference name :: parts)) (rest : Text) :
    ∀ c ∈ (written parts ++ '"' :: rest).head?, continuesName c = false := by
  have escape : continuesName '\\' = false := by decide +kernel
  intro c first
  cases parts with
  | nil =>
    cases first
    decide +kernel
  | cons part others =>
    cases part with
    | reference other =>
      cases first
      decide +kernel
    | literal text =>
      have some : text ≠ [] := sound.each (.literal text) (by simp)
      have apart : ∀ c ∈ text.head?, continuesName c = false := sound.apart.rel
      obtain ⟨d, u, cut⟩ := List.exists_cons_of_ne_nil (mt Text.escape_eq_nil.mp some)
      rw [written_cons, Part.written, cut] at first
      cases first
      have start : c ∈ text.escape.head? := by
        rw [cut]
        rfl
      rcases Text.head_escape start with rfl | ⟨same, -⟩
      · exact escape
      · exact apart c same

/-- Up to the closing quote, the parts are cut into their lexemes. The induction is on the parts;
literal text waits until a reference or the quote ends it. -/
theorem cutsIn_parts (sound : Sound parts) (pending rest : Text) :
    Text.CutsIn [.quote opened] [] (pending.escape ++ (written parts ++ ['"']))
      (lexemes pending parts ++ [.symbol .rightQuote]) rest := by
  induction parts generalizing pending with
  | nil =>
    refine .append (cutsIn_escape pending ?_ (by simp)) (cutsIn_rightQuote rest)
    simp [Span.literal]
  | cons part others ih =>
    cases part with
    | literal text =>
      have joined := ih sound.of_cons (pending ++ text)
      rw [Text.escape_append, List.append_assoc] at joined
      rw [written_cons, List.append_assoc]
      exact joined
    | reference name =>
      have named : (Part.reference name).Sound := sound.each _ List.mem_cons_self
      have ends : ∀ c ∈ (written others ++ ['"'] ++ rest).head?, continuesName c = false := by
        simpa using sound.ends_name rest
      have literal : Span.literal ('$' :: name ++ (written others ++ ['"']) ++ rest) =
          ([], '$' :: name ++ (written others ++ ['"']) ++ rest) := by
        simpa using named.literal_eq_nil (written others ++ '"' :: rest)
      have reference := (cutsIn_reference named ends).append (ih sound.of_cons [])
      rw [written_cons, Part.written, lexemes]
      simpa using (cutsIn_escape pending literal (by simp)).append reference

/-- Between quotes, a template is cut into its lexemes. -/
theorem cuts (sound : Sound parts) (rest : Text) :
    Text.Cuts ('"' :: (written parts ++ ['"']))
      (.symbol .leftQuote :: (lexemes [] parts ++ [.symbol .rightQuote])) rest := by
  intro fresh place
  have opens (u : Text) : scan [] fresh place ('"' :: u) =
      (scan [.quote place] false (place + 1) u).behind [.token (.symbol .leftQuote) ['"']] :=
    scan_of_read (by simp [Scan.step, Scan.scriptStep, isSpacing])
  have within : Text.CutsIn [.quote place] [] _ _ rest := cutsIn_parts sound [] rest
  obtain ⟨fresh', place', pieces, cut, inner⟩ := within false (place + 1)
  refine ⟨fresh', place', .token (.symbol .leftQuote) ['"'] :: pieces, ?_, ?_⟩
  · rw [← cut]
    rfl
  · rw [Text.escape, List.nil_append] at inner
    rw [List.cons_append, opens, inner]
    rfl

end Template

end TinyTcl
