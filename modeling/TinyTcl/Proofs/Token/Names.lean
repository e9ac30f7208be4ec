import Mathlib.Data.List.TakeWhile
import TinyTcl.Proofs.Text.Classes
import TinyTcl.Proofs.Token.Balance
import TinyTcl.Proofs.Token.Lines

/-! Names where they are written. A name is cut off by different rules where a variable is set, behind
a dollar sign, and behind a dollar sign between quotes. The rules take the same words
(`bareWord_of_first`) and cut them at the same place (`scan_bareWord`, `scan_dollar`,
`scan_quotedDollar`), but for words that start with a digit: between quotes these are no names, and
the dollar sign in front of one is literal (`scan_quotedDigit`). -/
namespace TinyTcl

/-! ### Bare words -/

/-- A text that stands for one name where words are read. -/
inductive BareWord : Text → Prop where
  /-- What a name is made of, which may spell a keyword. -/
  | name {c : Char} {t : Text} (first : startsName c = true)
      (others : ∀ d ∈ t, continuesName d = true) : BareWord (c :: t)
  /-- A number literal with more of a name behind it. -/
  | numbered {c : Char} {t tail : Text} (first : isDigit c = true)
      (cut : Span.digits (c :: t ++ tail) = (c :: t, tail)) (more : tail ≠ [])
      (others : ∀ d ∈ tail, continuesName d = true) : BareWord (c :: t ++ tail)

namespace Scan

variable {inside : List Enclosure} {fresh : Bool} {place : Nat} {c : Char}

/-- Blanks, delimiters and operators are no part of a word. -/
theorem plain_of_word (h : startsName c = true ∨ isDigit c = true) :
    c ∉ [' ', '\t', '\r', '\\', '\n', ';', '#', '$', '[', ']', '"', '{'] := by
  have others : [' ', '\t', '\r', '\\', '\n', ';', '#', '$', '[', ']', '"', '{'].any
      (fun d => startsName d || isDigit d) = false := by decide +kernel
  intro listed
  exact List.any_eq_false.mp others c listed (Bool.or_eq_true_iff.mpr h)

theorem scriptStep_of_isDigit (digit : isDigit c = true) (rest : Text) :
    scriptStep inside fresh place c rest =
      .read [(number (c :: rest)).1] inside false (number (c :: rest)).2 := by
  have plain := plain_of_word (.inr digit)
  simp only [List.mem_cons, List.not_mem_nil, not_or, or_false] at plain
  simp [scriptStep, isSpacing, digit, plain]

theorem scriptStep_of_startsName (letter : startsName c = true) (rest : Text) :
    scriptStep inside fresh place c rest =
      .read [.token (.ofWord (Span.word (c :: rest)).1) (Span.word (c :: rest)).1] inside false
        (Span.word (c :: rest)).2 := by
  have plain := plain_of_word (.inl letter)
  have digit : isDigit c = false := by
    rw [Bool.eq_false_iff]
    exact fun digit => absurd letter (by simp [startsName_of_isDigit digit])
  simp only [List.mem_cons, List.not_mem_nil, not_or, or_false] at plain
  simp [scriptStep, isSpacing, letter, digit, plain]

end Scan

private theorem Span.word_of_all {t : Text} (h : ∀ d ∈ t, continuesName d = true) :
    Span.word t = (t, []) := by
  have kept : (t ++ []).takeWhile continuesName = _ := List.takeWhile_append_of_pos h
  have dropped : (t ++ []).dropWhile continuesName = _ := List.dropWhile_append_of_pos h
  rw [List.append_nil] at kept dropped
  rw [Span.word, kept, dropped]
  simp

/-- A name ends where no name goes on. -/
theorem Span.word_append_of_all {t u : Text} (all : ∀ c ∈ t, continuesName c = true)
    (ends : ∀ c ∈ u.head?, continuesName c = false) : Span.word (t ++ u) = (t, u) := by
  cases u with
  | nil => rw [List.append_nil, word_of_all all]
  | cons d u =>
    rw [word, takeWhile_append_of_stop (ends d rfl), dropWhile_append_of_stop (ends d rfl)]
    exact congrArg (fun p => (p.1, p.2 ++ d :: u)) (word_of_all all)

/-- Behind the digits of a text, what is left of a part of the rest starts with no digit. -/
theorem Span.takeWhile_dropWhile (p q : Char → Bool) (t : Text) :
    ((t.dropWhile p).takeWhile q).takeWhile p = [] ∧
      ((t.dropWhile p).takeWhile q).dropWhile p = (t.dropWhile p).takeWhile q := by
  induction t with
  | nil => simp
  | cons c rest ih =>
    by_cases kept : p c = true
    · rw [List.dropWhile_cons_of_pos kept]
      exact ih
    · rw [List.dropWhile_cons_of_neg kept]
      by_cases part : q c = true
      · rw [List.takeWhile_cons_of_pos part]
        exact ⟨List.takeWhile_cons_of_neg kept, List.dropWhile_cons_of_neg kept⟩
      · rw [List.takeWhile_cons_of_neg part]
        exact ⟨rfl, rfl⟩

private theorem Span.split_takeWhile (p q : Char → Bool) (t : Text) :
    (t.takeWhile p ++ (t.dropWhile p).takeWhile q).takeWhile p = t.takeWhile p ∧
      (t.takeWhile p ++ (t.dropWhile p).takeWhile q).dropWhile p = (t.dropWhile p).takeWhile q := by
  have all : ∀ d ∈ t.takeWhile p, p d = true := fun _ inside => List.mem_takeWhile_imp inside
  obtain ⟨none, same⟩ := Span.takeWhile_dropWhile p q t
  rw [List.takeWhile_append_of_pos all, List.dropWhile_append_of_pos all, none, same]
  exact ⟨List.append_nil _, rfl⟩

theorem Span.digits_of_fraction {t rest : Text} {d : Char}
    (point : t.dropWhile isDigit = '.' :: d :: rest) (digit : isDigit d = true) :
    digits t = (t.takeWhile isDigit ++ '.' :: (d :: rest).takeWhile isDigit,
      (d :: rest).dropWhile isDigit) := by
  simp only [digits, point, digit, if_true]

theorem Span.digits_of_whole {t : Text}
    (whole : ∀ d rest, t.dropWhile isDigit = '.' :: d :: rest → isDigit d = false) :
    digits t = (t.takeWhile isDigit, t.dropWhile isDigit) := by
  unfold digits
  split
  · next d rest same => simp [whole d rest same, same]
  · rfl

/-- A number literal is cut in the same way with less of a name behind it. -/
theorem Span.digits_word (t : Text) :
    Span.digits ((digits t).1 ++ (word (digits t).2).1) =
      ((digits t).1, (word (digits t).2).1) := by
  by_cases fraction : ∃ d rest, t.dropWhile isDigit = '.' :: d :: rest ∧ isDigit d = true
  · obtain ⟨d, rest, point, digit⟩ := fraction
    rw [digits_of_fraction point digit]
    obtain ⟨first, behind⟩ := split_takeWhile isDigit continuesName (d :: rest)
    have all : ∀ e ∈ t.takeWhile isDigit, isDigit e = true :=
      fun _ inside => List.mem_takeWhile_imp inside
    have stop : isDigit '.' = false := by decide +kernel
    generalize (d :: rest).dropWhile isDigit = left at first behind ⊢
    rw [List.takeWhile_cons_of_pos digit] at first behind ⊢
    rw [List.cons_append] at first behind
    simp only [word, List.append_assoc, List.cons_append]
    have point' : (t.takeWhile isDigit ++ '.' :: d :: (rest.takeWhile isDigit ++
        left.takeWhile continuesName)).dropWhile isDigit = '.' :: d :: (rest.takeWhile isDigit ++
        left.takeWhile continuesName) := by
      rw [List.dropWhile_append_of_pos all, List.dropWhile_cons_of_neg (by simp [stop])]
    rw [digits_of_fraction point' digit, first, behind, List.takeWhile_append_of_pos all,
      List.takeWhile_cons_of_neg (by simp [stop]), List.append_nil]
  · have whole : ∀ d rest, t.dropWhile isDigit = '.' :: d :: rest → isDigit d = false :=
      fun d rest point => Bool.eq_false_iff.mpr fun digit => fraction ⟨d, rest, point, digit⟩
    rw [digits_of_whole whole]
    obtain ⟨first, behind⟩ := split_takeWhile isDigit continuesName t
    have point : continuesName '.' = false := by decide +kernel
    simp only [word]
    rw [digits_of_whole ?_, first, behind]
    rw [behind]
    intro d rest same
    have kept : '.' ∈ (t.dropWhile isDigit).takeWhile continuesName := same ▸ List.mem_cons_self
    cases point.symm.trans (List.mem_takeWhile_imp kept)

/-- A bare word is cut off as one token. -/
theorem Scan.step_bareWord {n : Text} (bare : BareWord n) :
    ∃ c t, n = c :: t ∧ ∀ fresh place, Scan.step [] fresh place c t =
      .read [.token (.ofWord n) n] [] false [] := by
  cases bare with
  | @name c t letter others =>
    refine ⟨c, t, rfl, fun fresh place => ?_⟩
    have all : ∀ d ∈ c :: t, continuesName d = true := by
      simpa using ⟨continuesName_of_startsName letter, others⟩
    refine (scriptStep_of_startsName letter t).trans ?_
    rw [Span.word_of_all all]
  | @numbered c t tail digit cut more others =>
    refine ⟨c, t ++ tail, rfl, fun fresh place => ?_⟩
    refine (scriptStep_of_isDigit digit _).trans ?_
    rw [List.cons_append] at cut ⊢
    simp [number, cut, Span.word_of_all others, more, Lexeme.ofWord, keyword?_of_isDigit digit]

theorem scan_bareWord {n : Text} (bare : BareWord n) (fresh : Bool) (place : Nat) :
    scan [] fresh place n = ⟨[.token (.ofWord n) n], none⟩ := by
  obtain ⟨c, t, rfl, step⟩ := Scan.step_bareWord bare
  rw [scan_of_read (step fresh place)]
  simp [scan, Scanned.behind]

/-- The word that starts with a digit where a number is read, if one does. -/
theorem Scan.bareWord_number {c : Char} (digit : isDigit c = true) {rest n s : Text}
    (h : (number (c :: rest)).1 = .token (.name n) s) : BareWord n := by
  have cut := Span.digits_word (c :: rest)
  have whole := Span.digits_append (c :: rest)
  have starts : (Span.digits (c :: rest)).1 ≠ [] := by
    unfold Span.digits
    split
    · split <;> simp [digit]
    · simp [digit]
  simp only [number] at h
  generalize Span.digits (c :: rest) = split at cut whole starts h
  obtain ⟨literal, left⟩ := split
  split at h
  · cases h
  · next more =>
    cases h
    obtain ⟨d, t, rfl⟩ := List.exists_cons_of_ne_nil starts
    obtain ⟨rfl, _⟩ := List.cons.inj whole
    exact .numbered digit cut (by simpa using more) fun _ => List.mem_takeWhile_imp

private theorem Scan.bareWord_ofWord {c : Char} (letter : startsName c = true) (rest : Text) :
    BareWord (Lexeme.ofWord (Span.word (c :: rest)).1).text := by
  rw [Lexeme.text_ofWord, Span.word, List.takeWhile_cons_of_pos (continuesName_of_startsName letter)]
  exact .name letter fun _ => List.mem_takeWhile_imp

/-- Whether a lexeme can name a variable, where it is read as a word. -/
def Lexeme.namesVariable : Lexeme → Bool
  | name _ => true
  | number _ => false
  | symbol s => s.isKeyword

/-- A step reads a gap, or a lexeme that is a bare word if it can name a variable. -/
theorem Scan.first_of_scriptStep {place : Nat} {c : Char} {rest rest' : Text} {pieces : List Piece}
    {inside' : List Enclosure} {fresh' : Bool}
    (h : scriptStep [] false place c rest = .read pieces inside' fresh' rest') :
    Piece.lexemes pieces = [] ∧ inside' = [] ∧ fresh' = false ∨
      ∃ l ls, Piece.lexemes pieces = l :: ls ∧ (l.namesVariable = true → BareWord l.text) := by
  revert h
  fun_cases scriptStep [] false place c rest
  all_goals intro h
  all_goals cases h
  case case1.refl | case2.refl => exact .inl ⟨rfl, rfl, rfl⟩
  case case6.refl comment => exact absurd comment.2 (by simp)
  case case7.refl =>
    obtain ⟨ls, lexemes⟩ : ∃ ls, Piece.lexemes (reference rest).1 = .symbol .dollar :: ls := by
      unfold reference
      split
      · split <;> exact ⟨_, rfl⟩
      · exact ⟨_, rfl⟩
    exact .inr ⟨_, ls, lexemes, fun names => by cases names⟩
  case case13.refl digit =>
    obtain ⟨l, same, _, _⟩ := text_number (c :: rest)
    refine .inr ⟨l, [], by rw [same]; rfl, fun names => ?_⟩
    cases l with
    | name n => exact bareWord_number digit same
    | number t => cases names
    | symbol s =>
      simp only [number] at same
      split at same <;> cases same
  case case14.refl letter word cut =>
    have bare := bareWord_ofWord letter rest
    rw [cut] at bare
    exact .inr ⟨_, [], rfl, fun _ => bare⟩
  case case15.refl found =>
    refine .inr ⟨_, [], rfl, ?_⟩
    revert found
    unfold operator?
    split
    all_goals intro found
    all_goals cases found
    all_goals exact fun names => by cases names
  all_goals exact .inr ⟨_, _, rfl, fun names => by cases names⟩

/-- The first word of a command that can name a variable is a bare word. -/
theorem bareWord_of_first {place : Nat} {t : Text} {l : Lexeme} {ls : List Lexeme}
    (first : Piece.lexemes (scan [] false place t).pieces = l :: ls)
    (names : l.namesVariable = true) :
    BareWord l.text := by
  generalize around : ([] : List Enclosure) = inside at first
  generalize started : false = fresh at first
  fun_induction scan inside fresh place t with
  | case1 | case2 | case3 => cases first
  | case5 inside fresh place c rest pieces fault place' stop =>
    rcases Scan.pieces_of_stop stop with rfl | ⟨rfl, _⟩
    · cases first
    · cases first
      cases names
  | case4 inside fresh place c rest pieces inside' fresh' rest' step ih =>
    subst around started
    simp only [Scanned.behind, Piece.lexemes_append] at first
    rcases Scan.first_of_scriptStep step with ⟨gap, rfl, rfl⟩ | ⟨l', ls', lexemes, bare⟩
    · rw [gap] at first
      exact ih rfl rfl first
    · rw [lexemes] at first
      obtain ⟨rfl, _⟩ := List.cons.inj first
      exact bare names

/-! ### Behind a dollar sign -/

theorem Span.mem_digits {t : Text} {d : Char} (h : d ∈ (digits t).1) :
    isDigit d = true ∨ d = '.' := by
  revert h
  unfold digits
  split
  · split
    · intro h
      rcases List.mem_append.mp h with inside | inside
      · exact .inl (List.mem_takeWhile_imp inside)
      · rcases List.mem_cons.mp inside with rfl | inside
        · exact .inr rfl
        · exact .inl (List.mem_takeWhile_imp inside)
    · exact fun h => .inl (List.mem_takeWhile_imp h)
  · exact fun h => .inl (List.mem_takeWhile_imp h)

/-- Nothing in a bare word has a meaning of its own between quotes. -/
theorem BareWord.plain {n : Text} (bare : BareWord n) : ∀ d ∈ n, d ∉ ['"', '[', '\\', '$'] := by
  have special : ['"', '[', '\\', '$'].any (fun d => continuesName d || d == '.') = false := by
    decide +kernel
  have plain {d : Char} (h : continuesName d = true ∨ d = '.') : d ∉ ['"', '[', '\\', '$'] := by
    intro listed
    exact List.any_eq_false.mp special d listed (by simpa using h)
  cases bare with
  | @name c t letter others =>
    intro d inside
    rcases List.mem_cons.mp inside with rfl | inside
    · exact plain (.inl (continuesName_of_startsName letter))
    · exact plain (.inl (others d inside))
  | @numbered c t tail digit cut more others =>
    intro d inside
    rcases List.mem_append.mp inside with inside | inside
    · have part : d ∈ (Span.digits (c :: t ++ tail)).1 := by rwa [cut]
      exact plain ((Span.mem_digits part).imp_left continuesName_of_isDigit)
    · exact plain (.inl (others d inside))

private theorem Span.literal_of_plain {t : Text}
    (plain : ∀ d ∈ t, d ∉ ['"', '[', '\\', '$']) (rest : Text) :
    literal (t ++ '"' :: rest) = (t, '"' :: rest) := by
  induction t with
  | nil => simp [literal]
  | cons d t ih =>
    have first := plain d List.mem_cons_self
    simp only [List.mem_cons, List.not_mem_nil, not_or, or_false] at first
    have later := ih fun e inside => plain e (List.mem_cons_of_mem _ inside)
    cases t <;> simp_all [literal]

private theorem Text.unescape_of_plain {t : Text} (plain : '\\' ∉ t) : unescape false t = t := by
  induction t with
  | nil => rfl
  | cons d t ih =>
    simp only [List.mem_cons, not_or] at plain
    have other : d ≠ '\\' := fun same => plain.1 same.symm
    have later := ih plain.2
    cases t <;> simp_all [unescape]

/-- Behind a dollar sign a bare word is cut off as a name. -/
theorem scan_dollar {n : Text} (bare : BareWord n) (fresh : Bool) (place : Nat) :
    Piece.lexemes (scan [] fresh place ('$' :: n)).pieces = [.symbol .dollar, .name n] ∧
      (scan [] fresh place ('$' :: n)).stopped = none := by
  have step (rest : Text) : Scan.step [] fresh place '$' rest =
      .read (Scan.reference rest).1 [] false (Scan.reference rest).2 := by
    simp [Scan.step, Scan.scriptStep, isSpacing]
  rw [scan_of_read (step n)]
  cases bare with
  | @name c t letter others =>
    have all : ∀ d ∈ c :: t, continuesName d = true := by
      simpa using ⟨continuesName_of_startsName letter, others⟩
    simp [Scan.reference, letter, Span.word_of_all all, scan, Scanned.behind]
  | @numbered c t tail digit cut more others =>
    have word := scan_bareWord (.numbered digit cut more others) false (place + 1)
    rw [List.cons_append] at word ⊢
    simp [Scan.reference, startsName_of_isDigit digit, word, Scanned.behind, Lexeme.ofWord,
      Scan.keyword?_of_isDigit digit]

/-- What stands between two quotes at the end of a text is read by itself. -/
theorem scan_quotes {t : Text} {pieces : List Piece} {fresh : Bool} {place : Nat} {c : Char}
    (inner : Scan.step [.quote place] false (place + 1) c t =
      .read pieces [.quote place] false ['"']) :
    Piece.lexemes (scan [] fresh place ('"' :: c :: t)).pieces =
        .symbol .leftQuote :: (Piece.lexemes pieces ++ [.symbol .rightQuote]) ∧
      (scan [] fresh place ('"' :: c :: t)).stopped = none := by
  have opens : Scan.step [] fresh place '"' (c :: t) =
      .read [.token (.symbol .leftQuote) ['"']] [.quote place] false (c :: t) := by
    simp [Scan.step, Scan.scriptStep, isSpacing]
  have closes (later : Nat) : Scan.step [.quote place] false later '"' [] =
      .read [.token (.symbol .rightQuote) ['"']] [] false [] := rfl
  rw [scan_of_read opens]
  simp only [Piece.sources_cons, Piece.source_token, Piece.sources_nil, List.append_nil,
    List.length_cons, List.length_nil, Nat.zero_add]
  rw [scan_of_read inner, scan_of_read (closes _)]
  simp [scan, Scanned.behind]

/-- Between quotes, behind a dollar sign, a word that starts with a letter or an underscore is cut
off as a name. -/
theorem scan_quotedDollar {c : Char} {t : Text} (letter : startsName c = true)
    (others : ∀ d ∈ t, continuesName d = true) (fresh : Bool) (place : Nat) :
    Piece.lexemes (scan [] fresh place ('"' :: '$' :: (c :: t ++ ['"']))).pieces =
        [.symbol .leftQuote, .symbol .dollar, .name (c :: t), .symbol .rightQuote] ∧
      (scan [] fresh place ('"' :: '$' :: (c :: t ++ ['"']))).stopped = none := by
  have all : ∀ d ∈ c :: t, continuesName d = true := by
    simpa using ⟨continuesName_of_startsName letter, others⟩
  have stop : continuesName '"' = false := by decide +kernel
  have word : Span.word (c :: t ++ ['"']) = (c :: t, ['"']) :=
    Span.word_append_of_all all (by simp [stop])
  have inner : Scan.step [.quote place] false (place + 1) '$' (c :: t ++ ['"']) =
      .read [.token (.symbol .dollar) ['$'], .token (.name (c :: t)) (c :: t)] [.quote place] false
        ['"'] := by
    rw [List.cons_append] at word ⊢
    simp [Scan.step, Scan.quoteStep, Span.literal, letter, Scan.reference, word]
  exact scan_quotes inner

/-- Between quotes, in front of a word that starts with a digit, a dollar sign is literal, and the
word as well. -/
theorem scan_quotedDigit {c : Char} {t : Text} (bare : BareWord (c :: t)) (digit : isDigit c = true)
    (fresh : Bool) (place : Nat) :
    Piece.lexemes (scan [] fresh place ('"' :: '$' :: (c :: t ++ ['"']))).pieces =
        [.symbol .leftQuote, .name ('$' :: c :: t), .symbol .rightQuote] ∧
      (scan [] fresh place ('"' :: '$' :: (c :: t ++ ['"']))).stopped = none := by
  have literal : Span.literal ('$' :: (c :: t ++ ['"'])) = ('$' :: c :: t, ['"']) := by
    have later := Span.literal_of_plain bare.plain []
    rw [List.cons_append] at later ⊢
    simp [Span.literal, startsName_of_isDigit digit, later]
  have plain : '\\' ∉ '$' :: c :: t := by
    intro inside
    rcases List.mem_cons.mp inside with same | inside
    · exact absurd same (by decide)
    · exact bare.plain _ inside (by decide)
  have inner : Scan.step [.quote place] false (place + 1) '$' (c :: t ++ ['"']) =
      .read [.token (.name ('$' :: c :: t)) ('$' :: c :: t)] [.quote place] false ['"'] := by
    rw [List.cons_append] at literal ⊢
    simp [Scan.step, Scan.quoteStep, literal, Text.unescape_of_plain plain]
  exact scan_quotes inner

end TinyTcl
