import TinyTcl.Proofs.Program.Nested

/-! The readers of the grammar are sound on well nested tokens. The recursion follows that of the
readers: inside brackets and quotes a reader finds the closing delimiter that goes with the opening
one, and never the end. -/
namespace TinyTcl

namespace Grammar

open Cursor

variable {depth : Nat} {c : Cursor} {around : List Delimiter}

/-- A token that must be there is the next one written, where it leaves the delimiters around it as
they are. -/
theorem sound_consume {α : Type} {phase : Phase} {f : GrammarFault} {taken : Lexeme → Option α}
    {Writes : α → List Token → Prop} (nested : c.Nested phase around)
    (plain : f.isStructural = false)
    (written : ∀ l q a next, taken l = some a → phase.next around l = some next →
      next = .whole ∧ l.enclose around = around ∧ Writes a [⟨l, q⟩]) :
    (consume depth f taken c).Sound c around Writes := by
  rcases c.view_cases with ⟨⟨l, q⟩, rest, reads⟩ | ⟨t, here, ends⟩ | ⟨d, here, breaks⟩
  · cases wanted : taken l with
    | none =>
      rw [consume_of_other reads wanted]
      exact nested.reject reads.shows plain depth
    | some a =>
      obtain ⟨next, leads, later⟩ := nested.reads reads
      obtain ⟨rfl, same, writes⟩ := written l q a next wanted leads
      rw [consume_of_reads reads wanted]
      exact .single reads writes (same ▸ later)
  · rw [consume_of_ends ends]
    exact nested.reject (.inr ends) plain depth
  · rw [consume_of_breaks breaks]
    exact nested.breaks breaks

/-- The name behind a dollar sign. -/
theorem sound_reference {p : Position} (nested : c.Nested .dollar around) :
    (reference depth p c).Sound c around fun e ts => Expr.Written e (.ofSymbol .dollar p :: ts) := by
  refine sound_consume nested rfl fun l q e next wanted leads => ?_
  cases l with
  | name name =>
    cases wanted
    exact ⟨(Option.some.inj leads).symm, rfl, .reference name p q⟩
  | number | symbol => cases wanted

/-- The parenthesis that closes a group. -/
theorem sound_rightParen (nested : c.Nested .whole around) (script : InScript around) :
    (symbol depth .rightParen .openGroup c).Sound c around fun _ ts =>
      ∃ q, ts = [.ofSymbol .rightParen q] := by
  refine sound_consume nested rfl fun l q _ next wanted leads => ?_
  obtain rfl : l = .symbol .rightParen := by simpa using wanted
  simp only [Phase.next, if_neg script] at leads
  exact ⟨(Option.some.inj leads).symm, rfl, q, rfl⟩

private theorem ofWord_text {s : Symbol} (keyword : s.isKeyword = true) :
    Lexeme.ofWord s.text = .symbol s := by
  cases s <;> first | rfl | cases keyword

/-- The name of a variable to set or unset. A name that stands alone spells no keyword, and a
keyword is its own spelling. -/
theorem sound_target (command : Symbol) (nested : c.Nested .whole around)
    (script : InScript around) :
    (target depth command c).Sound c around fun name ts => ∃ q, ts = [⟨.ofWord name, q⟩] := by
  refine sound_consume nested rfl fun l q target next wanted leads => ?_
  simp only [Phase.next, if_neg script] at leads
  cases l with
  | number => cases wanted
  | name name =>
    cases wanted
    obtain ⟨plain, rfl⟩ := Lexeme.inScript_name leads
    have word : Lexeme.ofWord target = .name target := by simp only [Lexeme.ofWord, plain]
    exact ⟨rfl, rfl, q, by rw [word]⟩
  | symbol s =>
    simp only [Lexeme.target?, Option.ite_none_right_eq_some, Option.some.injEq] at wanted
    obtain ⟨keyword, rfl⟩ := wanted
    have complete : next = .whole := by
      cases s <;> first | exact (Option.some.inj leads).symm | cases keyword
    have unchanged : (Lexeme.symbol s).enclose around = around := by
      cases s <;> first | rfl | cases keyword
    exact ⟨complete, unchanged, q, by rw [ofWord_text keyword]⟩

/-- Behind the body of a block stands its closing brace. -/
theorem sound_rightBrace (nested : c.Nested .body around) :
    (symbol depth .rightBrace .openBlock c).Sound c around fun _ ts =>
      ∃ r, ts = [.ofSymbol .rightBrace r] := by
  rcases c.view_cases with ⟨⟨l, r⟩, rest, reads⟩ | ⟨t, here, ends⟩ | ⟨d, here, breaks⟩
  · obtain ⟨next, leads, later⟩ := nested.reads reads
    by_cases closes : l = .symbol .rightBrace
    · subst closes
      cases leads
      rw [symbol_of_reads reads]
      exact .single reads ⟨r, rfl⟩ later
    · simp only [Phase.next] at leads
      cases leads
  · obtain ⟨_, ready, _⟩ := nested.ends ends
    exact absurd rfl ready.2
  · rw [symbol, consume_of_breaks breaks]
    exact nested.breaks breaks

/-- Behind the opening brace of a block stand its body and its closing brace. -/
theorem sound_block {p : Position} (nested : c.Nested .brace around) :
    (block depth p c).Sound c around fun body ts =>
      ∃ r, ts = [⟨.name body.val.text, body.val.position⟩, .ofSymbol .rightBrace r] := by
  rcases c.view_cases with ⟨⟨l, q⟩, rest, reads⟩ | ⟨t, here, ends⟩ | ⟨d, here, breaks⟩
  · obtain ⟨next, leads, later⟩ := nested.reads reads
    obtain ⟨_, _, view⟩ := reads.view
    cases l with
    | name body =>
      cases leads
      rw [block, view]
      apply Reply.Sound.token reads
      apply (sound_rightBrace later).map
      rintro _ _ ⟨r, rfl⟩
      exact ⟨r, rfl⟩
    | number text => cases leads
    | symbol s => cases leads
  · obtain ⟨_, ready, _⟩ := nested.ends ends
    exact absurd rfl ready.1
  · rw [block_of_breaks breaks]
    exact nested.breaks breaks

theorem symbol_of_operator? {layer : Layer} {l : Lexeme} {operator : Operator}
    (h : layer.operator? l = some operator) : l = .symbol operator.symbol := by
  unfold Layer.operator? at h
  split at h <;> cases h <;> rfl

/-- Behind an operator of a script everything goes on as before. -/
theorem nested_of_operator {rest : Cursor} {operator : Operator} {p : Position}
    (nested : c.Nested .whole around) (script : InScript around)
    (reads : c.Reads ⟨.symbol operator.symbol, p⟩ rest) : rest.Nested .whole around := by
  obtain ⟨next, leads, later⟩ := nested.script script reads
  rw [enclose_operatorSymbol] at later
  have complete : next = .whole := by
    cases operator <;> exact (Option.some.inj leads).symm
  rwa [complete] at later

/-- A sign in front of a number is read with it, any other one alone. -/
theorem sound_sign {rest : Cursor} {p : Position} (sign : Sign) (role : Operand)
    (reads : c.Reads (.ofSymbol sign.symbol p) rest) (nested : rest.Nested .whole around)
    (script : InScript around) : (word depth role c).Sound c around Expr.Written := by
  have signs : sign.symbol = .plus ∨ sign.symbol = .minus := by
    cases sign
    · exact .inl rfl
    · exact .inr rfl
  have lone (alone : ∀ digits q behind, ¬ rest.Reads ⟨.number digits, q⟩ behind)
      (sound : ∀ d here, ¬ rest.Breaks d here) :
      (word depth role c).Sound c around Expr.Written := by
    rw [word_of_lone_sign reads signs alone sound
      (Nat.lt_of_lt_of_le rest.workload_look_lt reads.shorter)]
    apply Reply.Sound.token reads
    exact .nothing (.symbol (.inr signs) p) rest.tokens_look rest.fault_look nested.look
  rcases rest.view_cases with ⟨⟨l, q⟩, behind, next⟩ | ⟨t, here, ends⟩ | ⟨d, here, breaks⟩
  · by_cases number : ∃ digits, l = .number digits
    · obtain ⟨digits, rfl⟩ := number
      obtain ⟨_, leads, later⟩ := nested.script script next
      cases leads
      rw [word_of_signed_number reads signs next (Nat.lt_trans next.shorter reads.shorter)]
      apply Reply.Sound.token reads
      exact .single next (.signedNumber sign digits p q) later
    · apply lone
      · rintro digits _ _ other
        cases (next.unique other).1
        exact number ⟨digits, rfl⟩
      · exact fun _ _ => next.not_breaks
  · exact lone (fun _ _ _ other => other.not_ends ends) (fun _ _ => ends.not_breaks)
  · rw [word_of_sign_of_breaks reads signs breaks]
    exact nested.breaks breaks

/-- What is written up to the closing quote of a string. -/
def ClosesQuote (parts : List Expr) (ts : List Token) : Prop :=
  ∃ us q, ts = us ++ [.ofSymbol .rightQuote q] ∧ Expr.AllWritten parts us

private theorem ClosesQuote.cons {part : Expr} {others : List Expr} {ts us : List Token}
    (written : Expr.Written part ts) (closes : ClosesQuote others us) :
    ClosesQuote (part :: others) (ts ++ us) := by
  obtain ⟨vs, q, rfl, behind⟩ := closes
  exact ⟨ts ++ vs, q, (List.append_assoc ..).symm, .cons written behind⟩

/-- What is written up to the closing bracket of a substitution. -/
def ClosesBracket (commands : List Command) (ts : List Token) : Prop :=
  ∃ us q, ts = us ++ [.ofSymbol .rightBracket q] ∧ Command.Sequence commands us

/-- The text between the braces of an expression is well nested by itself. -/
theorem nested_ofExpression (body : Block) (log : List Event) :
    ((ofExpression body).withLog log).Nested .whole [] := by
  refine ⟨?_, fun fault => (cut_ofText body.text body.position).lexical fault⟩
  have nested := (wellNested_ofText body.text body.position).filter
  rwa [← lexemes_joinLines] at nested

/-- An expression in braces is all that stands between them. -/
theorem sound_closing {n m : Nat} {outer : Cursor} {within : outer.workload < m} {body : Block}
    {log : List Event} {r : Reply Expr n}
    (inner : r.Sound ((ofExpression body).withLog log) [] Expr.Written)
    (nested : outer.Nested .whole around) :
    (closing outer within r).Sound outer around fun e ts => ts = [] ∧ ∀ p o q,
      Command.Written (.expr p e) [.ofSymbol .expr p, .ofSymbol .leftBrace o,
        ⟨.name body.text, body.position⟩, .ofSymbol .rightBrace q] := by
  cases r with
  | fail d here => exact inner
  | ok e behind inside =>
    obtain ⟨ts, tokens, written, fault, ended⟩ := inner
    rcases behind.view_cases with ⟨t, rest, reads⟩ | ⟨t, here, ends⟩ | ⟨d, here, breaks⟩
    · rw [closing_of_reads reads]
      rintro ⟨f, grammar, structural⟩
      cases grammar
      cases structural
    · obtain ⟨_, _, alone, last, sound, _⟩ := ended.ends ends
      rw [closing_of_ends ends]
      rw [alone] at tokens
      refine .nothing ⟨rfl, fun p o q => ?_⟩ rfl rfl (nested.of_same rfl rfl)
      exact .bracedExpr p o body.position q (fault.symm.trans sound) last tokens written
    · rw [closing_of_breaks breaks]
      exact ended.breaks breaks

private theorem inScript_bracket (around : List Delimiter) : InScript (.bracket :: around) := by
  simp [InScript]

private theorem substitution_of_rightBracket {rest : Cursor} {q : Position}
    (reads : c.Reads ⟨.symbol .rightBracket, q⟩ rest) :
    substitution depth c = .ok [] rest reads.shorter := by
  obtain ⟨_, _, view⟩ := reads.view
  rw [substitution, view]
  simp

mutual

theorem sound_chain (layer : Layer) {depth : Nat} {c : Cursor} {around : List Delimiter}
    (nested : c.Nested .whole around) (script : InScript around) :
    (chain layer depth c).Sound c around Expr.Written := by
  rw [chain]
  exact (sound_part layer nested script).andThen fun left ls rest within _ written later =>
    (sound_further layer later script written).widen _
termination_by 8 * c.workload + 2 * layer.height + 2

theorem sound_part (layer : Layer) {depth : Nat} {c : Cursor} {around : List Delimiter}
    (nested : c.Nested .whole around) (script : InScript around) :
    (part layer depth c).Sound c around Expr.Written := by
  cases layer with
  | product =>
    rw [part]
    exact sound_operand nested script
  | sum =>
    rw [part]
    exact sound_chain .product nested script
termination_by 8 * c.workload + 2 * layer.height + 1

theorem sound_further (layer : Layer) {depth : Nat} {c : Cursor} {around : List Delimiter}
    (nested : c.Nested .whole around) (script : InScript around) {left : Expr} {ls : List Token}
    (written : Expr.Written left ls) :
    (further layer depth left c).Sound c around fun e ts => Expr.Written e (ls ++ ts) := by
  have alone : Expr.Written left (ls ++ []) := by rwa [List.append_nil]
  rcases c.view_cases with ⟨⟨l, p⟩, rest, reads⟩ | ⟨t, here, ends⟩ | ⟨d, here, breaks⟩
  · obtain ⟨_, shorter, view⟩ := reads.view
    rw [further, view]
    dsimp only
    cases found : layer.operator? l with
    | none => exact .nothing alone rfl rfl nested
    | some operator =>
      obtain rfl := symbol_of_operator? found
      have next := nested_of_operator nested script reads
      apply Reply.Sound.token reads
      refine (sound_part layer next script).andThen fun right rs after within _ written' later => ?_
      have both := Expr.Written.binary operator p written written'
      apply ((sound_further layer later script both).widen _).imp
      intro e us _ _ whole
      rw [List.append_assoc] at whole
      exact whole
  · obtain ⟨_, view⟩ := ends.view
    rw [further, view]
    have same := ends.look
    exact .nothing alone (same ▸ c.tokens_look) (same ▸ c.fault_look) (same ▸ nested.look)
  · rw [further_of_breaks breaks]
    exact nested.breaks breaks
termination_by 8 * c.workload

theorem sound_operand {depth : Nat} {c : Cursor} {around : List Delimiter}
    (nested : c.Nested .whole around) (script : InScript around) :
    (operand depth c).Sound c around Expr.Written := by
  rcases c.view_cases with ⟨⟨l, p⟩, rest, reads⟩ | ⟨t, here, ends⟩ | ⟨d, here, breaks⟩
  · obtain ⟨next, leads, later⟩ := nested.script script reads
    obtain ⟨_, shorter, view⟩ := reads.view
    rw [operand, view]
    dsimp only
    rcases l with text | text | sym
    case number =>
      cases leads
      exact .single reads (.number text p) later
    case name =>
      obtain ⟨_, rfl⟩ := Lexeme.inScript_name leads
      exact .single reads (.word text p) later
    cases sym
    case dollar =>
      cases leads
      exact .token reads ((sound_reference later).widen _)
    case leftParen =>
      cases leads
      apply Reply.Sound.token reads
      refine (sound_chain .sum later script).andThen fun inner ts rest within _ written after => ?_
      apply (sound_rightParen after script).map
      rintro _ _ ⟨q, rfl⟩
      exact .group p q written
    case plus =>
      cases leads
      exact .token reads ((sound_operand later script).map fun _ _ => .signed .positive p)
    case minus =>
      cases leads
      exact .token reads ((sound_operand later script).map fun _ _ => .signed .negative p)
    case leftBracket =>
      cases leads
      apply Reply.Sound.token reads
      apply (sound_substitution later).map
      rintro commands _ ⟨ts, q, rfl, written⟩
      exact .substitution p q written
    case leftQuote =>
      cases leads
      apply Reply.Sound.token reads
      apply (sound_parts later (.inl rfl)).map
      rintro parts _ ⟨ts, q, rfl, written⟩
      exact .quoted p q written
    all_goals exact nested.reject reads.shows rfl depth
  · obtain ⟨_, view⟩ := ends.view
    rw [operand, view]
    exact nested.reject (.inr ends) rfl depth
  · rw [operand_of_breaks breaks]
    exact nested.breaks breaks
termination_by 8 * c.workload

/-- The parts of a string stand behind its opening quote. -/
theorem sound_parts {depth : Nat} {c : Cursor} {around : List Delimiter} {phase : Phase}
    (nested : c.Nested phase (.quote :: around)) (complete : phase = .whole ∨ phase = .literal) :
    (parts depth c).Sound c around ClosesQuote := by
  rcases c.view_cases with ⟨⟨l, p⟩, rest, reads⟩ | ⟨t, here, ends⟩ | ⟨d, here, breaks⟩
  · obtain ⟨next, leads, later⟩ := nested.quoted complete reads
    obtain ⟨_, shorter, view⟩ := reads.view
    rw [parts, view]
    dsimp only
    rcases l with text | text | sym
    case number => rcases complete with rfl | rfl <;> cases leads
    case name =>
      have literal : next = .literal := by rcases complete with rfl | rfl <;> cases leads; rfl
      subst literal
      apply Reply.Sound.token reads
      apply (sound_parts later (.inr rfl)).map
      exact fun others us closes => .cons (.word text p) closes
    cases sym
    case rightQuote =>
      have whole : next = .whole := by rcases complete with rfl | rfl <;> cases leads <;> rfl
      subst whole
      exact .single reads ⟨[], p, rfl, .nil⟩ later
    case dollar =>
      have dollar : next = .dollar := by rcases complete with rfl | rfl <;> cases leads <;> rfl
      subst dollar
      apply Reply.Sound.token reads
      refine (sound_reference later).andThen fun part ts rest within _ reference after => ?_
      exact (sound_parts after (.inl rfl)).map fun others us closes => .cons reference closes
    case leftBracket =>
      have whole : next = .whole := by rcases complete with rfl | rfl <;> cases leads <;> rfl
      subst whole
      apply Reply.Sound.token reads
      refine (sound_substitution later).andThen fun commands _ rest within _ closes after => ?_
      obtain ⟨ts, r, rfl, inside⟩ := closes
      have substitution := Expr.Written.substitution p r inside
      exact (sound_parts after (.inl rfl)).map fun others us closes => .cons substitution closes
    all_goals rcases complete with rfl | rfl <;> cases leads
  · obtain ⟨outside, _⟩ := nested.ends ends
    cases outside
  · rw [parts_of_breaks breaks]
    exact nested.breaks breaks
termination_by 8 * c.workload

/-- The commands of a substitution stand behind its opening bracket. -/
theorem sound_substitution {depth : Nat} {c : Cursor} {around : List Delimiter}
    (nested : c.Nested .whole (.bracket :: around)) :
    (substitution (depth + 1) c).Sound c around ClosesBracket := by
  have script := inScript_bracket around
  rcases c.view_cases with ⟨⟨l, p⟩, rest, reads⟩ | ⟨t, here, ends⟩ | ⟨d, here, breaks⟩
  · have less := reads.shorter
    by_cases closes : l = .symbol .rightBracket
    · subst closes
      obtain ⟨_, leads, later⟩ := nested.script script reads
      cases leads
      rw [substitution_of_rightBracket reads]
      exact .single reads ⟨[], p, rfl, .nil⟩ later
    have apart : (l == .symbol .rightBracket) = false := beq_eq_false_iff_ne.mpr closes
    obtain ⟨_, _, view⟩ := reads.view
    rw [substitution, view]
    by_cases separates : l.isSeparator = true
    · simp only [apart, separates, Bool.false_eq_true, if_false, if_true]
      apply Reply.Sound.token reads
      apply ((sound_substitution (nested.separator script reads separates)).widen _).imp
      rintro commands _ _ _ ⟨ts, q, rfl, written⟩
      exact ⟨⟨l, p⟩ :: ts, q, rfl, .separator separates written⟩
    · simp only [apart, separates, Bool.false_eq_true, if_false]
      refine (sound_command nested script).andThen fun first ts after within _ written later => ?_
      rcases after.view_cases with ⟨⟨m, q⟩, behind, next⟩ | ⟨t, here, ends⟩ | ⟨d, here, breaks⟩
      · have less := next.shorter
        by_cases separates : m.isSeparator = true
        · rw [endOfStatement_of_separator next separates]
          simp only [Reply.andThen]
          apply Reply.Sound.token next
          apply (sound_substitution (later.separator script next separates)).map
          rintro others _ ⟨us, r, rfl, row⟩
          exact ⟨ts ++ ⟨m, q⟩ :: us, r, by simp, .cons written separates row⟩
        · by_cases closes : m = .symbol .rightBracket
          · subst closes
            obtain ⟨_, leads, outside⟩ := later.script script next
            cases leads
            rw [endOfStatement_of_rightBracket next (Nat.succ_pos depth) rfl]
            simp only [Reply.andThen]
            rw [substitution_of_rightBracket next]
            exact .single next ⟨ts, q, rfl, .last written⟩ outside
          · rw [endOfStatement_of_other next (by simp [separates, closes]), reject_eq]
            exact later.refusal next.shows rfl (depth + 1)
      · obtain ⟨outside, _⟩ := later.ends ends
        cases outside
      · rw [endOfStatement_of_breaks breaks]
        exact later.breaks breaks
  · obtain ⟨outside, _⟩ := nested.ends ends
    cases outside
  · rw [substitution_of_breaks breaks]
    exact nested.breaks breaks
termination_by 8 * c.workload + 1

theorem sound_word {depth : Nat} {c : Cursor} {around : List Delimiter} (role : Operand)
    (nested : c.Nested .whole around) (script : InScript around) :
    (word depth role c).Sound c around Expr.Written := by
  rcases c.view_cases with ⟨⟨l, p⟩, rest, reads⟩ | ⟨t, here, ends⟩ | ⟨d, here, breaks⟩
  · obtain ⟨next, leads, later⟩ := nested.script script reads
    by_cases plus : l = .symbol .plus
    · subst plus
      cases leads
      exact sound_sign .positive role reads later script
    by_cases minus : l = .symbol .minus
    · subst minus
      cases leads
      exact sound_sign .negative role reads later script
    obtain ⟨_, shorter, view⟩ := reads.view
    rw [word, view]
    dsimp only
    rcases l with text | text | sym
    case number =>
      cases leads
      exact .single reads (.number text p) later
    case name =>
      obtain ⟨_, rfl⟩ := Lexeme.inScript_name leads
      exact .single reads (.word text p) later
    cases sym
    case plus | minus => simp at plus minus
    case dollar =>
      cases leads
      exact .token reads ((sound_reference later).widen _)
    case leftQuote =>
      cases leads
      apply Reply.Sound.token reads
      apply (sound_parts later (.inl rfl)).map
      rintro parts _ ⟨ts, q, rfl, written⟩
      exact .quoted p q written
    case leftBrace =>
      cases leads
      apply Reply.Sound.token reads
      apply (sound_block later).map
      rintro body _ ⟨r, rfl⟩
      exact .braced body.val.text p body.val.position r
    case leftBracket =>
      cases leads
      apply Reply.Sound.token reads
      apply (sound_substitution later).map
      rintro commands _ ⟨ts, q, rfl, written⟩
      exact .substitution p q written
    case puts | expr | unset | set | times | divide | leftParen | rightParen =>
      cases leads
      exact .single reads (.symbol (.inl rfl) p) later
    all_goals exact nested.reject reads.shows rfl depth
  · obtain ⟨_, view⟩ := ends.view
    rw [word, view]
    exact nested.reject (.inr ends) rfl depth
  · rw [word_of_breaks breaks]
    exact nested.breaks breaks
termination_by 8 * c.workload

theorem sound_arguments {depth : Nat} {c : Cursor} {around : List Delimiter}
    (nested : c.Nested .whole around) (script : InScript around) :
    (arguments depth c).Sound c around Expr.AllWritten := by
  by_cases done : c.Concludes depth
  · rw [arguments_of_concludes done]
    exact .nothing .nil c.tokens_look c.fault_look nested.look
  rcases c.view_cases with ⟨t, rest, reads⟩ | ⟨t, here, ends⟩ | ⟨d, here, breaks⟩
  · have apart : (t.lexeme.isSeparator || (depth > 0 && t.lexeme == .symbol .rightBracket)) =
        false := by
      rw [Bool.eq_false_iff]
      intro ends
      exact done (.inl ⟨t, rest, reads, by simpa using ends⟩)
    obtain ⟨_, _, view⟩ := reads.view
    rw [arguments, view]
    simp only [apart, Bool.false_eq_true, if_false]
    refine (sound_word .argument nested script).andThen
      fun first ts after within _ written later => ?_
    exact (sound_arguments later script).map fun others us behind => .cons written behind
  · exact absurd (.inr ⟨t, here, ends⟩) done
  · rw [arguments_of_breaks breaks]
    exact nested.breaks breaks
termination_by 8 * c.workload + 1

/-- The operand of `expr`, in braces or not. -/
theorem sound_formula {depth : Nat} {c : Cursor} {around : List Delimiter}
    (nested : c.Nested .whole around) (script : InScript around) :
    (formula depth c).Sound c around fun e ts =>
      ∀ p, Command.Written (.expr p e) (.ofSymbol .expr p :: ts) := by
  by_cases brace : ∃ p rest, c.Reads ⟨.symbol .leftBrace, p⟩ rest
  · obtain ⟨o, rest, reads⟩ := brace
    obtain ⟨_, leads, later⟩ := nested.script script reads
    cases leads
    obtain ⟨_, shorter, _⟩ := reads.view
    rw [formula_of_brace reads]
    apply Reply.Sound.token reads
    refine (sound_block later).andThen fun body _ after within _ closes next => ?_
    obtain ⟨q, rfl⟩ := closes
    have smaller : (Cursor.ofExpression body.val).workload < c.workload :=
      workload_ofExpression_lt shorter body
    have inner : (chain .sum 0 ((Cursor.ofExpression body.val).withLog after.log)).Sound
        ((Cursor.ofExpression body.val).withLog after.log) [] Expr.Written :=
      sound_chain .sum (nested_ofExpression body.val after.log) (by simp [InScript])
    apply (sound_closing inner next).imp
    rintro e _ _ _ ⟨rfl, written⟩ p
    exact written p o q
  · have other (p : Position) (rest : Cursor) : ¬ c.Reads ⟨.symbol .leftBrace, p⟩ rest :=
      fun reads => brace ⟨p, rest, reads⟩
    rw [formula_of_other other]
    apply (sound_chain .sum nested script).imp
    intro e ts others tokens written p
    refine .expr p written fun t first opens => ?_
    obtain ⟨us, rfl⟩ := List.head?_eq_some_iff.mp first
    obtain ⟨l, q⟩ := t
    obtain rfl : l = .symbol .leftBrace := opens
    exact other q _ (reads_of_tokens tokens (by simp))
termination_by 8 * c.workload + 5

theorem sound_command {depth : Nat} {c : Cursor} {around : List Delimiter}
    (nested : c.Nested .whole around) (script : InScript around) :
    (command depth c).Sound c around Command.Written := by
  rcases c.view_cases with ⟨⟨l, p⟩, rest, reads⟩ | ⟨t, here, ends⟩ | ⟨d, here, breaks⟩
  · obtain ⟨next, leads, later⟩ := nested.script script reads
    obtain ⟨_, shorter, view⟩ := reads.view
    rw [command, view]
    dsimp only
    rcases l with text | name | sym
    case number => exact nested.reject reads.shows rfl depth
    case name =>
      obtain ⟨_, rfl⟩ := Lexeme.inScript_name leads
      exact .token reads ((sound_arguments later script).map fun _ _ => .invoke p name)
    cases sym
    case set =>
      cases leads
      apply Reply.Sound.token reads
      refine (sound_target .set later script).andThen fun name _ after within _ target next => ?_
      obtain ⟨q, rfl⟩ := target
      exact (sound_word .assigned next script).map fun _ _ => .set p q name
    case unset =>
      cases leads
      apply Reply.Sound.token reads
      apply (sound_target .unset later script).map
      rintro name _ ⟨q, rfl⟩
      exact .unset p q name
    case puts =>
      cases leads
      exact .token reads ((sound_word .printed later script).map fun _ _ => .puts p)
    case expr =>
      cases leads
      exact .token reads ((sound_formula later script).map fun _ _ written => written p)
    case leftBrace =>
      cases leads
      apply Reply.Sound.token reads
      apply (sound_block later).map
      rintro body _ ⟨r, rfl⟩
      exact .block p body.val.position r body.val.text
    all_goals exact nested.reject reads.shows rfl depth
  · obtain ⟨_, view⟩ := ends.view
    rw [command, view]
    exact nested.reject (.inr ends) rfl depth
  · rw [command_of_breaks breaks]
    exact nested.breaks breaks
termination_by 8 * c.workload

end

end Grammar
end TinyTcl
