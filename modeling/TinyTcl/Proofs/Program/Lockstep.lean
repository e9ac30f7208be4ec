import TinyTcl.Proofs.Program.Simulation

/-! The readers of the grammar keep every lawful relation of cursors. The recursion follows that of
the readers. In each step what stands at the two cursors is the same lexeme, or nothing that the
reader can use, or a lexical fault; a reader inside brackets or quotes leaves behind its closing
delimiter what its opening delimiter has added. -/
namespace TinyTcl.Simulation

open Grammar

section Symbols

variable {S : Simulation} (laws : S.Lawful) {s : Spot} {c c' : Cursor}

include laws

/-- What can be taken from a token is no separator, no bracket and no quote. -/
def TakesPlain {α : Type} (taken : Lexeme → Option α) : Prop :=
  ∀ l a, taken l = some a → l.isSeparator = false ∧ ∀ around, l.enclose around = around

omit laws in
private theorem TakesPlain.not_stop {α : Type} {taken : Lexeme → Option α}
    (plain : TakesPlain taken) (l : Lexeme) (a : α) (wanted : taken l = some a) :
    l.isSeparator = false ∧ l ≠ .symbol .rightBracket := by
  obtain ⟨separates, unchanged⟩ := plain l a wanted
  refine ⟨separates, ?_⟩
  rintro rfl
  cases unchanged [.bracket]

omit laws in
private theorem TakesPlain.at_behind {α : Type} {taken : Lexeme → Option α}
    (plain : TakesPlain taken) {l : Lexeme} {a : α} (wanted : taken l = some a)
    {rest rest' : Cursor} (behind : s.Fits l → S.Behind s l rest rest') :
    S.At s rest rest' := by
  have unchanged := (plain l a wanted).2
  rcases l with _ | _ | sym
  case number | name => exact behind trivial
  cases sym
  case leftBracket | leftQuote => cases unchanged []
  case rightBracket => cases unchanged [.bracket]
  case rightQuote => cases unchanged [.quote]
  all_goals exact behind trivial

/-- A token that must be there is taken at both cursors or refused at both. -/
theorem Lawful.consume {α β : Type} {V : α → β → Prop} (h : S.At s c c') {f : GrammarFault}
    {taken : Lexeme → Option α} {taken' : Lexeme → Option β} (fixed : ∀ l, f.about l = f)
    (plain : TakesPlain taken) (plain' : TakesPlain taken')
    (alike : ∀ l, Option.Rel V (taken l) (taken' l)) :
    S.Agree V (S.At s) (consume s.brackets f taken c) (consume (S.Depth s) f taken' c') := by
  rcases laws.met h with ⟨l, _, _, rest, rest', reads, reads', _, behind⟩ | ⟨stops, stops'⟩ |
    ⟨breaks, others⟩
  · have both := alike l
    cases wanted : taken l with
    | none =>
      rw [wanted] at both
      cases refused : taken' l with
      | some b =>
        rw [refused] at both
        cases both
      | none =>
        rw [consume_of_other reads wanted, consume_of_other reads' refused]
        exact laws.agree_reject h reads.shows reads'.shows (fixed _) (fixed _)
    | some a =>
      rw [wanted] at both
      cases wanted' : taken' l with
      | none =>
        rw [wanted'] at both
        cases both
      | some b =>
        rw [wanted'] at both
        cases both with
        | some same =>
          rw [consume_of_reads reads wanted, consume_of_reads reads' wanted']
          exact ⟨same, plain.at_behind wanted behind⟩
  · rw [consume_of_stops plain.not_stop stops, consume_of_stops plain'.not_stop stops']
    exact laws.agree_reject h stops.shows stops'.shows (fixed _) (fixed _)
  · exact agree_of_breaks others (consume_of_breaks breaks) fun _ _ => consume_of_breaks

private theorem Lawful.symbol (h : S.At s c c') {closing : Symbol} {f : GrammarFault}
    (closes : closing = .rightParen ∨ closing = .rightBrace) (fixed : ∀ l, f.about l = f) :
    S.Agree (fun _ _ => True) (S.At s) (symbol s.brackets closing f c)
      (symbol (S.Depth s) closing f c') := by
  have plain : TakesPlain fun l => if l = .symbol closing then some () else none := by
    intro l _ wanted
    obtain rfl : l = .symbol closing := by simpa using wanted
    rcases closes with rfl | rfl <;> exact ⟨rfl, fun _ => rfl⟩
  refine laws.consume h fixed plain plain fun l => ?_
  split
  · exact .some trivial
  · exact .none

private theorem Lawful.reference (h : S.At s c c') {p q : Position} (place : S.Q p q) :
    S.Agree (Expr.Alike S.Q) (S.At s) (reference s.brackets p c) (reference (S.Depth s) q c') := by
  have plain (p : Position) : TakesPlain fun l => l.name?.map (Expr.reference · p) := by
    intro l _ wanted
    cases l with
    | name name => exact ⟨rfl, fun _ => rfl⟩
    | number | symbol => cases wanted
  refine laws.consume h (fun _ => rfl) (plain p) (plain q) fun l => ?_
  cases l with
  | name name => exact .some (.reference name place)
  | number | symbol => exact .none

private theorem Lawful.target (h : S.At s c c') (command : Symbol) :
    S.Agree Eq (S.At s) (target s.brackets command c) (target (S.Depth s) command c') := by
  have plain : TakesPlain Lexeme.target? := by
    rintro (_ | name | sym) _ wanted
    case number => cases wanted
    case name => exact ⟨rfl, fun _ => rfl⟩
    cases sym
    case puts | expr | unset | set => exact ⟨rfl, fun _ => rfl⟩
    all_goals cases wanted
  refine laws.consume h (fun _ => rfl) plain plain fun l => ?_
  cases l.target? with
  | some name => exact .some rfl
  | none => exact .none

private theorem Lawful.block (h : S.At s c c') {p q : Position} (place : S.Q p q) :
    S.Agree (fun b b' => b.val.Alike S.Q b'.val) (S.At s) (block s.brackets p c)
      (block (S.Depth s) q c') := by
  rcases laws.met h with ⟨l, _, _, rest, rest', reads, reads', here, behind⟩ | ⟨stops, stops'⟩ |
    ⟨breaks, others⟩
  · obtain ⟨_, _, view⟩ := reads.view
    obtain ⟨_, _, view'⟩ := reads'.view
    rw [Grammar.block, Grammar.block, view, view']
    rcases l with _ | name | sym
    case name =>
      have next : S.At s rest rest' := behind trivial
      exact (laws.symbol next (.inr rfl) fun _ => rfl).map (fun _ _ _ => ⟨rfl, here⟩) _ _
    case number => exact laws.agree_reject h reads.shows reads'.shows rfl rfl
    cases sym
    case rightBrace => exact ⟨⟨rfl, laws.column place⟩, behind trivial⟩
    all_goals exact laws.agree_reject h reads.shows reads'.shows rfl rfl
  · rw [block_of_stops stops, block_of_stops stops']
    exact laws.agree_reject h stops.shows stops'.shows rfl rfl
  · exact agree_of_breaks others (block_of_breaks breaks) fun _ _ => block_of_breaks

/-- A sign in front of a number is read with it, any other one alone. -/
theorem Lawful.sign {rest rest' : Cursor} (h : S.At s rest rest') {sym : Symbol} {p q : Position}
    (reads : c.Reads ⟨.symbol sym, p⟩ rest) (reads' : c'.Reads ⟨.symbol sym, q⟩ rest')
    (signs : sym = .plus ∨ sym = .minus) (place : S.Q p q) (role : Operand) :
    S.Agree (Expr.Alike S.Q) (S.At s) (word s.brackets role c) (word (S.Depth s) role c') := by
  have reach := reads.shorter
  have reach' := reads'.shorter
  have lone (alone : ∀ digits q behind, ¬ rest.Reads ⟨.number digits, q⟩ behind)
      (alone' : ∀ digits q behind, ¬ rest'.Reads ⟨.number digits, q⟩ behind)
      (sound : ∀ d here, ¬ rest.Breaks d here) (sound' : ∀ d here, ¬ rest'.Breaks d here) :
      S.Agree (Expr.Alike S.Q) (S.At s) (word s.brackets role c) (word (S.Depth s) role c') := by
    rw [word_of_lone_sign reads signs alone sound (Nat.lt_of_lt_of_le rest.workload_look_lt reach),
      word_of_lone_sign reads' signs alone' sound'
        (Nat.lt_of_lt_of_le rest'.workload_look_lt reach')]
    exact ⟨.word _ ⟨rfl, place⟩, laws.look h⟩
  rcases laws.met h with ⟨l, _, _, _, _, next, next', _, behind⟩ | ⟨stops, stops'⟩ |
    ⟨breaks, others⟩
  · rcases l with digits | text | other
    case number =>
      rw [word_of_signed_number reads signs next (Nat.lt_trans next.shorter reach),
        word_of_signed_number reads' signs next' (Nat.lt_trans next'.shorter reach')]
      exact ⟨.number _ ⟨rfl, place⟩, behind trivial⟩
    all_goals
      refine lone ?_ ?_ (fun _ _ => next.not_breaks) (fun _ _ => next'.not_breaks)
      · rintro _ _ _ number
        cases (next.unique number).1
      · rintro _ _ _ number
        cases (next'.unique number).1
  · exact lone (fun _ _ _ => stops.not_reads rfl (by simp))
      (fun _ _ _ => stops'.not_reads rfl (by simp))
      (fun _ _ => stops.not_breaks) (fun _ _ => stops'.not_breaks)
  · exact agree_of_breaks others (word_of_sign_of_breaks reads signs breaks)
      fun _ _ => word_of_sign_of_breaks reads' signs

private theorem Lawful.closing {n m k l : Nat} {r : Reply Expr n} {r' : Reply Expr m}
    (inner : S.Agree (Expr.Alike S.Q) (S.At (.start true)) r r') (h : S.At s c c')
    (within : c.workload < k) (within' : c'.workload < l) :
    S.Agree (Expr.Alike S.Q) (S.At s) (closing c within r) (closing c' within' r') := by
  cases r with
  | fail d here =>
    cases r' with
    | ok e behind _ => exact .inl (inner.resolve_right (by rintro ⟨_, _, same, _⟩; cases same))
    | fail d' here' =>
      refine agree_fail (inner.imp_right ?_)
      rintro ⟨_, _, same, faults, after⟩
      cases same
      exact ⟨faults, laws.after h after⟩
  | ok e behind _ =>
    cases r' with
    | fail d here => exact inner.elim
    | ok e' behind' _ =>
      obtain ⟨alike, ended⟩ := inner
      rcases behind.view_cases with ⟨t, rest, reads⟩ | ⟨t, here, ends⟩ | ⟨d, here, breaks⟩
      · rw [closing_of_reads reads]
        rcases laws.surplus h ended reads with lenient | ⟨t', rest', reads', failures⟩
        · exact agree_of_lenient lenient
        · rw [closing_of_reads reads']
          exact agree_fail (.inr failures)
      · obtain ⟨t', here', ends'⟩ := laws.exhausted ended ends
        rw [closing_of_ends ends, closing_of_ends ends', ← ends.look, ← ends'.look]
        exact ⟨alike, laws.withLog h (laws.look ended)⟩
      · rw [closing_of_breaks breaks]
        rcases laws.broken ended breaks with lenient | ⟨d', here', breaks', faults, after⟩
        · exact agree_of_lenient lenient
        · rw [closing_of_breaks breaks']
          exact agree_fail (.inr ⟨faults, laws.after h after⟩)

end Symbols

mutual

theorem Lawful.chain {S : Simulation} (laws : S.Lawful) (layer : Layer) {s : Spot} {c c' : Cursor}
    (h : S.At s c c') : S.Agree (Expr.Alike S.Q) (S.At s) (chain layer s.brackets c)
      (chain layer (S.Depth s) c') := by
  rw [Grammar.chain, Grammar.chain]
  exact (laws.part layer h).andThen fun _ _ _ _ _ _ left next =>
    (laws.further layer next left).widen _ _
termination_by 8 * c.workload + 2 * layer.height + 2

theorem Lawful.part {S : Simulation} (laws : S.Lawful) (layer : Layer) {s : Spot} {c c' : Cursor}
    (h : S.At s c c') : S.Agree (Expr.Alike S.Q) (S.At s) (part layer s.brackets c)
      (part layer (S.Depth s) c') := by
  cases layer with
  | product =>
    rw [Grammar.part, Grammar.part]
    exact laws.operand h
  | sum =>
    rw [Grammar.part, Grammar.part]
    exact laws.chain .product h
termination_by 8 * c.workload + 2 * layer.height + 1

theorem Lawful.further {S : Simulation} (laws : S.Lawful) (layer : Layer) {s : Spot}
    {c c' : Cursor} (h : S.At s c c') {e f : Expr} (left : e.Alike S.Q f) :
    S.Agree (Expr.Alike S.Q) (S.At s) (further layer s.brackets e c)
      (further layer (S.Depth s) f c') := by
  rcases laws.met h with ⟨l, p, q, rest, rest', reads, reads', place, behind⟩ | ⟨stops, stops'⟩ |
    ⟨breaks, others⟩
  · obtain ⟨_, shorter, view⟩ := reads.view
    obtain ⟨_, _, view'⟩ := reads'.view
    rw [Grammar.further, Grammar.further, view, view']
    dsimp only
    cases found : layer.operator? l with
    | none => exact ⟨left, h⟩
    | some operator =>
      have next : S.At s rest rest' := by
        unfold Layer.operator? at found
        split at found
        case h_5 => cases found
        all_goals exact behind trivial
      exact (laws.part layer next).andThen fun _ _ _ _ _ _ right next =>
        (laws.further layer next (.binary operator left place right)).widen _ _
  · rw [further_of_stops stops, further_of_stops stops']
    exact ⟨left, stops.look ▸ stops'.look ▸ laws.look h⟩
  · exact agree_of_breaks others (further_of_breaks breaks) fun _ _ => further_of_breaks
termination_by 8 * c.workload

theorem Lawful.operand {S : Simulation} (laws : S.Lawful) {s : Spot} {c c' : Cursor}
    (h : S.At s c c') : S.Agree (Expr.Alike S.Q) (S.At s) (operand s.brackets c)
      (operand (S.Depth s) c') := by
  rcases laws.met h with ⟨l, p, q, rest, rest', reads, reads', place, behind⟩ | ⟨stops, stops'⟩ |
    ⟨breaks, others⟩
  · obtain ⟨_, shorter, view⟩ := reads.view
    obtain ⟨_, _, view'⟩ := reads'.view
    rw [Grammar.operand, Grammar.operand, view, view']
    rcases l with text | text | sym
    case number => exact ⟨.number text ⟨rfl, place⟩, behind trivial⟩
    case name => exact ⟨.word text ⟨rfl, place⟩, behind trivial⟩
    cases sym
    case dollar =>
      have next : S.At s rest rest' := behind trivial
      exact (laws.reference next place).widen _ _
    case leftParen =>
      have next : S.At s rest rest' := behind trivial
      exact (laws.chain .sum next).andThen fun _ _ _ _ _ _ inner next =>
        (laws.symbol next (.inl rfl) fun _ => rfl).map (fun _ _ _ => .group inner) _ _
    case plus =>
      have next : S.At s rest rest' := behind trivial
      exact (laws.operand next).map (fun _ _ operand => .signed .positive place operand) _ _
    case minus =>
      have next : S.At s rest rest' := behind trivial
      exact (laws.operand next).map (fun _ _ operand => .signed .negative place operand) _ _
    case leftBracket =>
      exact (laws.substitution (behind trivial) s.brackets_behind_leftBracket
        (laws.bracketed s)).map
        (fun _ _ commands => .substitution commands place) _ _
    case leftQuote =>
      exact (laws.parts (behind trivial) s.brackets_behind_leftQuote (laws.quoted s)).map
        (fun _ _ parts => .quoted parts place) _ _
    all_goals exact laws.agree_reject h reads.shows reads'.shows rfl rfl
  · rw [operand_of_stops stops, operand_of_stops stops']
    exact laws.agree_reject h stops.shows stops'.shows rfl rfl
  · exact agree_of_breaks others (operand_of_breaks breaks) fun _ _ => operand_of_breaks
termination_by 8 * c.workload

/-- The parts of a string stand behind its opening quote. -/
theorem Lawful.parts {S : Simulation} (laws : S.Lawful) {s : Spot} {c c' : Cursor}
    (h : S.At (s.behind (.symbol .leftQuote)) c c') {depth depth' : Nat}
    (same : (s.behind (.symbol .leftQuote)).brackets = depth)
    (same' : S.Depth (s.behind (.symbol .leftQuote)) = depth') :
    S.Agree (Expr.AllAlike S.Q) (S.At s) (parts depth c) (parts depth' c') := by
  subst same same'
  rcases laws.met h with ⟨l, p, q, rest, rest', reads, reads', place, behind⟩ | ⟨stops, stops'⟩ |
    ⟨breaks, others⟩
  · obtain ⟨_, shorter, view⟩ := reads.view
    obtain ⟨_, _, view'⟩ := reads'.view
    rw [Grammar.parts, Grammar.parts, view, view']
    rcases l with text | text | sym
    case number => exact laws.agree_reject h reads.shows reads'.shows rfl rfl
    case name =>
      have next : S.At (s.behind (.symbol .leftQuote)) rest rest' := behind trivial
      exact (laws.parts next rfl rfl).map (fun _ _ rest => .cons (.word text ⟨rfl, place⟩) rest) _ _
    cases sym
    case rightQuote => exact ⟨.nil, behind rfl⟩
    case dollar =>
      have next : S.At (s.behind (.symbol .leftQuote)) rest rest' := behind trivial
      exact (laws.reference next place).andThen fun _ _ _ _ _ _ part next =>
        (laws.parts next rfl rfl).map (fun _ _ rest => .cons part rest) _ _
    case leftBracket =>
      exact (laws.substitution (behind trivial) (Spot.brackets_behind_leftBracket _)
        (laws.bracketed _)).andThen
        fun _ _ _ _ _ _ commands next =>
          (laws.parts next rfl rfl).map
            (fun _ _ rest => .cons (.substitution commands place) rest) _ _
    all_goals exact laws.agree_reject h reads.shows reads'.shows rfl rfl
  · rw [parts_of_stops stops, parts_of_stops stops']
    exact laws.agree_reject h stops.shows stops'.shows rfl rfl
  · exact agree_of_breaks others (parts_of_breaks breaks) fun _ _ => parts_of_breaks
termination_by 8 * c.workload

/-- The commands of a substitution stand behind its opening bracket. -/
theorem Lawful.substitution {S : Simulation} (laws : S.Lawful) {s : Spot} {c c' : Cursor}
    (h : S.Between (s.behind (.symbol .leftBracket)) c c') {depth depth' : Nat}
    (deeper : (s.behind (.symbol .leftBracket)).brackets = depth)
    (deeper' : S.Depth (s.behind (.symbol .leftBracket)) = depth') :
    S.Agree (Command.AllAlike S.Q) (S.At s) (substitution depth c) (substitution depth' c') := by
  subst deeper deeper'
  have start := laws.resume h rfl
  have less := c.workload_skipSeparators_le
  rw [substitution_of_skipSeparators _ rfl less,
    substitution_of_skipSeparators _ rfl c'.workload_skipSeparators_le]
  refine Agree.widen ?_ _ _
  rcases c.skipSeparators.view_cases with ⟨t, rest, reads⟩ | ⟨t, here, ends⟩ | ⟨d, here, breaks⟩
  · have word := Cursor.not_isSeparator_of_skipped reads
    obtain ⟨t', rest', reads', alike, behind⟩ := laws.token start reads word
    obtain ⟨_, _, view⟩ := reads.view
    obtain ⟨_, _, view'⟩ := reads'.view
    rw [Grammar.substitution, Grammar.substitution, view, view']
    dsimp only
    rw [alike.1]
    by_cases closes : t.lexeme = .symbol .rightBracket
    · rw [closes] at behind ⊢
      exact ⟨.nil, behind rfl⟩
    · have other : (t.lexeme == .symbol .rightBracket) = false := beq_eq_false_iff_ne.mpr closes
      simp only [other, word, Bool.false_eq_true, if_false]
      have statements : S.Statements (s.behind (.symbol .leftBracket)) := laws.statements rfl
      exact (laws.command start statements).andThen fun _ _ _ _ _ _ first next =>
        (laws.endOfStatement next statements first.name_eq).andThen fun _ _ _ _ _ _ _ next =>
          (laws.substitution next rfl rfl).map (fun _ _ others => .cons first others) _ _
  · obtain ⟨_, view⟩ := ends.view
    rw [Grammar.substitution, view]
    dsimp only
    rcases laws.unclosed start rfl ends with lenient | ⟨t', here', ends'⟩
    · rw [reject_eq]
      exact agree_of_lenient lenient
    · obtain ⟨_, view'⟩ := ends'.view
      rw [Grammar.substitution, view']
      exact laws.agree_reject start (.inr ends) (.inr ends') rfl rfl
  · exact agree_of_breaks (laws.broken start breaks) (substitution_of_breaks breaks)
      fun _ _ => substitution_of_breaks
termination_by 8 * c.workload + 1

theorem Lawful.word {S : Simulation} (laws : S.Lawful) {s : Spot} {c c' : Cursor}
    (h : S.At s c c') (role : Operand) : S.Agree (Expr.Alike S.Q) (S.At s)
      (word s.brackets role c) (word (S.Depth s) role c') := by
  rcases laws.met h with ⟨l, p, q, rest, rest', reads, reads', place, behind⟩ | ⟨stops, stops'⟩ |
    ⟨breaks, others⟩
  · obtain ⟨_, shorter, view⟩ := reads.view
    obtain ⟨_, _, view'⟩ := reads'.view
    by_cases signs : l = .symbol .plus ∨ l = .symbol .minus
    · rcases signs with rfl | rfl
      · exact laws.sign (behind trivial) reads reads' (.inl rfl) place role
      · exact laws.sign (behind trivial) reads reads' (.inr rfl) place role
    rw [Grammar.word, Grammar.word, view, view']
    rcases l with text | text | sym
    case number => exact ⟨.number text ⟨rfl, place⟩, behind trivial⟩
    case name => exact ⟨.word text ⟨rfl, place⟩, behind trivial⟩
    cases sym
    case plus | minus => simp at signs
    case dollar =>
      have next : S.At s rest rest' := behind trivial
      exact (laws.reference next place).widen _ _
    case leftQuote =>
      exact (laws.parts (behind trivial) s.brackets_behind_leftQuote (laws.quoted s)).map
        (fun _ _ parts => .quoted parts place) _ _
    case leftBrace =>
      have next : S.At s rest rest' := behind trivial
      refine (laws.block next place).map (fun body body' same => ?_) _ _
      rw [same.1]
      exact .word _ ⟨rfl, place⟩
    case leftBracket =>
      exact (laws.substitution (behind trivial) s.brackets_behind_leftBracket
        (laws.bracketed s)).map
        (fun _ _ commands => .substitution commands place) _ _
    case puts | expr | unset | set | times | divide | leftParen | rightParen =>
      exact ⟨.word _ ⟨rfl, place⟩, behind trivial⟩
    all_goals exact laws.agree_reject h reads.shows reads'.shows rfl rfl
  · rw [word_of_stops stops, word_of_stops stops']
    exact laws.agree_reject h stops.shows stops'.shows rfl rfl
  · exact agree_of_breaks others (word_of_breaks breaks) fun _ _ => word_of_breaks
termination_by 8 * c.workload

theorem Lawful.arguments {S : Simulation} (laws : S.Lawful) {s : Spot} {c c' : Cursor}
    (h : S.At s c c') (statements : S.Statements s) : S.Agree (Expr.AllAlike S.Q) (S.At s)
      (arguments s.brackets c) (arguments (S.Depth s) c') := by
  by_cases done : c.Concludes s.brackets
  · rw [arguments_of_concludes done, arguments_of_concludes (laws.conclude h statements done)]
    exact ⟨.nil, laws.look h⟩
  rcases c.view_cases with ⟨t, rest, reads⟩ | ⟨t, here, ends⟩ | ⟨d, here, breaks⟩
  · have apart : (t.lexeme.isSeparator ||
        (s.brackets > 0 && t.lexeme == .symbol .rightBracket)) = false := by
      rw [Bool.eq_false_iff]
      intro ends
      exact done (.inl ⟨t, rest, reads, by simpa using ends⟩)
    have word : t.lexeme.isSeparator = false := (Bool.or_eq_false_iff.mp apart).1
    obtain ⟨t', rest', reads', alike, behind⟩ := laws.token h reads word
    obtain ⟨_, _, view⟩ := reads.view
    obtain ⟨_, _, view'⟩ := reads'.view
    rw [Grammar.arguments, Grammar.arguments, view, view']
    dsimp only
    rw [alike.1]
    simp only [apart, Bool.false_eq_true, if_false]
    -- In more brackets the second reader may stop at a closing one that the first one refuses.
    have apart' : t.lexeme = .symbol .rightBracket ∧ S.Lenient ∨ (t.lexeme.isSeparator ||
        (S.Depth s > 0 && t.lexeme == .symbol .rightBracket)) = false := by
      rcases laws.level with lenient | level
      · by_cases closes : t.lexeme = .symbol .rightBracket
        · exact .inl ⟨closes, lenient⟩
        · exact .inr (by simp [word, closes])
      · exact .inr (level s ▸ apart)
    rcases apart' with ⟨closes, lenient⟩ | apart'
    · have stops : c.Stops t c := .inl ⟨⟨rest, reads⟩, .inr closes, rfl⟩
      rw [word_of_stops stops, reject_eq]
      exact agree_of_lenient lenient
    simp only [apart', Bool.false_eq_true, if_false]
    exact (laws.word h .argument).andThen fun _ _ _ _ _ _ first next =>
      (laws.arguments next statements).map (fun _ _ others => .cons first others) _ _
  · exact absurd (.inr ⟨t, here, ends⟩) done
  · exact agree_of_breaks (laws.broken h breaks) (arguments_of_breaks breaks)
      fun _ _ => arguments_of_breaks
termination_by 8 * c.workload + 1

theorem Lawful.command {S : Simulation} (laws : S.Lawful) {s : Spot} {c c' : Cursor}
    (h : S.At s c c') (statements : S.Statements s) : S.Agree (Command.Alike S.Q) (S.At s)
      (command s.brackets c) (command (S.Depth s) c') := by
  rcases laws.met h with ⟨l, p, q, rest, rest', reads, reads', place, behind⟩ | ⟨stops, stops'⟩ |
    ⟨breaks, others⟩
  · obtain ⟨_, shorter, view⟩ := reads.view
    obtain ⟨_, _, view'⟩ := reads'.view
    rw [Grammar.command, Grammar.command, view, view']
    rcases l with text | name | sym
    case number => exact laws.agree_reject h reads.shows reads'.shows rfl rfl
    case name =>
      have next : S.At s rest rest' := behind trivial
      exact (laws.arguments next statements).map (fun _ _ arguments => .invoke name place arguments)
        _ _
    cases sym
    case set =>
      have next : S.At s rest rest' := behind trivial
      exact (laws.target next .set).andThen fun name _ _ _ _ _ same next =>
        (laws.word next .assigned).map (fun _ _ value => same ▸ .set name place value) _ _
    case unset =>
      have next : S.At s rest rest' := behind trivial
      exact (laws.target next .unset).map (fun name _ same => same ▸ .unset name place) _ _
    case puts =>
      have next : S.At s rest rest' := behind trivial
      exact (laws.word next .printed).map (fun _ _ value => .puts place value) _ _
    case expr =>
      have next : S.At s rest rest' := behind trivial
      exact (laws.formula next).map (fun _ _ operand => .expr place operand) _ _
    case leftBrace =>
      have next : S.At s rest rest' := behind trivial
      exact (laws.block next place).map (fun _ _ body => .block place body) _ _
    all_goals exact laws.agree_reject h reads.shows reads'.shows rfl rfl
  · rw [command_of_stops stops, command_of_stops stops']
    exact laws.agree_reject h stops.shows stops'.shows rfl rfl
  · exact agree_of_breaks others (command_of_breaks breaks) fun _ _ => command_of_breaks
termination_by 8 * c.workload

theorem Lawful.formula {S : Simulation} (laws : S.Lawful) {s : Spot} {c c' : Cursor}
    (h : S.At s c c') : S.Agree (Expr.Alike S.Q) (S.At s) (formula s.brackets c)
      (formula (S.Depth s) c') := by
  rcases laws.met h with ⟨l, p, q, rest, rest', reads, reads', place, behind⟩ | ⟨stops, stops'⟩ |
    ⟨breaks, others⟩
  · by_cases brace : l = .symbol .leftBrace
    · subst brace
      have next : S.At s rest rest' := behind trivial
      obtain ⟨_, shorter, _⟩ := reads.view
      rw [formula_of_brace reads, formula_of_brace reads']
      refine (laws.block next place).andThen_of_eq
        fun body body' after after' _ _ whole whole' same next => ?_
      have smaller : (Cursor.ofExpression body.val).workload < c.workload :=
        workload_ofExpression_lt shorter body
      have inner : S.At (.start true) ((Cursor.ofExpression body.val).withLog after.log)
          ((Cursor.ofExpression body'.val).withLog after'.log) :=
        laws.braces h reads rfl reads' whole whole' same next
      have braced := laws.chain .sum inner
      rw [laws.outermost] at braced
      exact laws.closing braced next _ _
    · rw [formula_of_other fun _ _ other => brace (congrArg Token.lexeme (other.unique reads).1),
        formula_of_other fun _ _ other => brace (congrArg Token.lexeme (other.unique reads').1)]
      exact laws.chain .sum h
  · rw [formula_of_other fun _ _ => stops.not_reads rfl (by simp),
      formula_of_other fun _ _ => stops'.not_reads rfl (by simp)]
    exact laws.chain .sum h
  · rw [formula_of_other fun _ _ brace => brace.not_breaks breaks]
    exact agree_of_breaks others (chain_of_breaks breaks) fun _ _ breaks' => by
      rw [formula_of_other fun _ _ brace => brace.not_breaks breaks']
      exact chain_of_breaks breaks'
termination_by 8 * c.workload + 5

end

/-- Statements outside of brackets leave the cursors between two statements. -/
theorem Lawful.statement {S : Simulation} (laws : S.Lawful) {s : Spot} {c c' : Cursor}
    (h : S.At s c c') (statements : S.Statements s) (outside : s.brackets = 0)
    (outside' : S.Depth s = 0) :
    S.Agree (Command.Alike S.Q)
      (fun rest rest' => ∃ b b' e e', S.Between s b b' ∧ rest = b.note e ∧ rest' = b'.note e')
      (statement c) (statement c') := by
  have first := laws.command h statements
  rw [outside, outside'] at first
  rw [Grammar.statement, Grammar.statement]
  refine first.andThen fun a b _ _ _ _ same next => ?_
  have second := laws.endOfStatement next statements same.name_eq
  rw [outside, outside'] at second
  exact second.andThen fun _ _ behind behind' _ _ _ last =>
    ⟨same, behind, behind', _, _, last, rfl, rfl⟩

end TinyTcl.Simulation
