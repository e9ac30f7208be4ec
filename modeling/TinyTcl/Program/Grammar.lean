import TinyTcl.Program.Cursor

/-! The grammar of commands. Each reader takes a cursor and the number `depth` of brackets open
around it, and gives a `Reply`. A closing bracket ends a statement only where `depth` is positive.
The body of a braced expression and of a block is a text of its own, read from its own cursor at
depth zero.

All readers are total: a reader goes on only behind a token, or into the body of a block, and both
lower the work that is left. -/
namespace TinyTcl

/-- Whether a symbol reads as a plain word where a word is due (`WORD_TOKENS`). -/
def Symbol.isWord : Symbol → Bool
  | .puts | .expr | .unset | .set | .times | .divide | .leftParen | .rightParen => true
  | _ => false

/-- The name that a token is behind a dollar sign. -/
def Lexeme.name? : Lexeme → Option Text
  | .name text => some text
  | _ => none

/-- The name that a token is to the commands that bind and unbind variables. It may be that of a
built-in command. -/
def Lexeme.target? : Lexeme → Option Text
  | .name text => some text
  | .symbol s => if s.isKeyword then some s.text else none
  | .number _ => none

/-- The layers of an arithmetic expression: the parts of a sum are products, those of a product
operands. -/
inductive Layer where
  | product | sum
deriving DecidableEq, Repr

/-- The operator of a layer that a token stands for. -/
def Layer.operator? : Layer → Lexeme → Option Operator
  | .sum, .symbol .plus => some .add
  | .sum, .symbol .minus => some .subtract
  | .product, .symbol .times => some .multiply
  | .product, .symbol .divide => some .divide
  | _, _ => none

/-- How many layers lie below a layer. -/
@[simp] def Layer.height : Layer → Fin 2
  | .product => 0
  | .sum => 1

namespace Grammar

/-- Behind a token less work is left. -/
theorem workload_lt_of_shorter {c rest : Cursor} {t : Token}
    (shorter : rest.workload + blockRoom t.lexeme rest.tokens < c.workload) :
    rest.workload < c.workload :=
  Nat.lt_of_le_of_lt (Nat.le_add_right _ _) shorter

/-- A token that must stand at the cursor: what is taken from it, if anything can be, else the token
is refused (`Parser.consume`). -/
def consume {α : Type} (depth : Nat) (missing : GrammarFault) (taken : Lexeme → Option α)
    (c : Cursor) : Reply α c.workload :=
  match c.view with
  | .token t rest _ shorter =>
    match taken t.lexeme with
    | some value => .ok value rest (workload_lt_of_shorter shorter)
    | none => reject depth missing t c
  | .finish t here _ => reject depth missing t here
  | .broken d here => .fail d here

/-- A symbol that must stand at the cursor. -/
def symbol (depth : Nat) (s : Symbol) (missing : GrammarFault) (c : Cursor) :
    Reply Unit c.workload :=
  consume depth missing (fun l => if l = .symbol s then some () else none) c

/-- The name of a variable behind a dollar sign (`Parser.variable`). -/
def reference (depth : Nat) (dollar : Position) (c : Cursor) : Reply Expr c.workload :=
  consume depth .noVariable (fun l => l.name?.map (.reference · dollar)) c

/-- The name of a variable to set or unset (`Parser.variable_name`). -/
def target (depth : Nat) (command : Symbol) (c : Cursor) : Reply Text c.workload :=
  consume depth (.noTarget command) Lexeme.target? c

/-- The body of a block behind its opening brace, with its closing brace (`Parser.block`). -/
def block (depth : Nat) (brace : Position) (c : Cursor) :
    Reply { b : Block // 2 * b.text.length ≤ bodyRoom c.tokens } c.workload :=
  match c.view with
  | .token ⟨lexeme, position⟩ rest read _ =>
    match lexeme with
    | .symbol .rightBrace =>
      .ok ⟨⟨[], ⟨brace.line, brace.column + 1⟩⟩, Nat.zero_le _⟩ rest (by omega)
    | .name body =>
      (symbol depth .rightBrace .openBlock rest).map
        (fun _ => ⟨⟨body, position⟩, by simp [read, bodyRoom]⟩) (by omega)
    | lexeme => reject depth .noBody ⟨lexeme, position⟩ c
  | .finish t here _ => reject depth .noBody t here
  | .broken d here => .fail d here

/-- The end of a statement, with the separator that may stand there (`Parser.end_statement`). A
closing bracket is left for the substitution that it ends. -/
def endOfStatement (depth : Nat) (command : Command) (c : Cursor) : Reply Unit (c.workload + 1) :=
  match c.view with
  | .token t rest _ _ =>
    if t.lexeme.isSeparator then .ok () rest (by omega)
    else if depth > 0 && t.lexeme == .symbol .rightBracket then .ok () c (by omega)
    else reject depth (.afterCommand t.lexeme command.name) t c
  | .finish _ here _ => .ok () here (by omega)
  | .broken d here => .fail d here

/-- The text of a block is less work than the block. -/
theorem workload_ofText_lt {c rest : Cursor}
    (shorter : rest.workload + blockRoom (.symbol .leftBrace) rest.tokens < c.workload)
    (body : { b : Block // 2 * b.text.length ≤ bodyRoom rest.tokens }) :
    (Cursor.ofText body.val.text body.val.position).workload < c.workload := by
  have inner := Cursor.workload_ofText_le body.val.text body.val.position
  have room := body.property
  simp only [blockRoom, if_true] at shorter
  omega

/-- A braced expression is less work than the block it is written as. -/
theorem workload_ofExpression_lt {c rest : Cursor}
    (shorter : rest.workload + blockRoom (.symbol .leftBrace) rest.tokens < c.workload)
    (body : { b : Block // 2 * b.text.length ≤ bodyRoom rest.tokens }) :
    (Cursor.ofExpression body.val).workload < c.workload := by
  have inner := Cursor.workload_ofExpression_le body.val
  have room := body.property
  simp only [blockRoom, if_true] at shorter
  omega

mutual

/-- Parts of a layer with operators of the layer between them (`Parser.expression` for sums,
`Parser.term` for products). -/
def chain (layer : Layer) (depth : Nat) (c : Cursor) : Reply Expr c.workload :=
  (part layer depth c).andThen fun left rest _ => (further layer depth left rest).widen (by omega)
termination_by 8 * c.workload + 2 * layer.height + 2

/-- A part of a layer, which is a chain of the layer below. -/
def part (layer : Layer) (depth : Nat) (c : Cursor) : Reply Expr c.workload :=
  match layer with
  | .product => operand depth c
  | .sum => chain .product depth c
termination_by 8 * c.workload + 2 * layer.height + 1

/-- Further parts of a layer, behind what has been read of it so far (the loops of
`Parser.expression` and `Parser.term`). -/
def further (layer : Layer) (depth : Nat) (left : Expr) (c : Cursor) :
    Reply Expr (c.workload + 1) :=
  match c.view with
  | .token t rest _ _ =>
    match layer.operator? t.lexeme with
    | some operator =>
      (part layer depth rest).andThen fun right rest _ =>
        (further layer depth (.binary left operator t.position right) rest).widen (by omega)
    | none => .ok left c (by omega)
  | .finish _ here _ => .ok left here (by omega)
  | .broken d here => .fail d here
termination_by 8 * c.workload

/-- An operand of an arithmetic expression (`Parser.primary`). -/
def operand (depth : Nat) (c : Cursor) : Reply Expr c.workload :=
  match c.view with
  | .token t rest _ _ =>
    match t.lexeme with
    | .number text => .ok (.number text t) rest (by omega)
    | .name text => .ok (.word text t) rest (by omega)
    | .symbol .dollar => (reference depth t.position rest).widen (by omega)
    | .symbol .leftParen =>
      (chain .sum depth rest).andThen fun inner rest _ =>
        (symbol depth .rightParen .openGroup rest).map (fun _ => .group inner) (by omega)
    | .symbol .plus => (operand depth rest).map (.signed .positive t.position) (by omega)
    | .symbol .minus => (operand depth rest).map (.signed .negative t.position) (by omega)
    | .symbol .leftBracket =>
      (substitution (depth + 1) rest).map (.substitution · t.position) (by omega)
    | .symbol .leftQuote => (parts depth rest).map (.quoted · t.position) (by omega)
    | lexeme => reject depth (.noOperand lexeme) t c
  | .finish t here _ => reject depth (.noOperand t.lexeme) t here
  | .broken d here => .fail d here
termination_by 8 * c.workload

/-- The parts of a quoted string, up to its closing quote (`Parser.string`). -/
def parts (depth : Nat) (c : Cursor) : Reply (List Expr) c.workload :=
  match c.view with
  | .token t rest _ _ =>
    match t.lexeme with
    | .symbol .rightQuote => .ok [] rest (by omega)
    | .name text => (parts depth rest).map (.word text t :: ·) (by omega)
    | .symbol .dollar =>
      (reference depth t.position rest).andThen fun part rest _ =>
        (parts depth rest).map (part :: ·) (by omega)
    | .symbol .leftBracket =>
      (substitution (depth + 1) rest).andThen fun commands rest _ =>
        (parts depth rest).map (.substitution commands t.position :: ·) (by omega)
    | _ => reject depth .openString t c
  | .finish t here _ => reject depth .openString t here
  | .broken d here => .fail d here
termination_by 8 * c.workload

/-- The commands of a substitution, up to its closing bracket; `depth` counts that bracket
(`Parser.substitution`). -/
def substitution (depth : Nat) (c : Cursor) : Reply (List Command) c.workload :=
  match c.view with
  | .token t rest _ _ =>
    if t.lexeme == .symbol .rightBracket then .ok [] rest (by omega)
    else if t.lexeme.isSeparator then (substitution depth rest).widen (by omega)
    else
      (command depth c).andThen fun first rest _ =>
        (endOfStatement depth first rest).andThen fun _ rest _ =>
          (substitution depth rest).map (first :: ·) (by omega)
  | .finish t here _ => reject depth .openSubstitution t here
  | .broken d here => .fail d here
termination_by 8 * c.workload + 1

/-- A word of a command (`Parser.word`). A sign in front of a number belongs to it; any other sign,
and most other symbols, are words. -/
def word (depth : Nat) (role : Operand) (c : Cursor) : Reply Expr c.workload :=
  match c.view with
  | .token t rest _ _ =>
    match t.lexeme with
    | .number text => .ok (.number text t) rest (by omega)
    | .name text => .ok (.word text t) rest (by omega)
    | .symbol .dollar => (reference depth t.position rest).widen (by omega)
    | .symbol .leftQuote => (parts depth rest).map (.quoted · t.position) (by omega)
    | .symbol .leftBrace =>
      (block depth t.position rest).map (fun body => .word body.val.text t) (by omega)
    | .symbol .leftBracket =>
      (substitution (depth + 1) rest).map (.substitution · t.position) (by omega)
    | .symbol s =>
      if s == .minus || s == .plus then
        match rest.view with
        | .token next behind _ _ =>
          match next.lexeme with
          | .number digits => .ok (.number (s.text ++ digits) t) behind (by omega)
          | _ => .ok (.word s.text t) rest (by omega)
        | .finish _ here _ => .ok (.word s.text t) here (by omega)
        | .broken d here => .fail d here
      else if s.isWord then .ok (.word s.text t) rest (by omega)
      else reject depth (.noWord role t.lexeme) t c
  | .finish t here _ => reject depth (.noWord role t.lexeme) t here
  | .broken d here => .fail d here
termination_by 8 * c.workload

/-- The words of a command up to the end of the statement (the loop of `Parser.command`). -/
def arguments (depth : Nat) (c : Cursor) : Reply (List Expr) (c.workload + 1) :=
  match c.view with
  | .token t _ _ _ =>
    if t.lexeme.isSeparator || (depth > 0 && t.lexeme == .symbol .rightBracket) then
      .ok [] c (by omega)
    else
      (word depth .argument c).andThen fun first rest _ =>
        (arguments depth rest).map (first :: ·) (by omega)
  | .finish _ here _ => .ok [] here (by omega)
  | .broken d here => .fail d here
termination_by 8 * c.workload + 1

/-- The operand of `expr`: an expression, or one in braces that may span lines
(`Parser.expr_argument`). -/
def formula (depth : Nat) (c : Cursor) : Reply Expr c.workload :=
  match c.view with
  | .token t rest _ _ =>
    if t.lexeme = .symbol .leftBrace then
      (block depth t.position rest).andThen fun body rest' _ =>
        match chain .sum 0 ((Cursor.ofExpression body.val).withLog rest'.log) with
        | .ok inner behind _ =>
          match behind.view with
          | .finish _ here _ => .ok inner (rest'.withLog here.log) (by simp; omega)
          | .token t _ _ _ =>
            .fail (.ofCause (.grammar (.afterExpression t.lexeme)) t.position)
              (rest'.withLog behind.log)
          | .broken d here => .fail d (rest'.withLog here.log)
        | .fail d here => .fail d (rest'.withLog here.log)
    else chain .sum depth c
  | _ => chain .sum depth c
termination_by 8 * c.workload + 5
decreasing_by
  · next body _ _ =>
    have inner := Cursor.workload_ofExpression_le body.val
    have _room := body.property
    simp_all only [blockRoom, if_true, Cursor.workload_withLog]
    omega
  all_goals omega

/-- A command, up to its last word (`Parser.command`). -/
def command (depth : Nat) (c : Cursor) : Reply Command c.workload :=
  match c.view with
  | .token ⟨lexeme, position⟩ rest _ shorter =>
    match lexeme with
    | .symbol .set =>
      (target depth .set rest).andThen fun name rest _ =>
        (word depth .assigned rest).map (.set position name) (by omega)
    | .symbol .unset => (target depth .unset rest).map (.unset position) (by omega)
    | .symbol .puts => (word depth .printed rest).map (.puts position) (by omega)
    | .symbol .expr => (formula depth rest).map (.expr position) (by omega)
    | .symbol .leftBrace =>
      (block depth position rest).map
        (fun body => .block position body.val
          (program (Cursor.ofText body.val.text body.val.position))) (by omega)
    | .name name => (arguments depth rest).map (.invoke position name) (by omega)
    | lexeme => reject depth (.noCommand lexeme) ⟨lexeme, position⟩ c
  | .finish t here _ => reject depth (.noCommand t.lexeme) t here
  | .broken d here => .fail d here
termination_by 8 * c.workload
decreasing_by
  all_goals first
    | omega
    | (have inner := workload_ofText_lt ‹_› ‹_›
       omega)

/-- A statement outside of brackets: a command with its end (`Parser.next_command`, once separators
are skipped). -/
def statement (c : Cursor) : Reply Command c.workload :=
  (command 0 c).andThen fun first rest _ =>
    (endOfStatement 0 first rest).andThen fun _ rest _ =>
      .ok first (rest.note (.parsed first.name first.position.line)) (by simp; omega)
termination_by 8 * c.workload + 1

/-- All that is left to read, statement by statement (the iteration of `Parser`). -/
def program (c : Cursor) : Program :=
  match c.skipSeparators.view with
  | .token _ _ _ _ =>
    match statement c.skipSeparators with
    | .ok first rest _ => .step rest.log first (program (rest.withLog []))
    | .fail d here => .fault here.log d
  | .finish _ here _ => .finish here.log
  | .broken d here => .fault here.log d
termination_by 8 * c.workload + 2
decreasing_by
  all_goals
    have skipped := Cursor.workload_skipSeparators_le c
    try rw [Cursor.workload_withLog]
    omega

end

/-- An arithmetic expression: a sum of products. -/
abbrev expression (depth : Nat) (c : Cursor) : Reply Expr c.workload := chain .sum depth c

end Grammar
end TinyTcl
