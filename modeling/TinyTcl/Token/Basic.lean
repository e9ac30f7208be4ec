import TinyTcl.Text.Lines

/-! Tokens. A token is a lexeme with a place. Numbers and names carry their own text; every other
kind of token is a symbol, whose text never varies. The symbols of arithmetic stand for signs and
operators. -/
namespace TinyTcl

/-- The tokens whose text is fixed: operators, delimiters, command keywords and the ends of
statements (`TokenType`, without `NUMBER` and `NAME`). -/
inductive Symbol where
  | plus | minus | times | divide
  | leftParen | rightParen | leftBracket | rightBracket
  | leftQuote | rightQuote | leftBrace | rightBrace | dollar
  | puts | expr | unset | set
  | semicolon | endOfLine | endOfFile
deriving DecidableEq, Repr

namespace Symbol

/-- The text of a symbol (`FIXED_TEXT`). -/
def text : Symbol → Text
  | plus => ['+']
  | minus => ['-']
  | times => ['*']
  | divide => ['/']
  | leftParen => ['(']
  | rightParen => [')']
  | leftBracket => ['[']
  | rightBracket => [']']
  | leftQuote | rightQuote => ['"']
  | leftBrace => ['{']
  | rightBrace => ['}']
  | dollar => ['$']
  | puts => "puts".toList
  | expr => "expr".toList
  | unset => "unset".toList
  | set => "set".toList
  | semicolon => [';']
  | endOfLine => ['\n']
  | endOfFile => []

/-- The name of a symbol in listings of tokens. -/
def tag : Symbol → String
  | plus => "PLUS"
  | minus => "MINUS"
  | times => "MUL"
  | divide => "DIV"
  | leftParen => "LEFT_PAREN"
  | rightParen => "RIGHT_PAREN"
  | leftBracket => "LEFT_BRACKET"
  | rightBracket => "RIGHT_BRACKET"
  | leftQuote => "LEFT_QUOTE"
  | rightQuote => "RIGHT_QUOTE"
  | leftBrace => "LEFT_BRACE"
  | rightBrace => "RIGHT_BRACE"
  | dollar => "DOLLAR"
  | puts => "PUTS"
  | expr => "EXPR"
  | unset => "UNSET"
  | set => "SET"
  | semicolon => "SEMICOLON"
  | endOfLine => "END_OF_LINE"
  | endOfFile => "END_OF_FILE"

/-- How messages speak of a symbol (`DESCRIPTIONS`). -/
def description : Symbol → String
  | plus => "plus"
  | minus => "minus"
  | times => "product"
  | divide => "division"
  | leftParen => "left parenthesis"
  | rightParen => "right parenthesis"
  | leftBracket => "left bracket"
  | rightBracket => "right bracket"
  | leftQuote => "left quote"
  | rightQuote => "right quote"
  | leftBrace => "left curly bracket"
  | rightBrace => "right curly bracket"
  | dollar => "dollar"
  | puts => "output"
  | expr => "expression"
  | unset => "delete"
  | set => "assign"
  | semicolon => "semicolon"
  | endOfLine => "end of line"
  | endOfFile => "eof"

/-- All symbols, in the order in which kinds of tokens are numbered. -/
def all : List Symbol :=
  [plus, minus, times, divide, leftParen, rightParen, leftBracket, rightBracket, leftQuote,
   rightQuote, leftBrace, rightBrace, dollar, puts, expr, unset, set, semicolon, endOfLine,
   endOfFile]

/-- Whether a symbol names a built-in command (`Token.is_keyword`). -/
def isKeyword : Symbol → Bool
  | puts | expr | unset | set => true
  | _ => false

/-- Whether a symbol ends a statement and lets another one follow (`Token.is_separator`). -/
def isSeparator : Symbol → Bool
  | semicolon | endOfLine => true
  | _ => false

end Symbol

/-! ### Signs and operators -/

/-- A sign in front of an operand. -/
inductive Sign where
  | positive | negative
deriving DecidableEq, Repr

/-- An operator between two operands. -/
inductive Operator where
  | add | subtract | multiply | divide
deriving DecidableEq, Repr

/-- The symbol that a sign is written as. -/
def Sign.symbol : Sign → Symbol
  | positive => .plus
  | negative => .minus

/-- The symbol that an operator is written as. -/
def Operator.symbol : Operator → Symbol
  | add => .plus
  | subtract => .minus
  | multiply => .times
  | divide => .divide

/-- The operator with a given spelling. -/
def Operator.ofText? (t : Text) : Option Operator :=
  [add, subtract, multiply, divide].find? fun operator => operator.symbol.text == t

/-! ### Lexemes -/

/-- The command keyword with a given spelling (`KEYWORDS`). -/
def keyword? (t : Text) : Option Symbol :=
  Symbol.all.find? fun s => s.isKeyword && s.text == t

/-- A token without its place. -/
inductive Lexeme where
  /-- A number literal, as it is written. -/
  | number (text : Text)
  /-- A word, a literal part of a quoted string or the body of a block. -/
  | name (text : Text)
  | symbol (s : Symbol)
deriving DecidableEq, Repr

namespace Lexeme

/-- The text that the lexeme stands for. -/
def text : Lexeme → Text
  | number t | name t => t
  | symbol s => s.text

/-- The name of the kind in listings of tokens. -/
def tag : Lexeme → String
  | number _ => "NUMBER"
  | name _ => "NAME"
  | symbol s => s.tag

/-- How messages speak of the kind (`TokenType.description`). -/
def description : Lexeme → String
  | number _ => "number"
  | name _ => "id"
  | symbol s => s.description

/-- The number of the kind: numbers, names, then the symbols in their order. -/
def ordinal : Lexeme → Nat
  | number _ => 1
  | name _ => 2
  | symbol s => 3 + Symbol.all.idxOf s

/-- Whether the text of this kind varies (`TokenType.has_text`). -/
def hasOwnText : Lexeme → Bool
  | number _ | name _ => true
  | symbol _ => false

def isKeyword : Lexeme → Bool
  | symbol s => s.isKeyword
  | _ => false

def isSeparator : Lexeme → Bool
  | symbol s => s.isSeparator
  | _ => false

/-- The same kind with another text, where the text varies. -/
def withText : Lexeme → Text → Lexeme
  | number _, t => number t
  | name _, t => name t
  | symbol s, _ => symbol s

/-- The text of a word is a keyword if it spells one, else a name (`Lexer.word`). -/
def ofWord (t : Text) : Lexeme :=
  match keyword? t with
  | some s => symbol s
  | none => name t

theorem text_keyword? {t : Text} {s : Symbol} (h : keyword? t = some s) : s.text = t := by
  have found := List.find?_some h
  simp only [Bool.and_eq_true, beq_iff_eq] at found
  exact found.2

/-- A word never reads as a delimiter or an operator. -/
theorem ofWord_ne_symbol {s : Symbol} (h : s.isKeyword = false) (t : Text) :
    ofWord t ≠ symbol s := by
  unfold ofWord keyword?
  split
  · next found =>
    have keyword := List.find?_some found
    simp only [Bool.and_eq_true] at keyword
    rintro ⟨⟩
    simp [h] at keyword
  · simp

@[simp] theorem text_ofWord (t : Text) : (ofWord t).text = t := by
  unfold ofWord
  split
  · next s h => exact text_keyword? h
  · rfl

end Lexeme

/-- A lexeme and the place of its first character. -/
structure Token where
  lexeme : Lexeme
  position : Position
deriving DecidableEq, Repr

namespace Token

/-- A token of a fixed kind (`Token.fixed`). -/
def ofSymbol (s : Symbol) (position : Position) : Token := ⟨.symbol s, position⟩

/-- The text that the token stands for. -/
def text (t : Token) : Text := t.lexeme.text

/-- The same token with another text, where its kind has a text of its own (`Token.with_text`). -/
def withText (t : Token) (text : Text) : Token := { t with lexeme := t.lexeme.withText text }

/-- How listings show a token: its kind, its text where that varies, and its line
(`Token.__repr__`). -/
def listing (t : Token) : Text :=
  let line := "line=".toList ++ Text.ofInt t.position.line
  let fields :=
    if t.lexeme.hasOwnText then [t.lexeme.tag.toList, t.text.quoted, line]
    else [t.lexeme.tag.toList, line]
  "Token(".toList ++ List.intercalate ", ".toList fields ++ [')']

end Token
end TinyTcl
