import TinyTcl.Program.Grammar
import TinyTcl.Proofs.Token.Cut

/-! How commands are written. The relations here say which tokens an operand, a command and a row of
commands are written with, independently of the readers. Whatever is written opens and closes its
own delimiters, so it leaves those around it as they were (`Expr.Written.enclosing`). -/
namespace TinyTcl

mutual

/-- The tokens that an operand is written with. -/
inductive Expr.Written : Expr → List Token → Prop where
  | number (text : Text) (p : Position) :
      Expr.Written (.number text ⟨.number text, p⟩) [⟨.number text, p⟩]
  /-- A sign belongs to the number behind it where a word is due. -/
  | signedNumber (sign : Sign) (digits : Text) (p q : Position) :
      Expr.Written (.number (sign.symbol.text ++ digits) (.ofSymbol sign.symbol p))
        [.ofSymbol sign.symbol p, ⟨.number digits, q⟩]
  | word (text : Text) (p : Position) :
      Expr.Written (.word text ⟨.name text, p⟩) [⟨.name text, p⟩]
  | symbol {s : Symbol} (plain : s.isWord = true ∨ s = .plus ∨ s = .minus) (p : Position) :
      Expr.Written (.word s.text (.ofSymbol s p)) [.ofSymbol s p]
  | braced (body : Text) (p q r : Position) :
      Expr.Written (.word body (.ofSymbol .leftBrace p))
        [.ofSymbol .leftBrace p, ⟨.name body, q⟩, .ofSymbol .rightBrace r]
  | reference (name : Text) (p q : Position) :
      Expr.Written (.reference name p) [.ofSymbol .dollar p, ⟨.name name, q⟩]
  | quoted {parts : List Expr} {ts : List Token} (p q : Position) : Expr.AllWritten parts ts →
      Expr.Written (.quoted parts p) (.ofSymbol .leftQuote p :: (ts ++ [.ofSymbol .rightQuote q]))
  | substitution {commands : List Command} {ts : List Token} (p q : Position) :
      Command.Sequence commands ts → Expr.Written (.substitution commands p)
        (.ofSymbol .leftBracket p :: (ts ++ [.ofSymbol .rightBracket q]))
  | signed (sign : Sign) {operand : Expr} {ts : List Token} (p : Position) :
      Expr.Written operand ts →
      Expr.Written (.signed sign p operand) (.ofSymbol sign.symbol p :: ts)
  | binary {left right : Expr} {ts us : List Token} (operator : Operator) (p : Position) :
      Expr.Written left ts → Expr.Written right us →
      Expr.Written (.binary left operator p right) (ts ++ .ofSymbol operator.symbol p :: us)
  | group {inner : Expr} {ts : List Token} (p q : Position) : Expr.Written inner ts →
      Expr.Written (.group inner) (.ofSymbol .leftParen p :: (ts ++ [.ofSymbol .rightParen q]))

/-- The tokens that several operands are written with, one behind the other. -/
inductive Expr.AllWritten : List Expr → List Token → Prop where
  | nil : Expr.AllWritten [] []
  | cons {first : Expr} {rest : List Expr} {ts us : List Token} : Expr.Written first ts →
      Expr.AllWritten rest us → Expr.AllWritten (first :: rest) (ts ++ us)

/-- The tokens that a command is written with, without what ends its statement. -/
inductive Command.Written : Command → List Token → Prop where
  | set (p q : Position) (target : Text) {value : Expr} {ts : List Token} :
      Expr.Written value ts →
      Command.Written (.set p target value) (.ofSymbol .set p :: ⟨.ofWord target, q⟩ :: ts)
  | unset (p q : Position) (target : Text) :
      Command.Written (.unset p target) [.ofSymbol .unset p, ⟨.ofWord target, q⟩]
  | puts (p : Position) {value : Expr} {ts : List Token} : Expr.Written value ts →
      Command.Written (.puts p value) (.ofSymbol .puts p :: ts)
  | expr (p : Position) {operand : Expr} {ts : List Token} : Expr.Written operand ts →
      (∀ t ∈ ts.head?, t.lexeme ≠ .symbol .leftBrace) →
      Command.Written (.expr p operand) (.ofSymbol .expr p :: ts)
  /-- Between the braces of an expression stands a text of its own, whose ends of lines do not
  count. -/
  | bracedExpr (p o q r : Position) {body : Text} {operand : Expr} {ts : List Token} {last : Token} :
      (TokenStream.ofText body q).fault = none → last.lexeme = .symbol .endOfFile →
      (TokenStream.ofText body q).joinLines.tokens = ts ++ [last] → Expr.Written operand ts →
      Command.Written (.expr p operand)
        [.ofSymbol .expr p, .ofSymbol .leftBrace o, ⟨.name body, q⟩, .ofSymbol .rightBrace r]
  | block (p q r : Position) (body : Text) :
      Command.Written (.block p ⟨body, q⟩ (Grammar.program (.ofText body q)))
        [.ofSymbol .leftBrace p, ⟨.name body, q⟩, .ofSymbol .rightBrace r]
  | invoke (p : Position) (name : Text) {arguments : List Expr} {ts : List Token} :
      Expr.AllWritten arguments ts →
      Command.Written (.invoke p name arguments) (⟨.name name, p⟩ :: ts)

/-- The tokens that a row of commands is written with: separators part the commands, and may stand
around them. -/
inductive Command.Sequence : List Command → List Token → Prop where
  | nil : Command.Sequence [] []
  | separator {commands : List Command} {t : Token} {ts : List Token} :
      t.lexeme.isSeparator = true → Command.Sequence commands ts →
      Command.Sequence commands (t :: ts)
  | last {command : Command} {ts : List Token} : Command.Written command ts →
      Command.Sequence [command] ts
  | cons {first : Command} {rest : List Command} {t : Token} {ts us : List Token} :
      Command.Written first ts → t.lexeme.isSeparator = true → Command.Sequence rest us →
      Command.Sequence (first :: rest) (ts ++ t :: us)

end

theorem enclose_of_isSeparator {l : Lexeme} (separates : l.isSeparator = true)
    (around : List Delimiter) : l.enclose around = around := by
  cases l with
  | number | name => rfl
  | symbol s => cases s <;> first | rfl | cases separates

private theorem enclose_sign (sign : Sign) (around : List Delimiter) :
    (Lexeme.symbol sign.symbol).enclose around = around := by
  cases sign <;> rfl

theorem enclose_operatorSymbol (operator : Operator) (around : List Delimiter) :
    (Lexeme.symbol operator.symbol).enclose around = around := by
  cases operator <;> rfl

private theorem enclose_of_isWord {s : Symbol} (plain : s.isWord = true ∨ s = .plus ∨ s = .minus)
    (around : List Delimiter) : (Lexeme.symbol s).enclose around = around := by
  rcases plain with word | rfl | rfl
  · cases s <;> first | rfl | cases word
  · rfl
  · rfl

@[simp] theorem lexeme_ofSymbol (s : Symbol) (p : Position) :
    (Token.ofSymbol s p).lexeme = .symbol s := rfl

mutual

/-- Behind an operand the same delimiters are open as in front of it. -/
theorem Expr.Written.enclosing {e : Expr} {ts : List Token} : Expr.Written e ts →
    ∀ around, enclosing around (lexemes ts) = around
  | .number _ _, _ | .word _ _, _ | .braced _ _ _ _, _ | .reference _ _ _, _ => rfl
  | .signedNumber sign _ _ _, around => enclose_sign sign around
  | .symbol plain _, around => enclose_of_isWord plain around
  | .quoted _ _ parts, around => by
    have inside := Expr.AllWritten.enclosing parts (.quote :: around)
    simp [Lexeme.enclose, inside]
  | .substitution _ _ commands, around => by
    have inside := Command.Sequence.enclosing commands (.bracket :: around)
    simp [Lexeme.enclose, inside]
  | .signed sign _ operand, around => by
    have inside := Expr.Written.enclosing operand around
    simp [enclose_sign, inside]
  | .binary operator _ left right, around => by
    have before := Expr.Written.enclosing left around
    have behind := Expr.Written.enclosing right around
    simp [before, enclose_operatorSymbol, behind]
  | .group _ _ inner, around => by
    have inside := Expr.Written.enclosing inner around
    simp [Lexeme.enclose, inside]

theorem Expr.AllWritten.enclosing {es : List Expr} {ts : List Token} : Expr.AllWritten es ts →
    ∀ around, enclosing around (lexemes ts) = around
  | .nil, _ => rfl
  | .cons first rest, around => by
    have before := Expr.Written.enclosing first around
    have behind := Expr.AllWritten.enclosing rest around
    simp [before, behind]

theorem Command.Written.enclosing {c : Command} {ts : List Token} : Command.Written c ts →
    ∀ around, enclosing around (lexemes ts) = around
  | .set _ _ target value, around => by
    have behind := Expr.Written.enclosing value around
    change TinyTcl.enclosing ((Lexeme.ofWord target).enclose around) (lexemes _) = around
    rw [Lexeme.enclose_ofWord, behind]
  | .unset _ _ target, around => Lexeme.enclose_ofWord around target
  | .puts _ value, around => Expr.Written.enclosing value around
  | .expr _ operand _, around => Expr.Written.enclosing operand around
  | .bracedExpr _ _ _ _ _ _ _ _, _ | .block _ _ _ _, _ => rfl
  | .invoke _ _ arguments, around => Expr.AllWritten.enclosing arguments around

theorem Command.Sequence.enclosing {cs : List Command} {ts : List Token} : Command.Sequence cs ts →
    ∀ around, enclosing around (lexemes ts) = around
  | .nil, _ => rfl
  | .separator separates rest, around => by
    have behind := Command.Sequence.enclosing rest around
    simp [enclose_of_isSeparator separates, behind]
  | .last command, around => Command.Written.enclosing command around
  | .cons first separates rest, around => by
    have before := Command.Written.enclosing first around
    have behind := Command.Sequence.enclosing rest around
    simp [before, enclose_of_isSeparator separates, behind]

end

end TinyTcl
