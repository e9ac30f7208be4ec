import TinyTcl.Program.Grammar

/-! Trees that differ in their places alone. `Q` says which places may stand for one another: any
two (`SameShape`), or only equal ones, and then the trees are equal (`Expr.Alike.eq`). The program
of a block is what its text delivers at its place, so two blocks are compared by their texts. -/
namespace TinyTcl

/-- The same lexeme at places that may stand for one another. -/
def Token.Alike (Q : Position → Position → Prop) (t u : Token) : Prop :=
  u.lexeme = t.lexeme ∧ Q t.position u.position

/-- The same text at places that may stand for one another. -/
def Block.Alike (Q : Position → Position → Prop) (b c : Block) : Prop :=
  c.text = b.text ∧ Q b.position c.position

/-- What the text of a block delivers. -/
def Block.program (b : Block) : Program := Grammar.program (Cursor.ofText b.text b.position)

mutual

/-- The same operand, but for its places. -/
inductive Expr.Alike (Q : Position → Position → Prop) : Expr → Expr → Prop where
  | number (text : Text) {t u : Token} : t.Alike Q u → Expr.Alike Q (.number text t) (.number text u)
  | word (text : Text) {t u : Token} : t.Alike Q u → Expr.Alike Q (.word text t) (.word text u)
  | reference (name : Text) {p q : Position} : Q p q →
      Expr.Alike Q (.reference name p) (.reference name q)
  | quoted {es fs : List Expr} {p q : Position} : Expr.AllAlike Q es fs → Q p q →
      Expr.Alike Q (.quoted es p) (.quoted fs q)
  | substitution {cs ds : List Command} {p q : Position} : Command.AllAlike Q cs ds → Q p q →
      Expr.Alike Q (.substitution cs p) (.substitution ds q)
  | signed (sign : Sign) {e f : Expr} {p q : Position} : Q p q → Expr.Alike Q e f →
      Expr.Alike Q (.signed sign p e) (.signed sign q f)
  | binary (operator : Operator) {a b e f : Expr} {p q : Position} : Expr.Alike Q a b → Q p q →
      Expr.Alike Q e f → Expr.Alike Q (.binary a operator p e) (.binary b operator q f)
  | group {e f : Expr} : Expr.Alike Q e f → Expr.Alike Q (.group e) (.group f)

/-- The same operands, but for their places. -/
inductive Expr.AllAlike (Q : Position → Position → Prop) : List Expr → List Expr → Prop where
  | nil : Expr.AllAlike Q [] []
  | cons {e f : Expr} {es fs : List Expr} : Expr.Alike Q e f → Expr.AllAlike Q es fs →
      Expr.AllAlike Q (e :: es) (f :: fs)

/-- The same command, but for its places. -/
inductive Command.Alike (Q : Position → Position → Prop) : Command → Command → Prop where
  | set (target : Text) {e f : Expr} {p q : Position} : Q p q → Expr.Alike Q e f →
      Command.Alike Q (.set p target e) (.set q target f)
  | unset (target : Text) {p q : Position} : Q p q →
      Command.Alike Q (.unset p target) (.unset q target)
  | puts {e f : Expr} {p q : Position} : Q p q → Expr.Alike Q e f →
      Command.Alike Q (.puts p e) (.puts q f)
  | expr {e f : Expr} {p q : Position} : Q p q → Expr.Alike Q e f →
      Command.Alike Q (.expr p e) (.expr q f)
  | block {b c : Block} {p q : Position} : Q p q → b.Alike Q c →
      Command.Alike Q (.block p b b.program) (.block q c c.program)
  | invoke (name : Text) {es fs : List Expr} {p q : Position} : Q p q → Expr.AllAlike Q es fs →
      Command.Alike Q (.invoke p name es) (.invoke q name fs)

/-- The same commands, but for their places. -/
inductive Command.AllAlike (Q : Position → Position → Prop) : List Command → List Command → Prop where
  | nil : Command.AllAlike Q [] []
  | cons {c d : Command} {cs ds : List Command} : Command.Alike Q c d → Command.AllAlike Q cs ds →
      Command.AllAlike Q (c :: cs) (d :: ds)

end

/-- The same operand wherever it stands. -/
def Expr.SameShape (e f : Expr) : Prop := e.Alike (fun _ _ => True) f

/-- Alike commands have one name. -/
theorem Command.Alike.name_eq {Q : Position → Position → Prop} {c d : Command} (h : c.Alike Q d) :
    d.name = c.name := by
  cases h <;> rfl

theorem Token.Alike.eq {t u : Token} : t.Alike Eq u → t = u := by
  rintro ⟨lexeme, place⟩
  cases t
  cases u
  simp_all

theorem Block.Alike.eq {b c : Block} : b.Alike Eq c → b = c := by
  rintro ⟨text, place⟩
  cases b
  cases c
  simp_all

mutual

/-- Operands at equal places are alike only if they are equal. -/
theorem Expr.Alike.eq {e f : Expr} : e.Alike Eq f → e = f
  | .number text token => by rw [token.eq]
  | .word text token => by rw [token.eq]
  | .reference name place => by rw [place]
  | .quoted parts place => by rw [parts.eq, place]
  | .substitution commands place => by rw [commands.eq, place]
  | .signed sign place operand => by rw [place, operand.eq]
  | .binary operator left place right => by rw [left.eq, place, right.eq]
  | .group inner => by rw [inner.eq]

theorem Expr.AllAlike.eq {es fs : List Expr} : Expr.AllAlike Eq es fs → es = fs
  | .nil => rfl
  | .cons first rest => by rw [first.eq, rest.eq]

theorem Command.Alike.eq {c d : Command} : c.Alike Eq d → c = d
  | .set target place value => by rw [place, value.eq]
  | .unset target place => by rw [place]
  | .puts place value => by rw [place, value.eq]
  | .expr place operand => by rw [place, operand.eq]
  | .block place body => by rw [place, body.eq]
  | .invoke name place arguments => by rw [place, arguments.eq]

theorem Command.AllAlike.eq {cs ds : List Command} : Command.AllAlike Eq cs ds → cs = ds
  | .nil => rfl
  | .cons first rest => by rw [first.eq, rest.eq]

end

mutual

/-- Operands that have the shape of a third one have the same shape. -/
theorem Expr.Alike.trans_left {d e f : Expr} : Expr.Alike (fun _ _ => True) d e →
    Expr.Alike (fun _ _ => True) d f → Expr.Alike (fun _ _ => True) e f
  | .number text t, .number _ u => .number text ⟨u.1.trans t.1.symm, trivial⟩
  | .word text t, .word _ u => .word text ⟨u.1.trans t.1.symm, trivial⟩
  | .reference name _, .reference _ _ => .reference name trivial
  | .quoted parts _, .quoted others _ => .quoted (parts.trans_left others) trivial
  | .substitution commands _, .substitution others _ =>
    .substitution (commands.trans_left others) trivial
  | .signed sign _ operand, .signed _ _ other => .signed sign trivial (operand.trans_left other)
  | .binary operator left _ right, .binary _ left' _ right' =>
    .binary operator (left.trans_left left') trivial (right.trans_left right')
  | .group inner, .group other => .group (inner.trans_left other)

theorem Expr.AllAlike.trans_left {ds es fs : List Expr} :
    Expr.AllAlike (fun _ _ => True) ds es → Expr.AllAlike (fun _ _ => True) ds fs →
      Expr.AllAlike (fun _ _ => True) es fs
  | .nil, .nil => .nil
  | .cons first rest, .cons first' rest' =>
    .cons (first.trans_left first') (rest.trans_left rest')

theorem Command.Alike.trans_left {b c d : Command} :
    Command.Alike (fun _ _ => True) b c → Command.Alike (fun _ _ => True) b d →
      Command.Alike (fun _ _ => True) c d
  | .set target _ value, .set _ _ other => .set target trivial (value.trans_left other)
  | .unset target _, .unset _ _ => .unset target trivial
  | .puts _ value, .puts _ other => .puts trivial (value.trans_left other)
  | .expr _ operand, .expr _ other => .expr trivial (operand.trans_left other)
  | .block _ body, .block _ other => .block trivial ⟨other.1.trans body.1.symm, trivial⟩
  | .invoke name _ arguments, .invoke _ _ others =>
    .invoke name trivial (arguments.trans_left others)

theorem Command.AllAlike.trans_left {bs cs ds : List Command} :
    Command.AllAlike (fun _ _ => True) bs cs → Command.AllAlike (fun _ _ => True) bs ds →
      Command.AllAlike (fun _ _ => True) cs ds
  | .nil, .nil => .nil
  | .cons first rest, .cons first' rest' => .cons (first.trans_left first') (rest.trans_left rest')

end

end TinyTcl
