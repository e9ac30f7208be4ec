import TinyTcl.Proofs.Program.Locality
import TinyTcl.Proofs.Program.Sound

/-! Arithmetic expressions and the lexemes they are written with. A tree is in normal form
(`Expr.Normal`) if products are made of operands, sums of products, and both lean to the left;
everything else stands in a group. Its flattening (`Expr.Flat`) names the lexemes from the left to
the right.

Main statement: an expression is read as the tree in normal form whose flattening are the tokens
read, and the flattening of a tree in normal form is read as that tree, up to the token behind it if
that is no operator (`expression_precedence`). -/
namespace TinyTcl

/-- Whether an operator makes sums. -/
def Operator.isAdditive : Operator → Bool
  | .add | .subtract => true
  | .multiply | .divide => false

namespace Expr

/-- Whether an operator stands between two operands. -/
def isBinary : Expr → Bool
  | .binary _ _ _ _ => true
  | _ => false

/-- Whether an operator of sums stands between two operands. -/
def isSum : Expr → Bool
  | .binary _ operator _ _ => operator.isAdditive
  | _ => false

/-- Whether an operand is one piece to the grammar of expressions, for all that is inside it. -/
def isUnit : Expr → Bool
  | .quoted _ _ | .substitution _ _ => true
  | _ => false

/-- No operator stands where only a group could put it. -/
def Normal : Expr → Prop
  | .number _ _ | .word _ _ | .reference _ _ | .quoted _ _ | .substitution _ _ => True
  | .signed _ _ operand => operand.Normal ∧ operand.isBinary = false
  | .binary left operator _ right =>
    left.Normal ∧ right.Normal ∧
      if operator.isAdditive then right.isSum = false
      else left.isSum = false ∧ right.isBinary = false
  | .group inner => inner.Normal

/-- The operand has been read from these lexemes somewhere. -/
def ReadFrom (e : Expr) (ls : List Lexeme) : Prop :=
  ∃ depth c e' rest within ts, Grammar.operand depth c = .ok e' rest within ∧
    c.tokens = ts ++ rest.tokens ∧ lexemes ts = ls ∧ e'.SameShape e

/-- The lexemes of an expression from the left to the right. Parentheses stand at groups only; a
string and a substitution keep the lexemes that they are read from. -/
inductive Flat : Expr → List Lexeme → Prop where
  | number (text : Text) (p : Position) : Flat (.number text ⟨.number text, p⟩) [.number text]
  | word (text : Text) (p : Position) : Flat (.word text ⟨.name text, p⟩) [.name text]
  | reference (name : Text) (p : Position) : Flat (.reference name p) [.symbol .dollar, .name name]
  | unit {e : Expr} {ls : List Lexeme} : e.isUnit = true → e.ReadFrom ls → Flat e ls
  | signed (sign : Sign) (p : Position) {operand : Expr} {ls : List Lexeme} : Flat operand ls →
      Flat (.signed sign p operand) (.symbol sign.symbol :: ls)
  | binary (operator : Operator) (p : Position) {left right : Expr} {ls ms : List Lexeme} :
      Flat left ls → Flat right ms →
      Flat (.binary left operator p right) (ls ++ .symbol operator.symbol :: ms)
  | group {inner : Expr} {ls : List Lexeme} : Flat inner ls →
      Flat (.group inner) (.symbol .leftParen :: (ls ++ [.symbol .rightParen]))

private theorem Normal.of_isUnit {e : Expr} (h : e.isUnit = true) : e.Normal := by
  cases e <;> trivial

private theorem isBinary_of_isUnit {e : Expr} (h : e.isUnit = true) : e.isBinary = false := by
  cases e <;> first | rfl | cases h

private theorem isSum_of_not_isBinary {e : Expr} (h : e.isBinary = false) : e.isSum = false := by
  cases e <;> first | rfl | cases h

end Expr

/-- The layer that an operator belongs to. -/
def Operator.layer (operator : Operator) : Layer :=
  if operator.isAdditive then .sum else .product

private theorem Layer.operator?_symbol (layer : Layer) (operator : Operator) :
    layer.operator? (.symbol operator.symbol) =
      if operator.layer = layer then some operator else none := by
  cases layer <;> cases operator <;> rfl

namespace Expr

/-- What can stand as a chain of a layer. -/
def IsChain (e : Expr) : Layer → Prop
  | .sum => True
  | .product => e.isSum = false

/-- What can stand as a part of a layer. -/
def IsPart (e : Expr) : Layer → Prop
  | .sum => e.isSum = false
  | .product => e.isBinary = false

private theorem IsPart.isChain {e : Expr} {layer : Layer} (h : e.IsPart layer) :
    e.IsChain layer := by
  cases layer with
  | sum => trivial
  | product => exact isSum_of_not_isBinary h

private theorem isChain_binary {left right : Expr} (operator : Operator) (p : Position) :
    (binary left operator p right).IsChain operator.layer := by
  cases operator <;> trivial

/-- An operator stands in normal form between a chain and a part of its layer. -/
theorem normal_binary {left right : Expr} {operator : Operator} {p : Position} :
    (binary left operator p right).Normal ↔ (left.Normal ∧ left.IsChain operator.layer) ∧
      right.Normal ∧ right.IsPart operator.layer := by
  cases operator <;>
    simp [Normal, Operator.isAdditive, Operator.layer, IsChain, IsPart, and_assoc, and_left_comm]

end Expr

/-! ### What is read is the flattening of a tree in normal form -/

/-- What a reader gives goes with the lexemes that it takes. -/
def Reply.Takes {α : Type} {n : Nat} (c : Cursor) (W : α → List Lexeme → Prop) : Reply α n → Prop
  | .ok a rest _ => ∃ ts, c.tokens = ts ++ rest.tokens ∧ W a (lexemes ts)
  | .fail _ _ => True

namespace Reply.Takes

variable {α β : Type} {n m : Nat} {c rest : Cursor} {W : α → List Lexeme → Prop}
  {W' : β → List Lexeme → Prop}

private theorem reject {depth : Nat} {f : GrammarFault} {t : Token} {here : Cursor} :
    (TinyTcl.reject depth f t here : Reply α n).Takes c W := by
  rw [reject_eq]
  trivial

private theorem nothing {a : α} {here : Cursor} {within : here.workload < n} (takes : W a [])
    (tokens : here.tokens = c.tokens) : (Reply.ok a here within : Reply α n).Takes c W :=
  ⟨[], tokens.symm, takes⟩

private theorem token {r : Reply α n} {t : Token} (reads : c.Reads t rest)
    (h : r.Takes rest fun a ls => W a (t.lexeme :: ls)) : r.Takes c W := by
  cases r with
  | fail d here => trivial
  | ok a behind within =>
    obtain ⟨ts, tokens, takes⟩ := h
    exact ⟨t :: ts, by rw [(Cursor.reads_iff.mp reads).1, tokens]; rfl, takes⟩

private theorem single {a : α} {t : Token} {within : rest.workload < n} (reads : c.Reads t rest)
    (takes : W a [t.lexeme]) : (Reply.ok a rest within : Reply α n).Takes c W :=
  .token reads (.nothing takes rfl)

private theorem widen {r : Reply α n} (h : r.Takes c W) (wide : n ≤ m) :
    (r.widen wide).Takes c W := by
  cases r <;> exact h

private theorem map {r : Reply α n} {f : α → β} (h : r.Takes c W)
    (takes : ∀ a ls, W a ls → W' (f a) ls) (wide : n ≤ m) : (r.map f wide).Takes c W' := by
  cases r with
  | fail d here => trivial
  | ok a rest within =>
    obtain ⟨ts, tokens, written⟩ := h
    exact ⟨ts, tokens, takes _ _ written⟩

private theorem andThen {r : Reply α n} {next : α → (rest : Cursor) → rest.workload < n → Reply β m}
    (h : r.Takes c W)
    (step : ∀ a ls rest within, W a ls →
      (next a rest within).Takes rest fun b ms => W' b (ls ++ ms)) :
    (r.andThen next).Takes c W' := by
  cases r with
  | fail d here => trivial
  | ok a rest within =>
    obtain ⟨ts, tokens, written⟩ := h
    have later := step a _ rest within written
    simp only [Reply.andThen]
    revert later
    cases next a rest within with
    | fail d here => exact id
    | ok b behind _ =>
      rintro ⟨us, others, both⟩
      exact ⟨ts ++ us, by rw [tokens, others, List.append_assoc], by rwa [lexemes_append]⟩

end Reply.Takes

namespace Grammar

/-- The tree is in normal form, and this is its flattening. -/
def Spelled (e : Expr) (ls : List Lexeme) : Prop := e.Flat ls ∧ e.Normal

private theorem Spelled.binary {left right : Expr} {operator : Operator} {ls ms : List Lexeme}
    (p : Position) (h : Spelled left ls) (chain : left.IsChain operator.layer)
    (k : Spelled right ms) (part : right.IsPart operator.layer) :
    Spelled (.binary left operator p right) (ls ++ .symbol operator.symbol :: ms) :=
  ⟨.binary operator p h.1 k.1, Expr.normal_binary.mpr ⟨⟨h.2, chain⟩, k.2, part⟩⟩

private theorem takes_consume {α : Type} {f : GrammarFault} {taken : Lexeme → Option α}
    {W : α → List Lexeme → Prop} (depth : Nat) (c : Cursor)
    (takes : ∀ l a, taken l = some a → W a [l]) : (consume depth f taken c).Takes c W := by
  cases read : consume depth f taken c with
  | fail d here => trivial
  | ok a rest within =>
    obtain ⟨t, reads, wanted⟩ := consume_eq_ok.mp read
    exact .single reads (takes _ a wanted)

private theorem takes_rightParen (depth : Nat) (c : Cursor) :
    (symbol depth .rightParen .openGroup c).Takes c fun _ ls => ls = [.symbol .rightParen] :=
  takes_consume depth c fun l _ wanted => by simpa using wanted

private theorem takes_reference (depth : Nat) (p : Position) (c : Cursor) :
    (reference depth p c).Takes c fun e ls => Spelled e (.symbol .dollar :: ls) ∧
      e.isBinary = false := by
  refine takes_consume depth c fun l e wanted => ?_
  cases l with
  | name name =>
    cases wanted
    exact ⟨⟨.reference name p, trivial⟩, rfl⟩
  | number | symbol => cases wanted

/-- An operand that was read is written as itself: its blocks hold what their texts deliver. -/
theorem sameShape_of_operand {depth : Nat} {c rest : Cursor} {e : Expr}
    {within : rest.workload < c.workload} (read : operand depth c = .ok e rest within) :
    e.SameShape e := by
  obtain ⟨ts, tokens⟩ := tokens_of_operand read
  have shares : Cursor.Shares rest.tokens rest.tokens c c := ⟨ts, ts, tokens, tokens, rfl⟩
  obtain ⟨_, _, _, again, alike, _⟩ := shares.operand depth depth _ _ _ read (Nat.le_refl _)
  cases read.symm.trans again
  exact alike

/-- A unit takes the lexemes that it is read from. -/
theorem takes_unit {depth : Nat} {c : Cursor} {α : Type} {n : Nat} {r : Reply α n} {f : α → Expr}
    {wide : n ≤ c.workload} (units : ∀ a, (f a).isUnit = true)
    (same : operand depth c = r.map f wide) :
    (r.map f wide).Takes c fun e ls => Spelled e ls ∧ e.isBinary = false := by
  cases r with
  | fail d here => trivial
  | ok a rest within =>
    obtain ⟨ts, tokens⟩ := tokens_of_operand same
    have unit := units a
    have read : (f a).ReadFrom (lexemes ts) :=
      ⟨depth, c, f a, rest, _, ts, same, tokens, rfl, sameShape_of_operand same⟩
    exact ⟨ts, tokens, ⟨.unit unit read, .of_isUnit unit⟩, Expr.isBinary_of_isUnit unit⟩

mutual

/-- A chain of a layer is read from its flattening. -/
theorem takes_chain (layer : Layer) (depth : Nat) (c : Cursor) :
    (chain layer depth c).Takes c fun e ls => Spelled e ls ∧ e.IsChain layer := by
  rw [chain]
  refine (takes_part layer depth c).andThen ?_
  rintro left ls rest within ⟨spelled, single⟩
  exact (takes_further layer depth rest spelled single.isChain).widen _
termination_by 8 * c.workload + 2 * layer.height + 2

theorem takes_part (layer : Layer) (depth : Nat) (c : Cursor) :
    (part layer depth c).Takes c fun e ls => Spelled e ls ∧ e.IsPart layer := by
  cases layer with
  | product =>
    rw [part]
    exact takes_operand depth c
  | sum =>
    rw [part]
    exact takes_chain .product depth c
termination_by 8 * c.workload + 2 * layer.height + 1

theorem takes_further (layer : Layer) (depth : Nat) (c : Cursor) {left : Expr} {ls : List Lexeme}
    (spelled : Spelled left ls) (fits : left.IsChain layer) :
    (further layer depth left c).Takes c fun e ms => Spelled e (ls ++ ms) ∧ e.IsChain layer := by
  rcases c.view_cases with ⟨⟨l, p⟩, rest, reads⟩ | ⟨t, here, ends⟩ | ⟨d, here, breaks⟩
  · obtain ⟨_, shorter, view⟩ := reads.view
    rw [further, view]
    dsimp only
    cases found : layer.operator? l with
    | none => exact .nothing ⟨by rwa [List.append_nil], fits⟩ rfl
    | some operator =>
      obtain rfl := symbol_of_operator? found
      obtain rfl : operator.layer = layer := by simpa [Layer.operator?_symbol] using found
      refine .token reads ((takes_part _ depth rest).andThen ?_)
      rintro right ms behind within ⟨next, part⟩
      have both := spelled.binary p fits next part
      have later := takes_further _ depth behind both (Expr.isChain_binary operator p)
      simp only [List.append_assoc, List.cons_append] at later
      exact later.widen _
  · rw [further_of_stops (.inr ends)]
    exact .nothing ⟨by rwa [List.append_nil], fits⟩ ends.lexemes.2.1
  · rw [further_of_breaks breaks]
    trivial
termination_by 8 * c.workload

theorem takes_operand (depth : Nat) (c : Cursor) :
    (operand depth c).Takes c fun e ls => Spelled e ls ∧ e.isBinary = false := by
  rcases c.view_cases with ⟨⟨l, p⟩, rest, reads⟩ | ⟨t, here, ends⟩ | ⟨d, here, breaks⟩
  · obtain ⟨_, shorter, view⟩ := reads.view
    generalize whole : operand depth c = reply
    have unfolded := whole
    rw [operand, view] at unfolded
    subst unfolded
    rcases l with text | text | s
    case number => exact .single reads ⟨⟨.number text p, trivial⟩, rfl⟩
    case name => exact .single reads ⟨⟨.word text p, trivial⟩, rfl⟩
    cases s
    case dollar => exact .token reads ((takes_reference depth p rest).widen _)
    case leftParen =>
      refine .token reads ((takes_chain .sum depth rest).andThen ?_)
      rintro inner ls behind within ⟨⟨flat, normal⟩, _⟩
      refine (takes_rightParen depth behind).map ?_ _
      rintro _ _ rfl
      exact ⟨⟨.group flat, normal⟩, rfl⟩
    case plus =>
      refine .token reads ((takes_operand depth rest).map ?_ _)
      rintro e ls ⟨⟨flat, normal⟩, single⟩
      exact ⟨⟨.signed .positive p flat, normal, single⟩, rfl⟩
    case minus =>
      refine .token reads ((takes_operand depth rest).map ?_ _)
      rintro e ls ⟨⟨flat, normal⟩, single⟩
      exact ⟨⟨.signed .negative p flat, normal, single⟩, rfl⟩
    case leftBracket => exact takes_unit (fun _ => rfl) whole
    case leftQuote => exact takes_unit (fun _ => rfl) whole
    all_goals exact .reject
  · rw [operand_of_stops (.inr ends)]
    exact .reject
  · rw [operand_of_breaks breaks]
    trivial
termination_by 8 * c.workload

end

/-! ### The flattening of a tree in normal form is read as the tree -/

end Grammar

/-- The tokens start with these lexemes, and behind them stands the tail. -/
def Fronts (tokens : List Token) (ls : List Lexeme) (tail : List Token) : Prop :=
  ∃ ts, tokens = ts ++ tail ∧ lexemes ts = ls

namespace Fronts

variable {tokens tail : List Token} {c : Cursor} {l : Lexeme} {ls ms : List Lexeme}

theorem first (h : Fronts tokens (l :: ls) tail) :
    ∃ p rest, tokens = ⟨l, p⟩ :: rest ∧ Fronts rest ls tail := by
  obtain ⟨ts, whole, same⟩ := h
  cases ts with
  | nil => cases same
  | cons t others =>
    obtain ⟨rfl, behind⟩ := List.cons.inj same
    exact ⟨t.position, _, whole, others, rfl, behind⟩

private theorem reads (h : Fronts c.tokens (l :: ls) tail) (other : l ≠ .symbol .endOfFile) :
    ∃ p rest, c.Reads ⟨l, p⟩ rest ∧ Fronts rest.tokens ls tail := by
  obtain ⟨p, rest, whole, later⟩ := h.first
  exact ⟨p, _, Cursor.reads_of_tokens whole other, later⟩

private theorem split (h : Fronts tokens (ls ++ ms) tail) :
    ∃ middle, Fronts tokens ls middle ∧ Fronts middle ms tail := by
  obtain ⟨ts, whole, same⟩ := h
  obtain ⟨front, back, rfl, first, second⟩ := List.map_eq_append_iff.mp same
  exact ⟨back ++ tail, ⟨front, by rw [whole, List.append_assoc], first⟩, back, rfl, second⟩

private theorem of_nil (h : Fronts tokens [] tail) : tokens = tail := by
  obtain ⟨ts, whole, same⟩ := h
  rw [whole, List.map_eq_nil_iff.mp same, List.nil_append]

end Fronts

namespace Grammar

/-- A token stands in front that does not go on with the layers below a layer. -/
def Closes (tail : List Token) : Layer → Prop
  | .product => True
  | .sum => ∃ t more, tail = t :: more ∧ Layer.product.operator? t.lexeme = none

private theorem closes_of_fronts {tokens tail : List Token} {operator : Operator} {ls : List Lexeme}
    (h : Fronts tokens (.symbol operator.symbol :: ls) tail) : Closes tokens operator.layer := by
  obtain ⟨p, rest, whole, _⟩ := h.first
  cases operator <;> first | trivial | exact ⟨_, rest, whole, rfl⟩

/-- A layer ends in front of a token that is none of its operators. -/
theorem further_of_other {layer : Layer} {depth : Nat} {e : Expr} {c : Cursor} {t : Token}
    {more : List Token} (tokens : c.tokens = t :: more) (other : layer.operator? t.lexeme = none) :
    further layer depth e c = .ok e c.look c.workload_look_lt := by
  by_cases last : t.lexeme = .symbol .endOfFile
  · have ends := Cursor.ends_of_tokens tokens last
    rw [further_of_stops (.inr ends)]
    simp only [ends.look]
  · have reads := Cursor.reads_of_tokens tokens last
    obtain ⟨_, _, view⟩ := reads.view
    rw [further, view]
    simp only [other, reads.look]

/-- A layer goes on behind its operators. -/
theorem further_of_operator {depth : Nat} {e : Expr} {c rest : Cursor} {operator : Operator}
    {p : Position} (reads : c.Reads ⟨.symbol operator.symbol, p⟩ rest) :
    further operator.layer depth e c =
      (part operator.layer depth rest).andThen fun right behind within =>
        (further operator.layer depth (.binary e operator p right) behind).widen
          (Nat.succ_le_succ (Nat.le_of_lt (Nat.lt_trans within reads.shorter))) := by
  obtain ⟨_, _, view⟩ := reads.view
  rw [further, view]
  simp only [Layer.operator?_symbol, if_true]

private theorem operatorSymbol_ne_endOfFile (operator : Operator) :
    Lexeme.symbol operator.symbol ≠ .symbol .endOfFile := by
  cases operator <;> decide

/-- How the readers of operands and chains read a tree back from its lexemes. Where a chain may go
on, it goes on with the tree as what has been read so far. -/
structure ReadBack (e : Expr) (ls : List Lexeme) : Prop where
  operand : e.isBinary = false → ∀ depth (c : Cursor) tail, Fronts c.tokens ls tail →
    ∃ e' rest within, operand depth c = .ok e' rest within ∧ e.SameShape e' ∧ rest.tokens = tail
  chain : ∀ layer, e.IsChain layer → ∀ depth (c : Cursor) tail, Fronts c.tokens ls tail →
    Closes tail layer → ∃ e' rest less,
      chain layer depth c = (further layer depth e' rest).widen less ∧ e.SameShape e' ∧
        rest.tokens = tail

namespace ReadBack

variable {e : Expr} {ls : List Lexeme}

/-- A chain that ends is read as a whole. -/
theorem whole (h : ReadBack e ls) (layer : Layer) (fits : e.IsChain layer) (depth : Nat)
    {c : Cursor} {t : Token} {more : List Token} (fronts : Fronts c.tokens ls (t :: more))
    (closes : Closes (t :: more) layer) (other : layer.operator? t.lexeme = none) :
    ∃ e' rest within, Grammar.chain layer depth c = .ok e' rest within ∧ e.SameShape e' ∧
      rest.tokens = t :: more := by
  obtain ⟨e', rest, less, read, alike, tokens⟩ := h.chain layer fits depth c _ fronts closes
  refine ⟨e', rest.look, Nat.lt_of_lt_of_le rest.workload_look_lt less, ?_, alike,
    rest.tokens_look.trans tokens⟩
  rw [read, further_of_other tokens other]
  rfl

/-- A sum ends at a token that is no operator. -/
theorem sentence (h : ReadBack e ls) (depth : Nat) {c : Cursor} {t : Token} {more : List Token}
    (fronts : Fronts c.tokens ls (t :: more))
    (other : ∀ layer : Layer, layer.operator? t.lexeme = none) :
    ∃ e' rest within, Grammar.chain .sum depth c = .ok e' rest within ∧ e.SameShape e' ∧
      rest.tokens = t :: more :=
  h.whole .sum trivial depth fronts ⟨t, more, rfl, other .product⟩ (other .sum)

/-- A part is an operand, or a product that ends. -/
theorem part (h : ReadBack e ls) {layer : Layer} (fits : e.IsPart layer) (depth : Nat)
    {c : Cursor} {tail : List Token} (fronts : Fronts c.tokens ls tail)
    (closes : Closes tail layer) :
    ∃ e' rest within, Grammar.part layer depth c = .ok e' rest within ∧ e.SameShape e' ∧
      rest.tokens = tail := by
  cases layer with
  | product =>
    rw [Grammar.part]
    exact h.operand fits depth c tail fronts
  | sum =>
    obtain ⟨t, more, rfl, other⟩ := closes
    rw [Grammar.part]
    exact h.whole .product fits depth fronts trivial other

/-- What is no sum is a sum of one product. -/
theorem of_product
    (operand : e.isBinary = false → ∀ depth (c : Cursor) tail, Fronts c.tokens ls tail →
      ∃ e' rest within, Grammar.operand depth c = .ok e' rest within ∧ e.SameShape e' ∧
        rest.tokens = tail)
    (product : ∀ depth (c : Cursor) tail, Fronts c.tokens ls tail → ∃ e' rest less,
      Grammar.chain .product depth c = (further .product depth e' rest).widen less ∧
        e.SameShape e' ∧ rest.tokens = tail) :
    ReadBack e ls := by
  refine ⟨operand, fun layer _ depth c tail fronts closes => ?_⟩
  obtain ⟨e', rest, less, read, alike, tokens⟩ := product depth c tail fronts
  cases layer with
  | product => exact ⟨e', rest, less, read, alike, tokens⟩
  | sum =>
    obtain ⟨t, more, rfl, other⟩ := closes
    have seen := rest.workload_look_lt
    refine ⟨e', rest.look, by omega, ?_, alike, rest.tokens_look.trans tokens⟩
    rw [Grammar.chain, Grammar.part, read, further_of_other tokens other]
    rfl

/-- An operand is a product of itself alone. -/
theorem of_operand
    (operand : ∀ depth (c : Cursor) tail, Fronts c.tokens ls tail →
      ∃ e' rest within, Grammar.operand depth c = .ok e' rest within ∧ e.SameShape e' ∧
        rest.tokens = tail) :
    ReadBack e ls := by
  refine of_product (fun _ => operand) fun depth c tail fronts => ?_
  obtain ⟨e', rest, within, read, alike, tokens⟩ := operand depth c tail fronts
  refine ⟨e', rest, within, ?_, alike, tokens⟩
  rw [Grammar.chain, Grammar.part, read]
  rfl

/-- An operand of one token. -/
theorem of_token {l : Lexeme} (node : Position → Expr) (other : l ≠ .symbol .endOfFile)
    (reads : ∀ depth (c rest : Cursor) q (h : c.Reads ⟨l, q⟩ rest),
      Grammar.operand depth c = .ok (node q) rest h.shorter)
    (alike : ∀ q, e.SameShape (node q)) : ReadBack e [l] := by
  refine of_operand fun depth c tail fronts => ?_
  obtain ⟨q, rest, token, later⟩ := fronts.reads other
  exact ⟨node q, rest, token.shorter, reads depth c rest q token, alike q, later.of_nil⟩

private theorem number (text : Text) (p : Position) :
    ReadBack (.number text ⟨.number text, p⟩) [.number text] :=
  of_token (fun q => .number text ⟨.number text, q⟩) (by simp)
    (fun depth c rest q reads => by
      obtain ⟨_, _, view⟩ := reads.view
      rw [Grammar.operand, view])
    fun _ => .number text ⟨rfl, trivial⟩

private theorem word (text : Text) (p : Position) :
    ReadBack (.word text ⟨.name text, p⟩) [.name text] :=
  of_token (fun q => .word text ⟨.name text, q⟩) (by simp)
    (fun depth c rest q reads => by
      obtain ⟨_, _, view⟩ := reads.view
      rw [Grammar.operand, view])
    fun _ => .word text ⟨rfl, trivial⟩

private theorem reference (name : Text) (p : Position) :
    ReadBack (.reference name p) [.symbol .dollar, .name name] := by
  refine of_operand fun depth c tail fronts => ?_
  obtain ⟨q, rest, reads, later⟩ := fronts.reads (by simp)
  obtain ⟨r, behind, named, last⟩ := later.reads (by simp)
  obtain ⟨_, _, view⟩ := reads.view
  have read : Grammar.reference depth q rest = .ok (.reference name q) behind named.shorter :=
    consume_of_reads named rfl
  refine ⟨.reference name q, behind, Nat.lt_trans named.shorter reads.shorter, ?_,
    .reference name trivial, last.of_nil⟩
  rw [Grammar.operand, view]
  simp only [read]
  rfl

/-- A unit is read again wherever its lexemes stand, since no operand looks behind itself. -/
theorem unit (read : e.ReadFrom ls) : ReadBack e ls := by
  refine of_operand fun depth c tail fronts => ?_
  obtain ⟨depth', c', e', rest, within, ts, read, tokens, lexemes, alike⟩ := read
  obtain ⟨us, others, same⟩ := fronts
  have shares : Cursor.Shares rest.tokens tail c' c :=
    ⟨ts, us, tokens, others, same.trans lexemes.symm⟩
  obtain ⟨f, behind, inside, again, alike', left, left', ends, ends', none⟩ :=
    shares.operand depth' depth _ _ _ read (Nat.le_refl _)
  obtain rfl : left = [] := List.self_eq_append_left.mp ends
  obtain rfl : left' = [] := List.map_eq_nil_iff.mp none
  exact ⟨f, behind, inside, again, alike.trans_left alike', ends'⟩

private theorem signed (h : ReadBack e ls) (single : e.isBinary = false) (sign : Sign)
    (p : Position) :
    ReadBack (.signed sign p e) (.symbol sign.symbol :: ls) := by
  refine of_operand fun depth c tail fronts => ?_
  obtain ⟨q, rest, reads, later⟩ := fronts.reads (by cases sign <;> decide)
  obtain ⟨e', behind, within, read, alike, tokens⟩ := h.operand single depth rest tail later
  obtain ⟨_, _, view⟩ := reads.view
  refine ⟨.signed sign q e', behind, Nat.lt_trans within reads.shorter, ?_,
    .signed sign trivial alike, tokens⟩
  rw [Grammar.operand, view]
  cases sign <;> simp only [Sign.symbol, read] <;> rfl

/-- The parenthesis behind a group ends the sum in it. -/
theorem group (h : ReadBack e ls) :
    ReadBack (.group e) (.symbol .leftParen :: (ls ++ [.symbol .rightParen])) := by
  refine of_operand fun depth c tail fronts => ?_
  obtain ⟨q, rest, reads, later⟩ := fronts.reads (by decide)
  obtain ⟨middle, inner, closes⟩ := later.split
  obtain ⟨r, others, rfl, last⟩ := closes.first
  obtain ⟨e', behind, within, read, alike, tokens⟩ :=
    h.sentence depth inner fun layer => by cases layer <;> rfl
  have closing := Cursor.reads_of_tokens tokens (by simp)
  have less := closing.shorter
  have less' := reads.shorter
  obtain ⟨_, _, view⟩ := reads.view
  refine ⟨.group e', behind.behind _ others, Nat.lt_trans less (Nat.lt_trans within less'), ?_,
    .group alike, last.of_nil⟩
  rw [Grammar.operand, view]
  simp only [read, Reply.andThen, symbol_of_reads closing]
  rfl

/-- A chain goes on with an operator and another part. -/
theorem chain_binary {left right : Expr} {operator : Operator} {ms : List Lexeme} (p : Position)
    (h : ReadBack left ls) (fits : left.IsChain operator.layer) (k : ReadBack right ms)
    (part : right.IsPart operator.layer) (depth : Nat) (c : Cursor) (tail : List Token)
    (fronts : Fronts c.tokens (ls ++ .symbol operator.symbol :: ms) tail)
    (closes : Closes tail operator.layer) :
    ∃ e' rest less, Grammar.chain operator.layer depth c =
      (further operator.layer depth e' rest).widen less ∧
        (Expr.binary left operator p right).SameShape e' ∧ rest.tokens = tail := by
  obtain ⟨middle, before, next⟩ := fronts.split
  obtain ⟨e', rest, less, read, alike, tokens⟩ :=
    h.chain _ fits depth c middle before (closes_of_fronts next)
  obtain ⟨q, behind, reads, later⟩ := (tokens ▸ next).reads (operatorSymbol_ne_endOfFile operator)
  obtain ⟨f', last, within, read', alike', tokens'⟩ := k.part part depth later closes
  have less' := reads.shorter
  refine ⟨.binary e' operator q f', last, by omega, ?_, .binary operator alike trivial alike',
    tokens'⟩
  rw [read, further_of_operator reads, read']
  simp only [Reply.andThen, Reply.widen_widen]

private theorem binary {left right : Expr} {operator : Operator} {ms : List Lexeme} (p : Position)
    (h : ReadBack left ls) (fits : left.IsChain operator.layer) (k : ReadBack right ms)
    (part : right.IsPart operator.layer) :
    ReadBack (.binary left operator p right) (ls ++ .symbol operator.symbol :: ms) := by
  have chain := chain_binary p h fits k part
  cases layer : operator.layer with
  | product =>
    rw [layer] at chain
    exact of_product (fun single => nomatch single) fun depth c tail fronts =>
      chain depth c tail fronts trivial
  | sum =>
    rw [layer] at chain
    have sum : operator.isAdditive = true := by simpa [Operator.layer] using layer
    refine ⟨(fun single => nomatch single), fun other product => ?_⟩
    cases other with
    | sum => exact chain
    | product => cases sum.symm.trans product

end ReadBack

/-- Every tree in normal form is read back from its flattening. The induction is on the flattening;
what may stand at an operator decides which of the readers comes to it. -/
theorem readBack {e : Expr} {ls : List Lexeme} (flat : e.Flat ls) (normal : e.Normal) :
    ReadBack e ls := by
  induction flat with
  | number text p => exact .number text p
  | word text p => exact .word text p
  | reference name p => exact .reference name p
  | unit _ read => exact .unit read
  | signed sign p _ ih => exact (ih normal.1).signed normal.2 sign p
  | group _ ih => exact (ih normal).group
  | binary operator p _ _ ihLeft ihRight =>
    obtain ⟨⟨left, chain⟩, right, part⟩ := Expr.normal_binary.mp normal
    exact .binary p (ihLeft left) chain (ihRight right) part

private theorem operator?_eq_none {l : Lexeme}
    (other : ∀ operator : Operator, l ≠ .symbol operator.symbol) (layer : Layer) :
    layer.operator? l = none := by
  cases found : layer.operator? l with
  | none => rfl
  | some operator => exact absurd (symbol_of_operator? found) (other operator)

/-- Expressions are read exactly as their precedence grammar has it. Whatever is read is in normal
form, and its flattening is what was read; and the flattening of a tree in normal form is read as
this tree, but for the places, up to any token that is no operator. -/
theorem expression_precedence (depth : Nat) (c : Cursor) :
    (∀ e rest within, expression depth c = .ok e rest within →
      ∃ ts, c.tokens = ts ++ rest.tokens ∧ e.Flat (lexemes ts) ∧ e.Normal) ∧
    ∀ (e : Expr) (ts : List Token) (t : Token) (more : List Token), e.Normal →
      e.Flat (lexemes ts) → c.tokens = ts ++ t :: more →
      (∀ operator : Operator, t.lexeme ≠ .symbol operator.symbol) →
      ∃ e' rest within, expression depth c = .ok e' rest within ∧ e.SameShape e' ∧
        rest.tokens = t :: more := by
  constructor
  · intro e rest within read
    have takes := takes_chain .sum depth c
    rw [show chain .sum depth c = _ from read] at takes
    obtain ⟨ts, tokens, spelled, _⟩ := takes
    exact ⟨ts, tokens, spelled⟩
  · intro e ts t more normal flat tokens other
    exact (readBack flat normal).sentence depth ⟨ts, tokens, rfl⟩ (operator?_eq_none other)

private theorem operand_of_emptyString {depth : Nat} {c rest behind : Cursor} {p q : Position}
    (opens : c.Reads ⟨.symbol .leftQuote, p⟩ rest)
    (closes : rest.Reads ⟨.symbol .rightQuote, q⟩ behind) :
    operand depth c = .ok (.quoted [] p) behind (Nat.lt_trans closes.shorter opens.shorter) := by
  obtain ⟨_, _, view⟩ := opens.view
  obtain ⟨_, _, next⟩ := closes.view
  have nothing : parts depth rest = .ok [] behind closes.shorter := by rw [parts, next]
  rw [operand, view]
  simp only [nothing]
  rfl

/-- An empty string is read from its two quotes. -/
theorem readFrom_emptyString (p : Position) :
    (Expr.quoted [] p).ReadFrom [.symbol .leftQuote, .symbol .rightQuote] := by
  obtain ⟨rest, opens, tokens, _⟩ := Cursor.exists_reads_of_tokens
    (c := .ofTokens [.ofSymbol .leftQuote p, .ofSymbol .rightQuote p]) rfl (by simp)
  obtain ⟨behind, closes, none, _⟩ := Cursor.exists_reads_of_tokens tokens (by simp)
  exact ⟨0, _, .quoted [] p, behind, _, [.ofSymbol .leftQuote p, .ofSymbol .rightQuote p],
    operand_of_emptyString opens closes, by rw [none]; rfl, rfl, .quoted .nil trivial⟩

/-- `-1*""-$y;` -/
theorem expression_precedence_difference :
    ∃ e rest within ts,
      expression 0 (.ofTokens [.ofSymbol .minus ⟨1, 1⟩, ⟨.number ['1'], ⟨1, 2⟩⟩,
        .ofSymbol .times ⟨1, 3⟩, .ofSymbol .leftQuote ⟨1, 4⟩, .ofSymbol .rightQuote ⟨1, 5⟩,
        .ofSymbol .minus ⟨1, 6⟩, .ofSymbol .dollar ⟨1, 7⟩, ⟨.name ['y'], ⟨1, 8⟩⟩,
        .ofSymbol .semicolon ⟨1, 9⟩]) = .ok e rest within ∧
      rest.tokens = [.ofSymbol .semicolon ⟨1, 9⟩] ∧
      Expr.SameShape (.binary (.binary (.signed .negative ⟨1, 1⟩
        (.number ['1'] ⟨.number ['1'], ⟨1, 2⟩⟩)) .multiply ⟨1, 3⟩ (.quoted [] ⟨1, 4⟩))
        .subtract ⟨1, 6⟩ (.reference ['y'] ⟨1, 7⟩)) e ∧
      ts.length = 8 ∧ e.Flat (lexemes ts) ∧ e.Normal := by
  have flat := Expr.Flat.binary .subtract ⟨1, 6⟩
    (.binary .multiply ⟨1, 3⟩ (.signed .negative ⟨1, 1⟩ (.number ['1'] ⟨1, 2⟩))
      (.unit rfl (readFrom_emptyString ⟨1, 4⟩)))
    (.reference ['y'] ⟨1, 7⟩)
  obtain ⟨e, rest, within, read, alike, tokens⟩ := (expression_precedence 0 (.ofTokens _)).2 _
    [.ofSymbol .minus ⟨1, 1⟩, ⟨.number ['1'], ⟨1, 2⟩⟩, .ofSymbol .times ⟨1, 3⟩,
      .ofSymbol .leftQuote ⟨1, 4⟩, .ofSymbol .rightQuote ⟨1, 5⟩, .ofSymbol .minus ⟨1, 6⟩,
      .ofSymbol .dollar ⟨1, 7⟩, ⟨.name ['y'], ⟨1, 8⟩⟩] (.ofSymbol .semicolon ⟨1, 9⟩) []
    (by simp [Expr.Normal, Expr.isBinary, Expr.isSum, Operator.isAdditive]) flat rfl
    (by intro operator; cases operator <;> decide)
  obtain ⟨ts, whole, spelled, normal⟩ := (expression_precedence 0 _).1 e rest within read
  refine ⟨e, rest, within, ts, read, tokens, alike, ?_, spelled, normal⟩
  have count := congrArg List.length whole
  rw [tokens, List.length_append] at count
  simpa [Cursor.ofTokens] using count.symm

end Grammar
end TinyTcl
