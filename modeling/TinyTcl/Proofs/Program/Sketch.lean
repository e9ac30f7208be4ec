import TinyTcl.Program.Outline
import TinyTcl.Proofs.Text.Quoted

/-! Sketches of scripts. A sketch keeps what each node is, its texts and names, and its parts, and
forgets the groups and where everything stands. The outline of a script shows its sketch
(`Command.outlines_eq`) and all of it (`Sketch.outlines_injective`): a label tells what its node is
(`Heading.text_injective`), and the indentation tells where the parts of a node end, since the lines
of its parts stand deeper than the line of the node and that of the next one. -/
namespace TinyTcl

/-- What a node of a script is, with the texts that belong to it. -/
inductive Heading where
  | number (text : Text)
  | word (text : Text)
  | reference (name : Text)
  | quoted
  | substitution
  | signed (sign : Sign)
  | binary (operator : Operator)
  | set (target : Text)
  | unset (target : Text)
  | puts
  | expr
  | block (text : Text)
  | invoke (name : Text)
deriving DecidableEq, Repr

/-- A node of a script and its parts, wherever they stand. -/
inductive Sketch where
  | node (heading : Heading) (parts : List Sketch)

mutual

/-- The sketch of an operand; that of a group is the sketch of its content. -/
def Expr.sketch : Expr → Sketch
  | .number text _ => .node (.number text) []
  | .word text _ => .node (.word text) []
  | .reference name _ => .node (.reference name) []
  | .quoted parts _ => .node .quoted (Expr.sketches parts)
  | .substitution commands _ => .node .substitution (Command.sketches commands)
  | .signed sign _ operand => .node (.signed sign) [operand.sketch]
  | .binary left operator _ right => .node (.binary operator) [left.sketch, right.sketch]
  | .group inner => inner.sketch

/-- The sketches of several operands. -/
def Expr.sketches : List Expr → List Sketch
  | [] => []
  | first :: rest => first.sketch :: Expr.sketches rest

/-- The sketch of a command; of a block it shows the text. -/
def Command.sketch : Command → Sketch
  | .set _ target value => .node (.set target) [value.sketch]
  | .unset _ target => .node (.unset target) []
  | .puts _ value => .node .puts [value.sketch]
  | .expr _ operand => .node .expr [operand.sketch]
  | .block _ body _ => .node (.block body.text) []
  | .invoke _ name arguments => .node (.invoke name) (Expr.sketches arguments)

/-- The sketches of several commands. -/
def Command.sketches : List Command → List Sketch
  | [] => []
  | first :: rest => first.sketch :: Command.sketches rest

end

/-! ### Labels -/

/-- The label of a node in an outline. -/
def Heading.text : Heading → Text
  | number text => "Number(".toList ++ text ++ [')']
  | word text => "Word(".toList ++ text.quoted ++ [')']
  | reference name => "Variable($".toList ++ name ++ [')']
  | quoted => "String".toList
  | substitution => "Substitution".toList
  | signed sign => "Unary(".toList ++ sign.symbol.text ++ [')']
  | binary operator => "Binary(".toList ++ operator.symbol.text ++ [')']
  | set target => "Set(".toList ++ target ++ [')']
  | unset target => "Unset(".toList ++ target ++ [')']
  | puts => "Puts".toList
  | expr => "Expr".toList
  | block text => "Block(".toList ++ text.quoted ++ [')']
  | invoke name => "Invoke(".toList ++ name ++ [')']

/-- How the labels of the kinds of nodes begin. -/
def Heading.beginnings : List Text :=
  ["Num", "Wor", "Var", "Str", "Sub", "Una", "Bin", "Set", "Uns", "Put", "Exp", "Blo", "Inv"].map
    String.toList

/-- The beginning of a label tells the kind of its node. -/
theorem Heading.idxOf_beginning (h : Heading) : beginnings.idxOf (h.text.take 3) = h.ctorIdx := by
  cases h <;> rfl

private theorem eq_of_bracketed {t u : Text} (front : String)
    (same : front.toList ++ t ++ [')'] = front.toList ++ u ++ [')']) : t = u :=
  List.append_cancel_left (List.append_cancel_right same)

private theorem Sign.eq_of_text {s r : Sign} (same : s.symbol.text = r.symbol.text) : s = r := by
  revert same
  cases s <;> cases r <;> decide

private theorem Operator.eq_of_text {o p : Operator} (same : o.symbol.text = p.symbol.text) :
    o = p := by
  revert same
  cases o <;> cases p <;> decide

/-- A label tells what its node is. -/
theorem Heading.text_injective {h k : Heading} (same : h.text = k.text) : h = k := by
  have kind : h.ctorIdx = k.ctorIdx := by rw [← idxOf_beginning, same, idxOf_beginning]
  cases h <;> cases k <;> try cases kind
  case number.number => rw [eq_of_bracketed "Number(" same]
  case word.word => rw [Text.quoted_injective (eq_of_bracketed "Word(" same)]
  case reference.reference => rw [eq_of_bracketed "Variable($" same]
  case signed.signed => rw [Sign.eq_of_text (eq_of_bracketed "Unary(" same)]
  case binary.binary => rw [Operator.eq_of_text (eq_of_bracketed "Binary(" same)]
  case set.set => rw [eq_of_bracketed "Set(" same]
  case unset.unset => rw [eq_of_bracketed "Unset(" same]
  case block.block => rw [Text.quoted_injective (eq_of_bracketed "Block(" same)]
  case invoke.invoke => rw [eq_of_bracketed "Invoke(" same]
  all_goals rfl

/-! ### Lines -/

mutual

/-- The lines of a sketch. -/
def Sketch.outline (level : Nat) : Sketch → List Text
  | .node heading parts => outlineLine level heading.text :: Sketch.outlines (level + 1) parts

/-- The lines of several sketches. -/
def Sketch.outlines (level : Nat) : List Sketch → List Text
  | [] => []
  | first :: rest => first.outline level ++ Sketch.outlines level rest

end

mutual

theorem Expr.outline_eq (level : Nat) : (e : Expr) → e.outline level = e.sketch.outline level
  | .number _ _ | .word _ _ | .reference _ _ => by
    simp only [Expr.outline, Expr.sketch, Sketch.outline, Sketch.outlines]
    rfl
  | .quoted parts _ => by
    rw [Expr.outline, Expr.sketch, Sketch.outline, Expr.outlines_eq (level + 1) parts]
    rfl
  | .substitution commands _ => by
    rw [Expr.outline, Expr.sketch, Sketch.outline, Command.outlines_eq (level + 1) commands]
    rfl
  | .signed sign _ operand => by
    rw [Expr.outline, Expr.sketch, Sketch.outline, Expr.outline_eq (level + 1) operand,
      Sketch.outlines, Sketch.outlines, List.append_nil]
    rfl
  | .binary left operator _ right => by
    rw [Expr.outline, Expr.sketch, Sketch.outline, Expr.outline_eq (level + 1) left,
      Expr.outline_eq (level + 1) right, Sketch.outlines, Sketch.outlines, Sketch.outlines,
      List.append_nil]
    rfl
  | .group inner => by rw [Expr.outline, Expr.sketch, Expr.outline_eq level inner]

theorem Expr.outlines_eq (level : Nat) : (es : List Expr) →
    Expr.outlines level es = Sketch.outlines level (Expr.sketches es)
  | [] => rfl
  | first :: rest => by
    rw [Expr.outlines, Expr.sketches, Sketch.outlines, Expr.outline_eq level first,
      Expr.outlines_eq level rest]

theorem Command.outline_eq (level : Nat) : (c : Command) → c.outline level = c.sketch.outline level
  | .set _ target value => by
    rw [Command.outline, Command.sketch, Sketch.outline, Expr.outline_eq (level + 1) value,
      Sketch.outlines, Sketch.outlines, List.append_nil]
    rfl
  | .unset _ _ | .block _ _ _ => by
    simp only [Command.outline, Command.sketch, Sketch.outline, Sketch.outlines]
    rfl
  | .puts _ value => by
    rw [Command.outline, Command.sketch, Sketch.outline, Expr.outline_eq (level + 1) value,
      Sketch.outlines, Sketch.outlines, List.append_nil]
    rfl
  | .expr _ operand => by
    rw [Command.outline, Command.sketch, Sketch.outline, Expr.outline_eq (level + 1) operand,
      Sketch.outlines, Sketch.outlines, List.append_nil]
    rfl
  | .invoke _ name arguments => by
    rw [Command.outline, Command.sketch, Sketch.outline, Expr.outlines_eq (level + 1) arguments]
    rfl

/-- The outline of commands shows their sketches. -/
theorem Command.outlines_eq (level : Nat) : (cs : List Command) →
    Command.outlines level cs = Sketch.outlines level (Command.sketches cs)
  | [] => rfl
  | first :: rest => by
    rw [Command.outlines, Command.sketches, Sketch.outlines, Command.outline_eq level first,
      Command.outlines_eq level rest]

end

/-! ### Indentation -/

/-- The number of blanks that a line is indented by. -/
def indentation (line : Text) : Nat := (line.takeWhile (· == ' ')).length

/-- A label does not begin with a blank, so its line is indented as far as its level says. -/
theorem indentation_outlineLine (level : Nat) (h : Heading) :
    indentation (outlineLine level h.text) = 2 * level := by
  have begins : h.text.takeWhile (· == ' ') = [] := by cases h <;> rfl
  rw [indentation, outlineLine, List.takeWhile_append_of_pos (by simp), begins]
  simp

mutual

/-- The lines of a sketch are those of its nodes, at its level or deeper. -/
theorem Sketch.exists_of_mem_outline (level : Nat) : (s : Sketch) → ∀ line ∈ s.outline level,
    ∃ depth heading, level ≤ depth ∧ line = outlineLine depth (Heading.text heading)
  | .node heading parts => by
    rw [Sketch.outline, List.forall_mem_cons]
    refine ⟨⟨level, heading, Nat.le_refl _, rfl⟩, fun line inside => ?_⟩
    obtain ⟨depth, own, deeper, same⟩ := Sketch.exists_of_mem_outlines (level + 1) parts line inside
    exact ⟨depth, own, Nat.le_of_succ_le deeper, same⟩

theorem Sketch.exists_of_mem_outlines (level : Nat) : (ss : List Sketch) →
    ∀ line ∈ Sketch.outlines level ss,
      ∃ depth heading, level ≤ depth ∧ line = outlineLine depth (Heading.text heading)
  | [] => by simp [Sketch.outlines]
  | first :: rest => by
    rw [Sketch.outlines, List.forall_mem_append]
    exact ⟨Sketch.exists_of_mem_outline level first, Sketch.exists_of_mem_outlines level rest⟩

end

/-- The lines stand at the level or deeper. -/
theorem Sketch.le_indentation {level : Nat} {ss : List Sketch} {line : Text}
    (inside : line ∈ Sketch.outlines level ss) : 2 * level ≤ indentation line := by
  obtain ⟨depth, heading, deeper, rfl⟩ := Sketch.exists_of_mem_outlines level ss line inside
  rw [indentation_outlineLine]
  omega

/-- No line is empty. -/
theorem Sketch.ne_nil_of_mem_outlines {level : Nat} {ss : List Sketch} {line : Text}
    (inside : line ∈ Sketch.outlines level ss) : line ≠ [] := by
  obtain ⟨depth, heading, -, rfl⟩ := Sketch.exists_of_mem_outlines level ss line inside
  have label : heading.text ≠ [] := by cases heading <;> nofun
  simp [outlineLine, label]

/-- The first of the lines stands at the level. -/
theorem Sketch.indentation_head (level : Nat) (ss : List Sketch) :
    ∀ line ∈ (Sketch.outlines level ss).head?, indentation line = 2 * level := by
  rcases ss with _ | ⟨⟨heading, parts⟩, rest⟩
  · simp [Sketch.outlines]
  · simp [Sketch.outlines, Sketch.outline, indentation_outlineLine]

private theorem takeWhile_append_of_head {α : Type} {p : α → Bool} {as bs : List α}
    (inside : ∀ a ∈ as, p a = true) (stops : ∀ b ∈ bs.head?, p b = false) :
    (as ++ bs).takeWhile p = as := by
  rw [List.takeWhile_append_of_pos inside]
  cases bs with
  | nil => simp
  | cons b rest => simp [stops b rfl]

/-- Lines that stand deeper than a level can be told from those behind them that do not. -/
theorem Sketch.outlines_append_inj {level : Nat} {parts others rest behind : List Sketch}
    (same : Sketch.outlines (level + 1) parts ++ Sketch.outlines level rest =
      Sketch.outlines (level + 1) others ++ Sketch.outlines level behind) :
    Sketch.outlines (level + 1) parts = Sketch.outlines (level + 1) others ∧
      Sketch.outlines level rest = Sketch.outlines level behind := by
  let deeper (line : Text) : Bool := 2 * level < indentation line
  have front (ps qs : List Sketch) : (Sketch.outlines (level + 1) ps ++
      Sketch.outlines level qs).takeWhile deeper = Sketch.outlines (level + 1) ps := by
    refine takeWhile_append_of_head (fun line inside => ?_) fun line first => ?_
    · have bound := Sketch.le_indentation inside
      simp only [deeper, decide_eq_true_eq]
      omega
    · simp [deeper, Sketch.indentation_head level qs line first]
  have first : Sketch.outlines (level + 1) parts = Sketch.outlines (level + 1) others := by
    rw [← front parts rest, same, front]
  rw [first] at same
  exact ⟨first, List.append_cancel_left same⟩

/-- The lines of sketches tell the sketches. -/
theorem Sketch.outlines_injective (level : Nat) : (ss us : List Sketch) →
    Sketch.outlines level ss = Sketch.outlines level us → ss = us
  | [], [], _ => rfl
  | [], .node _ _ :: _, same => by
    simp [Sketch.outlines, Sketch.outline] at same
  | .node _ _ :: _, [], same => by
    simp [Sketch.outlines, Sketch.outline] at same
  | .node heading parts :: rest, .node heading' others :: behind, same => by
    simp only [Sketch.outlines, Sketch.outline, List.cons_append] at same
    obtain ⟨label, lines⟩ := List.cons.inj same
    obtain rfl := Heading.text_injective (List.append_cancel_left label)
    obtain ⟨inner, outer⟩ := Sketch.outlines_append_inj lines
    rw [Sketch.outlines_injective (level + 1) parts others inner,
      Sketch.outlines_injective level rest behind outer]

end TinyTcl
