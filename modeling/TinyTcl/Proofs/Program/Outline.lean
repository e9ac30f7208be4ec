import TinyTcl.Proofs.Program.Sketch
import TinyTcl.Proofs.Program.Spelling
import TinyTcl.Proofs.Token.OneLine

/-! The outline of a script tells the script. Main statement: `outline_tells_sketch`. What is read
from a text has names and numbers in one line each (`Command.Sequence.lineEnd_not_mem`), and all
other texts are quoted in an outline; so an outline is cut into its lines at its line ends, and the
lines tell the sketch. A printer that keeps the level of the node that it prints (`Printer`) leaves
it as it was (`Command.prints`), so it prints one script after the other as a new one would. -/
namespace TinyTcl

/-! ### One line for each node -/

/-- Whether a word may stand next: not between quotes, and not as the body of a block. -/
def StartsWord (seen : List Lexeme) : Prop :=
  ¬ InQuote seen ∧ seen.getLast? ≠ some (.symbol .leftBrace)

private theorem startsWord_concat {seen : List Lexeme} {l : Lexeme}
    (outside : InScript (l.enclose (enclosing [] seen))) (other : l ≠ .symbol .leftBrace) :
    StartsWord (seen ++ [l]) := by
  refine ⟨?_, by simpa using other⟩
  rw [InQuote, enclosing_append]
  exact outside

/-- Behind a separator a word may stand if the separator is not between quotes. -/
theorem startsWord_separator {seen : List Lexeme} {l : Lexeme} (outside : ¬ InQuote seen)
    (separates : l.isSeparator = true) : StartsWord (seen ++ [l]) := by
  refine startsWord_concat ?_ ?_
  · rw [enclose_of_isSeparator separates]
    exact outside
  · rintro rfl
    cases separates

private theorem lineEnd_not_mem_outlineLine {label : Text} (level : Nat) (plain : '\n' ∉ label) :
    '\n' ∉ outlineLine level label := by
  simp [outlineLine, plain]

private theorem lineEnd_not_mem_bracketed {t : Text} (front : String) (clean : '\n' ∉ front.toList)
    (plain : '\n' ∉ t) : '\n' ∉ front.toList ++ t ++ [')'] := by
  simp [clean, plain]

mutual

/-- The lines of what an operand is written as do not break. -/
theorem Expr.Written.lineEnd_not_mem {e : Expr} {ts : List Token} : Expr.Written e ts →
    ∀ {seen : List Lexeme}, InLines seen (lexemes ts) → ∀ level, ∀ line ∈ e.outline level,
      '\n' ∉ line
  | .number text _, _, plain, level => by
    rw [Expr.outline, List.forall_mem_singleton]
    exact lineEnd_not_mem_outlineLine level (lineEnd_not_mem_bracketed _ (by decide) plain.1)
  | .signedNumber sign digits _ _, _, plain, level => by
    rw [Expr.outline, List.forall_mem_singleton]
    have own : '\n' ∉ sign.symbol.text := by cases sign <;> decide
    have others : '\n' ∉ digits := plain.2.1
    have both : '\n' ∉ sign.symbol.text ++ digits := by simp [own, others]
    exact lineEnd_not_mem_outlineLine level (lineEnd_not_mem_bracketed _ (by decide) both)
  | .word _ _, _, _, level | .symbol _ _, _, _, level | .braced _ _ _ _, _, _, level => by
    rw [Expr.outline, List.forall_mem_singleton]
    exact lineEnd_not_mem_outlineLine level
      (lineEnd_not_mem_bracketed _ (by decide) (Text.lineEnd_not_mem_quoted _))
  | .reference name _ _, seen, plain, level => by
    rw [Expr.outline, List.forall_mem_singleton]
    have own : '\n' ∉ name := plain.2.1 (fun literal => literal.2 (by simp)) (by simp)
    exact lineEnd_not_mem_outlineLine level (lineEnd_not_mem_bracketed _ (by decide) own)
  | .quoted _ _ parts, seen, plain, level => by
    rw [Expr.outline, List.forall_mem_cons]
    rw [lexemes_cons, lexemes_append] at plain
    exact ⟨lineEnd_not_mem_outlineLine level (by decide),
      parts.lineEnd_not_mem (inLines_append.mp plain.2).1 (level + 1)⟩
  | .substitution _ _ row, seen, plain, level => by
    rw [Expr.outline, List.forall_mem_cons]
    rw [lexemes_cons, lexemes_append] at plain
    have starts : StartsWord (seen ++ [.symbol .leftBracket]) :=
      startsWord_concat (by simp [InScript, Lexeme.enclose]) (by simp)
    exact ⟨lineEnd_not_mem_outlineLine level (by decide),
      row.lineEnd_not_mem starts (inLines_append.mp plain.2).1 (level + 1)⟩
  | .signed sign _ operand, _, plain, level => by
    rw [Expr.outline, List.forall_mem_cons]
    have own : '\n' ∉ sign.symbol.text := by cases sign <;> decide
    exact ⟨lineEnd_not_mem_outlineLine level (lineEnd_not_mem_bracketed _ (by decide) own),
      operand.lineEnd_not_mem plain.2 (level + 1)⟩
  | .binary operator _ left right, _, plain, level => by
    rw [Expr.outline, List.forall_mem_cons, List.forall_mem_append]
    rw [lexemes_append] at plain
    obtain ⟨before, behind⟩ := inLines_append.mp plain
    have own : '\n' ∉ operator.symbol.text := by cases operator <;> decide
    exact ⟨lineEnd_not_mem_outlineLine level (lineEnd_not_mem_bracketed _ (by decide) own),
      left.lineEnd_not_mem before (level + 1), right.lineEnd_not_mem behind.2 (level + 1)⟩
  | .group _ _ inner, _, plain, level => by
    rw [Expr.outline]
    rw [lexemes_cons, lexemes_append] at plain
    exact inner.lineEnd_not_mem (inLines_append.mp plain.2).1 level

theorem Expr.AllWritten.lineEnd_not_mem {es : List Expr} {ts : List Token} :
    Expr.AllWritten es ts → ∀ {seen : List Lexeme}, InLines seen (lexemes ts) →
      ∀ level, ∀ line ∈ Expr.outlines level es, '\n' ∉ line
  | .nil, _, _, level => by simp [Expr.outlines]
  | .cons first rest, _, plain, level => by
    rw [Expr.outlines, List.forall_mem_append]
    rw [lexemes_append] at plain
    obtain ⟨before, behind⟩ := inLines_append.mp plain
    exact ⟨first.lineEnd_not_mem before level, rest.lineEnd_not_mem behind level⟩

/-- The lines of what a command is written as do not break. -/
theorem Command.Written.lineEnd_not_mem {c : Command} {ts : List Token} : Command.Written c ts →
    ∀ {seen : List Lexeme}, StartsWord seen → InLines seen (lexemes ts) →
      ∀ level, ∀ line ∈ c.outline level, '\n' ∉ line
  | .set _ _ target value, seen, starts, plain, level => by
    rw [Command.outline, List.forall_mem_cons]
    have next : StartsWord (seen ++ [.symbol .set]) := startsWord_concat starts.1 (by simp)
    have own : '\n' ∉ target := plain.2.1.word next.1 next.2
    exact ⟨lineEnd_not_mem_outlineLine level (lineEnd_not_mem_bracketed _ (by decide) own),
      value.lineEnd_not_mem plain.2.2 (level + 1)⟩
  | .unset _ _ target, seen, starts, plain, level => by
    rw [Command.outline, List.forall_mem_singleton]
    have next : StartsWord (seen ++ [.symbol .unset]) := startsWord_concat starts.1 (by simp)
    have own : '\n' ∉ target := plain.2.1.word next.1 next.2
    exact lineEnd_not_mem_outlineLine level (lineEnd_not_mem_bracketed _ (by decide) own)
  | .puts _ value, _, _, plain, level => by
    rw [Command.outline, List.forall_mem_cons]
    exact ⟨lineEnd_not_mem_outlineLine level (by decide),
      value.lineEnd_not_mem plain.2 (level + 1)⟩
  | .expr _ operand _, _, _, plain, level => by
    rw [Command.outline, List.forall_mem_cons]
    exact ⟨lineEnd_not_mem_outlineLine level (by decide),
      operand.lineEnd_not_mem plain.2 (level + 1)⟩
  | @Command.Written.bracedExpr _ _ q _ body _ _ _ _ _ tokens operand, _, _, _, level => by
    rw [Command.outline, List.forall_mem_cons]
    have inside := inLines_joinLines body q
    rw [tokens, lexemes_append] at inside
    exact ⟨lineEnd_not_mem_outlineLine level (by decide),
      operand.lineEnd_not_mem (inLines_append.mp inside).1 (level + 1)⟩
  | .block _ _ _ _, _, _, _, level => by
    rw [Command.outline, List.forall_mem_singleton]
    exact lineEnd_not_mem_outlineLine level
      (lineEnd_not_mem_bracketed _ (by decide) (Text.lineEnd_not_mem_quoted _))
  | .invoke _ name arguments, _, starts, plain, level => by
    rw [Command.outline, List.forall_mem_cons]
    have own : '\n' ∉ name := plain.1 (fun literal => starts.1 literal.1) starts.2
    exact ⟨lineEnd_not_mem_outlineLine level (lineEnd_not_mem_bracketed _ (by decide) own),
      arguments.lineEnd_not_mem plain.2 (level + 1)⟩

theorem Command.Sequence.lineEnd_not_mem {cs : List Command} {ts : List Token} :
    Command.Sequence cs ts → ∀ {seen : List Lexeme}, StartsWord seen → InLines seen (lexemes ts) →
      ∀ level, ∀ line ∈ Command.outlines level cs, '\n' ∉ line
  | .nil, _, _, _, level => by simp [Command.outlines]
  | .separator separates rest, _, starts, plain, level =>
    rest.lineEnd_not_mem (startsWord_separator starts.1 separates) plain.2 level
  | .last command, _, starts, plain, level => by
    rw [Command.outlines, Command.outlines, List.append_nil]
    exact command.lineEnd_not_mem starts plain level
  | @Command.Sequence.cons _ _ _ here _ first separates rest, seen, starts, plain, level => by
    rw [Command.outlines, List.forall_mem_append]
    rw [lexemes_append] at plain
    obtain ⟨before, behind⟩ := inLines_append.mp plain
    have outside : ¬ InQuote (seen ++ lexemes here) := by
      rw [InQuote, enclosing_append, first.enclosing]
      exact starts.1
    exact ⟨first.lineEnd_not_mem starts before level,
      rest.lineEnd_not_mem (startsWord_separator outside separates) behind.2 level⟩

end

/-- The lines of an accepted text do not break. -/
theorem lineEnd_not_mem_outlines {t : Text} {filename : Option Text} {start : Position}
    {commands : List Command}
    (accepted : (Reader.ofText t filename start).commands = .ok commands) (level : Nat) :
    ∀ line ∈ Command.outlines level commands, '\n' ∉ line := by
  have delivered : (Grammar.program (.ofText t start)).delivery = (commands, none) :=
    Program.delivery_of_commands (Reader.commands_eq_ok.mp accepted)
  obtain ⟨ts, others, tokens, row, -⟩ := Grammar.sound_program (nested_ofText t start)
  have plain := inLines_ofText t start
  rw [show (TokenStream.ofText t start).tokens = ts ++ others from tokens, lexemes_append] at plain
  rw [delivered] at row
  exact row.lineEnd_not_mem ⟨by simp [InQuote], by simp⟩ (inLines_append.mp plain).1 level

/-! ### The text of an outline -/

/-- Lines one below the other tell the lines, if none breaks and none is empty. -/
theorem intercalate_lines_injective {ls ms : List Text} (plain : ∀ l ∈ ls, '\n' ∉ l)
    (filled : ∀ l ∈ ls, l ≠ []) (plain' : ∀ m ∈ ms, '\n' ∉ m) (filled' : ∀ m ∈ ms, m ≠ [])
    (same : List.intercalate ['\n'] ls = List.intercalate ['\n'] ms) : ls = ms := by
  -- No lines at all read as one empty line.
  have cut {ns : List Text} (plain : ∀ n ∈ ns, '\n' ∉ n) (filled : ∀ n ∈ ns, n ≠ []) :
      ns = ((List.intercalate ['\n'] ns).splitOn '\n').filter (· ≠ []) := by
    by_cases none : ns = []
    · subst none
      rfl
    · rw [List.splitOn_intercalate _ plain none]
      exact (List.filter_eq_self.mpr fun n inside => by simpa using filled n inside).symm
  rw [cut plain filled, same, ← cut plain' filled']

/-! ### A printer -/

/-- A printer keeps the level of the node that it prints. -/
abbrev Printer := StateM Nat

namespace Printer

/-- Prints the line of a node. -/
def line (heading : Heading) : Printer Text :=
  return outlineLine (← get) heading.text

/-- Prints nothing. -/
def nothing : Printer (List Text) := return []

/-- Prints one part, and then others. -/
def before (first : Printer Text) (rest : Printer (List Text)) : Printer (List Text) :=
  return (← first) :: (← rest)

/-- Prints the parts of a node one level deeper, and puts the line of the node above them. -/
def nested (heading : Heading) (parts : Printer (List Text)) : Printer Text := do
  modify (· + 1)
  let below ← parts
  modify (· - 1)
  return List.intercalate ['\n'] ((← line heading) :: below)

end Printer

open Printer

mutual

/-- Prints an operand; a group is printed as its content. -/
def Expr.print : Expr → Printer Text
  | .number text _ => line (.number text)
  | .word text _ => line (.word text)
  | .reference name _ => line (.reference name)
  | .quoted parts _ => nested .quoted (Expr.printAll parts)
  | .substitution commands _ => nested .substitution (Command.printAll commands)
  | .signed sign _ operand => nested (.signed sign) (before operand.print nothing)
  | .binary left operator _ right =>
    nested (.binary operator) (before left.print (before right.print nothing))
  | .group inner => inner.print

/-- Prints operands one after the other. -/
def Expr.printAll : List Expr → Printer (List Text)
  | [] => nothing
  | first :: rest => before first.print (Expr.printAll rest)

/-- Prints a command. -/
def Command.print : Command → Printer Text
  | .set _ target value => nested (.set target) (before value.print nothing)
  | .unset _ target => line (.unset target)
  | .puts _ value => nested .puts (before value.print nothing)
  | .expr _ operand => nested .expr (before operand.print nothing)
  | .block _ body _ => line (.block body.text)
  | .invoke _ name arguments => nested (.invoke name) (Expr.printAll arguments)

/-- Prints commands one after the other. -/
def Command.printAll : List Command → Printer (List Text)
  | [] => nothing
  | first :: rest => before first.print (Command.printAll rest)

end

/-- Prints a script. -/
def Printer.script (commands : List Command) : Printer Text := do
  let lines ← Command.printAll commands
  return "Script\n".toList ++ List.intercalate ['\n'] lines

private theorem intercalate_append {ls ms : List Text} (filled : ls ≠ []) (filled' : ms ≠ []) :
    List.intercalate ['\n'] (ls ++ ms) =
      List.intercalate ['\n'] ls ++ ['\n'] ++ List.intercalate ['\n'] ms := by
  induction ls with
  | nil => exact absurd rfl filled
  | cons l rest ih =>
    cases rest with
    | nil =>
      obtain ⟨m, others, rfl⟩ := List.exists_cons_of_ne_nil filled'
      rw [List.singleton_append, List.intercalate_cons_cons, List.intercalate_singleton]
    | cons k rest =>
      have later := ih (by simp)
      simp only [List.cons_append] at later ⊢
      rw [List.intercalate_cons_cons, later, List.intercalate_cons_cons]
      simp only [List.append_assoc]

/-- Lines may be put together in blocks first. -/
theorem intercalate_map_intercalate {blocks : List (List Text)} (filled : ∀ b ∈ blocks, b ≠ []) :
    List.intercalate ['\n'] (blocks.map (List.intercalate ['\n'])) =
      List.intercalate ['\n'] blocks.flatten := by
  induction blocks with
  | nil => rfl
  | cons b rest ih =>
    obtain ⟨own, others⟩ := List.forall_mem_cons.mp filled
    cases rest with
    | nil => simp
    | cons c rest =>
      have below : (c :: rest).flatten ≠ [] := by simp [others c List.mem_cons_self]
      rw [List.flatten_cons, intercalate_append own below, ← ih others]
      exact List.intercalate_cons_cons

namespace Printer

variable {level : Nat} {first : Printer Text} {rest parts : Printer (List Text)}
  {lines others : List Text}

/-- Some lines are printed at a level, and the printer is left at it. -/
def Prints (p : Printer Text) (level : Nat) (lines : List Text) : Prop :=
  lines ≠ [] ∧ p.run level = (List.intercalate ['\n'] lines, level)

/-- So they are, in blocks. -/
def PrintsAll (p : Printer (List Text)) (level : Nat) (lines : List Text) : Prop :=
  ∃ blocks : List (List Text), (∀ b ∈ blocks, b ≠ []) ∧ blocks.flatten = lines ∧
    p.run level = (blocks.map (List.intercalate ['\n']), level)

private theorem run_before (first : Printer Text) (rest : Printer (List Text)) (level : Nat) :
    (before first rest).run level =
      ((first.run level).1 :: (rest.run (first.run level).2).1,
        (rest.run (first.run level).2).2) := rfl

theorem run_nested (heading : Heading) (parts : Printer (List Text)) (level : Nat) :
    (nested heading parts).run level =
      (List.intercalate ['\n'] (outlineLine ((parts.run (level + 1)).2 - 1) heading.text ::
        (parts.run (level + 1)).1), (parts.run (level + 1)).2 - 1) := rfl

private theorem run_below (title : Text) (parts : Printer (List Text)) (level : Nat) :
    (do let lines ← parts; return title ++ List.intercalate ['\n'] lines : Printer Text).run level =
      (title ++ List.intercalate ['\n'] (parts.run level).1, (parts.run level).2) := rfl

private theorem prints_line (heading : Heading) (level : Nat) :
    (line heading).Prints level [outlineLine level heading.text] :=
  ⟨by simp, by rw [List.intercalate_singleton]; rfl⟩

private theorem printsAll_nothing (level : Nat) : nothing.PrintsAll level [] :=
  ⟨[], by simp, rfl, rfl⟩

theorem Prints.before (h : first.Prints level lines) (k : rest.PrintsAll level others) :
    (before first rest).PrintsAll level (lines ++ others) := by
  obtain ⟨filled, run⟩ := h
  obtain ⟨blocks, all, rfl, run'⟩ := k
  refine ⟨lines :: blocks, List.forall_mem_cons.mpr ⟨filled, all⟩, rfl, ?_⟩
  simp only [run_before, run, run', List.map_cons]

private theorem Prints.alone (h : first.Prints level lines) :
    (Printer.before first nothing).PrintsAll level lines := by
  have both := h.before (printsAll_nothing level)
  rwa [List.append_nil] at both

private theorem PrintsAll.nested (heading : Heading) (h : parts.PrintsAll (level + 1) lines) :
    (nested heading parts).Prints level (outlineLine level heading.text :: lines) := by
  obtain ⟨blocks, all, rfl, run⟩ := h
  refine ⟨by simp, ?_⟩
  have filled : ∀ b ∈ [outlineLine level heading.text] :: blocks, b ≠ [] := by simpa using all
  have whole := intercalate_map_intercalate filled
  rw [List.map_cons, List.intercalate_singleton, List.flatten_cons, List.singleton_append] at whole
  simp only [run_nested, run, Nat.add_sub_cancel, whole]

end Printer

mutual

theorem Expr.prints (level : Nat) : (e : Expr) → e.print.Prints level (e.outline level)
  | .number text _ => by
    rw [Expr.print, Expr.outline]
    exact prints_line (.number text) level
  | .word text _ => by
    rw [Expr.print, Expr.outline]
    exact prints_line (.word text) level
  | .reference name _ => by
    rw [Expr.print, Expr.outline]
    exact prints_line (.reference name) level
  | .quoted parts _ => by
    rw [Expr.print, Expr.outline]
    exact (Expr.printsAll (level + 1) parts).nested .quoted
  | .substitution commands _ => by
    rw [Expr.print, Expr.outline]
    exact (Command.printsAll (level + 1) commands).nested .substitution
  | .signed sign _ operand => by
    rw [Expr.print, Expr.outline]
    exact (Expr.prints (level + 1) operand).alone.nested (.signed sign)
  | .binary left operator _ right => by
    rw [Expr.print, Expr.outline]
    exact ((Expr.prints (level + 1) left).before (Expr.prints (level + 1) right).alone).nested
      (.binary operator)
  | .group inner => by
    rw [Expr.print, Expr.outline]
    exact Expr.prints level inner

theorem Expr.printsAll (level : Nat) : (es : List Expr) →
    (Expr.printAll es).PrintsAll level (Expr.outlines level es)
  | [] => by
    rw [Expr.printAll, Expr.outlines]
    exact printsAll_nothing level
  | first :: rest => by
    rw [Expr.printAll, Expr.outlines]
    exact (Expr.prints level first).before (Expr.printsAll level rest)

/-- A printer prints the outline of a command at its level. -/
theorem Command.prints (level : Nat) : (c : Command) → c.print.Prints level (c.outline level)
  | .set _ target value => by
    rw [Command.print, Command.outline]
    exact (Expr.prints (level + 1) value).alone.nested (.set target)
  | .unset _ target => by
    rw [Command.print, Command.outline]
    exact prints_line (.unset target) level
  | .puts _ value => by
    rw [Command.print, Command.outline]
    exact (Expr.prints (level + 1) value).alone.nested .puts
  | .expr _ operand => by
    rw [Command.print, Command.outline]
    exact (Expr.prints (level + 1) operand).alone.nested .expr
  | .block _ body _ => by
    rw [Command.print, Command.outline]
    exact prints_line (.block body.text) level
  | .invoke _ name arguments => by
    rw [Command.print, Command.outline]
    exact (Expr.printsAll (level + 1) arguments).nested (.invoke name)

theorem Command.printsAll (level : Nat) : (cs : List Command) →
    (Command.printAll cs).PrintsAll level (Command.outlines level cs)
  | [] => by
    rw [Command.printAll, Command.outlines]
    exact printsAll_nothing level
  | first :: rest => by
    rw [Command.printAll, Command.outlines]
    exact (Command.prints level first).before (Command.printsAll level rest)

end

/-- A new printer prints the outline of a script, and is as new behind it. -/
theorem Printer.run_script (commands : List Command) :
    (script commands).run 0 = (outline commands, 0) := by
  obtain ⟨blocks, filled, flat, run⟩ := Command.printsAll 0 commands
  unfold script outline
  rw [run_below, run, intercalate_map_intercalate filled, flat]

/-- So it prints scripts one after the other. -/
theorem Printer.run_mapM_script (scripts : List (List Command)) :
    (scripts.mapM script).run 0 = (scripts.map outline, 0) := by
  induction scripts with
  | nil => rfl
  | cons first rest ih =>
    rw [List.mapM_cons]
    exact (run_before (script first) (rest.mapM script) 0).trans (by rw [run_script, ih]; rfl)

/-- **The outline tells the script.** For texts that are accepted, the outlines are the same if and
only if the scripts have the same nodes in the same order: the same kinds with the same texts, names
and operators, and the same parts, where groups count as their content and places do not count. A
printer that was used for any scripts before prints each script as a new one would, and whatever it
prints leaves its level as it was. -/
theorem outline_tells_sketch {t u : Text} {filename filename' : Option Text}
    {start start' : Position} {commands others : List Command}
    (accepted : (Reader.ofText t filename start).commands = .ok commands)
    (accepted' : (Reader.ofText u filename' start').commands = .ok others) :
    (outline commands = outline others ↔ Command.sketches commands = Command.sketches others) ∧
      (∀ scripts : List (List Command),
        (scripts.mapM Printer.script).run 0 = (scripts.map outline, 0)) ∧
      ∀ level, (∀ c : Command, (c.print.run level).2 = level) ∧
        ∀ e : Expr, (e.print.run level).2 = level := by
  have filled {cs : List Command} : ∀ l ∈ Command.outlines 0 cs, l ≠ [] := by
    rw [Command.outlines_eq]
    exact fun _ => Sketch.ne_nil_of_mem_outlines
  refine ⟨⟨fun same => ?_, fun same => ?_⟩, Printer.run_mapM_script, fun level =>
    ⟨fun c => ?_, fun e => ?_⟩⟩
  · unfold outline at same
    rw [List.append_cancel_left_eq] at same
    have lines : Command.outlines 0 commands = Command.outlines 0 others :=
      intercalate_lines_injective (lineEnd_not_mem_outlines accepted 0) filled
        (lineEnd_not_mem_outlines accepted' 0) filled same
    rw [Command.outlines_eq, Command.outlines_eq] at lines
    exact Sketch.outlines_injective 0 _ _ lines
  · unfold outline
    rw [Command.outlines_eq, Command.outlines_eq, same]
  · rw [(Command.prints level c).2]
  · rw [(Expr.prints level e).2]

/-- A text with groups and one without braces around an expression, and a word that goes over two
lines. -/
theorem outline_tells_sketch_group :
    let t := "set x \x7ba\nb\x7d; expr ((1 + 2) * 3)".toList
    let u := "set x \x7ba\nb\x7d\nexpr \x7b (1+2) *(3)\n\x7d".toList
    ∃ commands others, (Reader.ofText t none .start).commands = .ok commands ∧
      (Reader.ofText u none .start).commands = .ok others ∧
      outline commands = outline others ∧ Command.sketches commands = Command.sketches others := by
  intro t u
  have shown : (Reader.ofText t none .start).commands.toOption.map outline =
      (Reader.ofText u none .start).commands.toOption.map outline := by decide +kernel
  have read : (Reader.ofText t none .start).commands.toOption.isSome = true := by decide +kernel
  cases accepted : (Reader.ofText t none .start).commands with
  | error d =>
    rw [accepted] at read
    cases read
  | ok commands =>
    cases accepted' : (Reader.ofText u none .start).commands with
    | error d =>
      rw [accepted, accepted'] at shown
      cases shown
    | ok others =>
      rw [accepted, accepted'] at shown
      have same : outline commands = outline others := Option.some.inj shown
      exact ⟨commands, others, rfl, rfl, same, (outline_tells_sketch accepted accepted').1.mp same⟩

end TinyTcl
