import Mathlib.Data.List.TakeWhile
import TinyTcl.CommandLine.Respond

/-! How a script is handed over. The program takes its script from an argument, from the input or from
a file, with flags in front of and behind that argument; each of these command lines asks for the same
script (`respond_commandLine`). -/
namespace TinyTcl

/-- An argument that sets switches and takes no value. -/
inductive Flag where
  | trace
  | ast
  | verbose
  /-- The letter of `verbose`, and as many more of it. -/
  | letters (more : Nat)
deriving DecidableEq

namespace Flag

/-- How a flag is written. -/
def text : Flag → Text
  | trace => "--trace".toList
  | ast => "--ast".toList
  | verbose => "--verbose".toList
  | letters more => '-' :: List.replicate (more + 1) 'v'

/-- The switches that a flag sets. -/
def switches : Flag → List Switch
  | trace => [.trace]
  | ast => [.ast]
  | verbose => [.verbose]
  | letters more => List.replicate (more + 1) .verbose

/-- What a flag is read as. -/
def argument : Flag → Argument
  | trace => .switch .trace .nothing
  | ast => .switch .ast .nothing
  | verbose | letters 0 => .switch .verbose .nothing
  | letters (more + 1) => .switch .verbose (.joined (List.replicate (more + 1) 'v'))

end Flag

/-- Without an equals sign an argument is all name. -/
theorem Argument.split_of_not_mem {t : Text} (plain : '=' ∉ t) : split t = (t, none) := by
  have none : t.dropWhile (· != '=') = [] := by
    refine List.dropWhile_eq_nil_iff.mpr fun c inside => ?_
    rw [bne_iff_ne]
    rintro rfl
    exact plain inside
  rw [split, none]

private theorem Flag.ofText_text (f : Flag) : Argument.ofText f.text = .ok f.argument := by
  cases f with
  | trace | ast | verbose => rfl
  | letters more =>
    cases more with
    | zero => rfl
    | succ more =>
      have spelled : Switch.ofSpelling? (Flag.letters (more + 1)).text = none := rfl
      have plain : '=' ∉ (Flag.letters (more + 1)).text := by
        intro inside
        rcases List.mem_cons.mp inside with same | inside
        · exact absurd same (by decide)
        · exact absurd (List.eq_of_mem_replicate inside) (by decide)
      unfold Argument.ofText
      rw [Argument.split_of_not_mem plain, spelled]
      rfl

private theorem Flag.text_ne_mark (f : Flag) : f.text ≠ ['-', '-'] := by
  cases f with
  | trace | ast | verbose => decide
  | letters more =>
    intro same
    have second : 'v' = '-' := (List.cons.inj (List.cons.inj same).2).1
    exact absurd second (by decide)

/-- A script in an argument of its own switch. -/
theorem Argument.ofText_command (t : Text) :
    ofText ("--command=".toList ++ t) = .ok (.switch .command (.assigned t)) := by
  rfl

/-- Every spelling of a switch has a dash in front. -/
theorem Switch.ofSpelling?_of_head {t : Text} (plain : t.head? ≠ some '-') :
    ofSpelling? t = none := by
  rw [ofSpelling?, List.find?_eq_none]
  intro s _ spelled
  have dash : ∀ u ∈ s.spellings, u.head? = some '-' := by cases s <;> decide
  exact plain (dash t (List.contains_iff_mem.mp spelled))

private theorem Argument.ofText_operand {t : Text} (plain : t.head? ≠ some '-') :
    ofText t = .ok (.operand t) := by
  have spelled := Switch.ofSpelling?_of_head plain
  unfold ofText
  rw [spelled]
  split
  case h_1 same => cases same
  case h_7 => rfl
  all_goals exact absurd rfl plain

/-! ### Reading a command line -/

/-- What hands a script over, besides flags. -/
def Source.arguments : Source → List Text
  | .argument script => ["--command=".toList ++ script]
  | .input => []
  | .file path => [path]

/-- A command line with flags in front of what hands the script over and behind it. -/
def commandLine (before : List Flag) (source : Source) (after : List Flag) : List Text :=
  before.map Flag.text ++ (source.arguments ++ after.map Flag.text)

/-- What hands a script over is read as such: two dashes stand for no script, and the name of a file
must not look like a switch. -/
def Source.IsPlain : Source → Prop
  | .argument script => script ≠ "--".toList
  | .input => True
  | .file path => path.head? ≠ some '-'

instance (source : Source) : Decidable source.IsPlain :=
  match source with
  | .argument script => inferInstanceAs (Decidable (script ≠ "--".toList))
  | .input => .isTrue trivial
  | .file path => inferInstanceAs (Decidable (path.head? ≠ some '-'))

/-- What the arguments that hand a script over are read as. -/
def Source.read : Source → List Argument
  | .argument script => [.switch .command (.assigned script)]
  | .input => []
  | .file path => [.operand path]

namespace Argument

private theorem ofTexts_cons {t : Text} {rest : List Text} (other : t ≠ ['-', '-']) :
    ofTexts (t :: rest) = (do
      let first ← ofText t
      return first :: (← ofTexts rest)) := by
  rw [ofTexts]
  exact other

private theorem ofTexts_flags (fs : List Flag) {rest : List Text} {read : List Argument}
    (others : ofTexts rest = .ok read) :
    ofTexts (fs.map Flag.text ++ rest) = .ok (fs.map Flag.argument ++ read) := by
  induction fs with
  | nil => exact others
  | cons f fs ih =>
    rw [List.map_cons, List.cons_append, ofTexts_cons f.text_ne_mark, f.ofText_text, ih]
    rfl

private theorem ofTexts_commandLine {source : Source} (plain : source.IsPlain)
    (before after : List Flag) :
    ofTexts (commandLine before source after) =
      .ok (before.map Flag.argument ++ (source.read ++ after.map Flag.argument)) := by
  have flags : ofTexts (after.map Flag.text) = .ok (after.map Flag.argument) := by
    have read := @ofTexts_flags after [] [] rfl
    simpa using read
  refine ofTexts_flags before ?_
  cases source with
  | input => exact flags
  | argument script =>
    have other : "--command=".toList ++ script ≠ ['-', '-'] := by
      intro same
      exact absurd (congrArg List.length same) (by simp)
    rw [Source.arguments, List.cons_append, ofTexts_cons other, ofText_command]
    rw [List.nil_append, flags]
    rfl
  | file path =>
    have other : path ≠ ['-', '-'] := by
      rintro rfl
      exact plain rfl
    rw [Source.arguments, List.cons_append, ofTexts_cons other, ofText_operand plain,
      List.nil_append, flags]
    rfl

end Argument

private theorem Row.joined_letters (more : Nat) :
    joined .verbose (List.replicate (more + 1) 'v') =
      .ok ⟨List.replicate (more + 2) .verbose, .nothing⟩ := by
  induction more with
  | zero => rfl
  | succ more ih =>
    rw [List.replicate_succ, joined, if_neg (by decide)]
    have next : Switch.ofLetter? 'v' = some .verbose := rfl
    have others : (List.replicate (more + 1) 'v').isEmpty = false := rfl
    simp only [next, others, ih]
    rfl

/-- A flag is a row of switches with nothing behind it. -/
theorem Flag.exists_row (f : Flag) : ∃ s attached, f.argument = .switch s attached ∧
    Row.ofSwitch s attached = .ok ⟨f.switches, .nothing⟩ ∧ Switch.help ∉ f.switches := by
  cases f with
  | trace | ast | verbose => exact ⟨_, _, rfl, rfl, by decide⟩
  | letters more =>
    have plain : Switch.help ∉ List.replicate (more + 1) Switch.verbose := fun inside =>
      absurd (List.eq_of_mem_replicate inside) (by decide)
    cases more with
    | zero => exact ⟨_, _, rfl, rfl, plain⟩
    | succ more => exact ⟨_, _, rfl, Row.joined_letters more, plain⟩

namespace Options

variable (o : Options) (left : List Text)

private theorem kept_set (s : Switch) :
    (o.set s).script = o.script ∧ (o.set s).program = o.program := by
  cases s <;> exact ⟨rfl, rfl⟩

/-- Switches leave the script and the program. -/
theorem kept_switches (ss : List Switch) :
    (ss.foldl set o).script = o.script ∧ (ss.foldl set o).program = o.program := by
  induction ss generalizing o with
  | nil => exact ⟨rfl, rfl⟩
  | cons s ss ih =>
    obtain ⟨script, program⟩ := ih (o.set s)
    obtain ⟨script', program'⟩ := o.kept_set s
    exact ⟨script.trans script', program.trans program'⟩

private theorem ast_switches (ss : List Switch) :
    (ss.foldl set o).ast = (o.ast || ss.contains .ast) := by
  induction ss generalizing o with
  | nil => simp
  | cons s ss ih =>
    rw [List.foldl_cons, ih]
    cases s <;> simp [set]

/-- The options with the switches of flags. -/
def withFlags (fs : List Flag) : Options := (fs.flatMap Flag.switches).foldl set o

private theorem read_flags (fs : List Flag) (rest : List Argument) :
    read o left (fs.map Flag.argument ++ rest) = read (o.withFlags fs) left rest := by
  induction fs generalizing o with
  | nil => rfl
  | cons f fs ih =>
    obtain ⟨s, attached, argument, row, plain⟩ := f.exists_row
    have kept : o.setRow ⟨f.switches, .nothing⟩ none = f.switches.foldl set o := by
      have script := (o.kept_switches f.switches).1
      unfold setRow
      dsimp only
      rw [← script]
      rfl
    have flags : (f.switches.foldl set o).withFlags fs = o.withFlags (f :: fs) := by
      rw [withFlags, withFlags, List.flatMap_cons, List.foldl_append]
    rw [List.map_cons, List.cons_append, argument, read, row, ← flags, ← ih, ← kept]
    dsimp only
    rw [if_neg (by simpa using plain)]

/-- Only flags are asked for `ast`. -/
theorem ast_withFlags (fs : List Flag) : (o.withFlags fs).ast = (o.ast || fs.contains .ast) := by
  rw [withFlags, ast_switches]
  congr 1
  induction fs with
  | nil => rfl
  | cons f fs ih =>
    rw [List.flatMap_cons, List.contains_append, ih]
    cases f <;> simp [Flag.switches]

private theorem read_script {script : Text} (plain : script ≠ "--".toList) (rest : List Argument) :
    read o left (.switch .command (.assigned script) :: rest) =
      read { o with script := some script } left rest := by
  have row : Row.ofSwitch .command (.assigned script) = .ok ⟨[], .script script⟩ := by
    rw [Row.ofSwitch, Row.assigned, if_pos rfl, Row.withScript, if_neg plain]
  rw [read, row]
  rfl

private theorem read_program (none : o.program = none) (path : Text) {rest : List Argument}
    (other : ∀ more, rest ≠ .mark :: more) :
    read o left (.operand path :: rest) = read { o with program := some path } left rest := by
  have first : o.program.isNone = true := by rw [none]; rfl
  rw [read, if_pos first]
  exact other

/-- The options with what hands a script over. -/
def withSource : Source → Options
  | .argument script => { o with script := some script }
  | .input => o
  | .file path => { o with program := some path }

/-- What a command line with flags asks for. -/
def ofCommandLine (before : List Flag) (source : Source) (after : List Flag) : Options :=
  ((({} : Options).withFlags before).withSource source).withFlags after

private theorem ofTexts_commandLine {source : Source} (plain : source.IsPlain)
    (before after : List Flag) :
    ofTexts (commandLine before source after) = .ok (.run (ofCommandLine before source after)) := by
  have flags (o : Options) :
      read o [] (after.map Flag.argument) = .ok (.run (o.withFlags after)) := by
    have read := o.read_flags [] after []
    rwa [List.append_nil] at read
  have unset := ({} : Options).kept_switches (before.flatMap Flag.switches)
  rw [ofTexts, Argument.ofTexts_commandLine plain]
  change read {} [] _ = _
  rw [read_flags]
  cases source with
  | argument script => exact (read_script _ [] plain _).trans (flags _)
  | input => exact flags _
  | file path =>
    have other : ∀ more, after.map Flag.argument ≠ .mark :: more := by
      intro more same
      cases after with
      | nil => cases same
      | cons f fs =>
        obtain ⟨s, attached, argument, _⟩ := f.exists_row
        rw [List.map_cons, argument] at same
        cases same
    exact (read_program _ [] unset.2 path other).trans (flags _)

private theorem source_commandLine {source : Source} (plain : source.IsPlain)
    (before after : List Flag) :
    (ofCommandLine before source after).source = source := by
  obtain ⟨script, program⟩ := ({} : Options).kept_switches (before.flatMap Flag.switches)
  have kept := ((({} : Options).withFlags before).withSource source).kept_switches
    (after.flatMap Flag.switches)
  rw [Options.source, ofCommandLine, withFlags, kept.1, kept.2]
  cases source with
  | argument script => rfl
  | input => rw [withSource, withFlags, script, program]
  | file path =>
    rw [withSource, withFlags]
    dsimp only
    rw [script]
    split
    · next same => cases same
    · next same => cases same
    · next same =>
      cases same
      exact absurd rfl plain
    · next same =>
      cases same
      rfl

theorem ast_commandLine (before : List Flag) (source : Source) (after : List Flag) :
    (ofCommandLine before source after).ast = (before ++ after).contains .ast := by
  have kept : ((({} : Options).withFlags before).withSource source).ast = before.contains .ast := by
    cases source <;> simp [withSource, ast_withFlags]
  rw [ofCommandLine, ast_withFlags, kept, List.contains_append]

end Options

/-- A source holds a script, among these files and with this input. -/
def Source.Holds (file : Text → Except FileFault Text) (input script : Text) : Source → Prop
  | .argument given => given = script
  | .input => input = script
  | .file path => file path = .ok script

/-- **A script is handed over as it is.** The program does what a command line asks for with the
script that its source holds, wherever that is. -/
theorem respond_commandLine {source : Source} {file : Text → Except FileFault Text}
    {input script : Text} (plain : source.IsPlain) (holds : source.Holds file input script)
    (unix : '\r' ∉ script) (before after : List Flag) :
    respond (commandLine before source after) file input =
      (Options.ofCommandLine before source after).apply script := by
  rw [respond, Options.ofTexts_commandLine plain]
  dsimp only
  rw [Options.source_commandLine plain]
  cases source with
  | argument given =>
    cases holds
    rfl
  | input =>
    cases holds
    dsimp only
    rw [Text.unifyLineEnds_eq_self unix]
  | file path =>
    dsimp only
    rw [(holds : file path = .ok script)]
    dsimp only
    rw [Text.unifyLineEnds_eq_self unix]

end TinyTcl
