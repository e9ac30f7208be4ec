import TinyTcl.Proofs.Program.Sound
import TinyTcl.Proofs.Token.Items

/-! Reading a whole text. A text delivers the commands that its tokens are written with, one
statement behind the other (`Grammar.sound_program`). Its delimiters are nested by the scan already,
so the faults of the grammar about something that was opened and not closed never come up
(`delimiters_nest`). -/
namespace TinyTcl

namespace Grammar

open Cursor

/-- A statement of a text is a command and a separator, or a command at the end of the text. -/
theorem sound_statement {c : Cursor} (nested : c.Nested .whole []) :
    match statement c with
    | .ok first rest _ => ∃ ts, Command.Written first ts ∧ rest.Nested .whole [] ∧
        rest.fault = c.fault ∧
        ((∃ t, t.lexeme.isSeparator = true ∧ c.tokens = ts ++ t :: rest.tokens) ∨
          c.tokens = ts ++ rest.tokens ∧ ∃ t here, rest.Ends t here)
    | .fail d _ => ¬ d.IsStructural := by
  have script : InScript [] := by simp [InScript]
  have read : (command 0 c).Sound c [] Command.Written := sound_command nested script
  rw [statement]
  revert read
  cases command 0 c with
  | fail d here => exact id
  | ok first after within =>
    rintro ⟨ts, tokens, written, fault, later⟩
    simp only [Reply.andThen]
    rcases after.view_cases with ⟨t, behind, next⟩ | ⟨t, here, ends⟩ | ⟨d, here, breaks⟩
    · by_cases separates : t.lexeme.isSeparator = true
      · rw [endOfStatement_of_separator next separates]
        obtain ⟨others, _, same⟩ := reads_iff.mp next
        have fault' : behind.fault = after.fault := by rw [same]; rfl
        have last := later.separator script next separates
        refine ⟨ts, written, last.of_same rfl rfl, fault'.trans fault, .inl ⟨t, separates, ?_⟩⟩
        rw [tokens, others]
        rfl
      · rw [endOfStatement_of_other next (by simp [separates]), reject_eq]
        exact later.refusal next.shows rfl 0
    · rw [endOfStatement_of_ends ends]
      obtain ⟨_, _, alone, last, _, ended⟩ := later.ends ends
      have seen : here.tokens = after.tokens := ends.look ▸ after.tokens_look
      have fault' : here.fault = after.fault := ends.look ▸ after.fault_look
      refine ⟨ts, written, ended.of_same rfl rfl, fault'.trans fault, .inr ⟨?_, ?_⟩⟩
      · rw [tokens, ← seen]
        rfl
      · exact ⟨t, _, ends_of_tokens (seen.trans alone) last⟩
    · rw [endOfStatement_of_breaks breaks]
      exact later.breaks breaks

/-- In front of a statement only separators are passed over. -/
theorem sound_skipSeparators {c : Cursor} (nested : c.Nested .whole []) :
    c.skipSeparators.Nested .whole [] ∧ c.skipSeparators.fault = c.fault ∧
      ∃ ts, c.tokens = ts ++ c.skipSeparators.tokens ∧
        ∀ {commands us}, Command.Sequence commands us → Command.Sequence commands (ts ++ us) := by
  fun_induction skipSeparators c with
  | case1 c t rest read shorter view separates ih =>
    have reads : c.Reads t rest := ⟨_, _, view⟩
    obtain ⟨tokens, _, same⟩ := reads_iff.mp reads
    have script : InScript [] := by simp [InScript]
    obtain ⟨later, fault, ts, others, row⟩ := ih (nested.separator script reads separates)
    refine ⟨later, fault.trans (by rw [same]; rfl), t :: ts, ?_, fun written => ?_⟩
    · rw [tokens, others]
      rfl
    · exact .separator separates (row written)
  | case2 | case3 => exact ⟨nested, rfl, [], rfl, id⟩

private theorem program_of_ends {c here : Cursor} {t : Token} (ends : c.Ends t here) :
    program c = .finish here.log := by
  have start : c.skipSeparators = c := skipSeparators_of_not_reads fun _ _ reads =>
    reads.not_ends ends
  have skipped : c.skipSeparators.Ends t here := start.symm ▸ ends
  obtain ⟨_, view⟩ := skipped
  rw [program, view]

/-- A text delivers the commands that its tokens are written with: all tokens up to the end of file
if there is no fault, and none after which something incomplete is found. -/
theorem sound_program {c : Cursor} (nested : c.Nested .whole []) :
    ∃ ts others, c.tokens = ts ++ others ∧ Command.Sequence (program c).delivery.1 ts ∧
      ((program c).delivery.2 = none → c.fault = none ∧
        ∃ t, others = [t] ∧ t.lexeme = .symbol .endOfFile) ∧
      ∀ d, (program c).delivery.2 = some d → ¬ d.IsStructural := by
  induction work : c.workload using Nat.strongRecOn generalizing c with
  | ind size ih =>
    obtain ⟨start, fault, front, tokens, row⟩ := sound_skipSeparators nested
    rw [program]
    rcases c.skipSeparators.view_cases with ⟨t, rest, reads⟩ | ⟨t, here, ends⟩ | ⟨d, here, breaks⟩
    · obtain ⟨_, _, view⟩ := reads.view
      have read := sound_statement start
      rw [view]
      dsimp only
      revert read
      cases same : statement c.skipSeparators with
      | fail d here =>
        intro plain
        refine ⟨[], c.tokens, rfl, .nil, ?_, ?_⟩
        · rintro ⟨⟩
        · rintro _ ⟨⟩
          exact plain
      | ok first rest within =>
        rintro ⟨ts, written, later, fault', behind⟩
        have less : (rest.withLog []).workload < size :=
          work ▸ Nat.lt_of_lt_of_le within c.workload_skipSeparators_le
        have again : (rest.withLog []).Nested .whole [] := later.of_same rfl rfl
        rcases behind with ⟨t, separates, split⟩ | ⟨split, t, here, ends⟩
        · obtain ⟨us, others, tokens', commands, whole, plain⟩ := ih _ less again rfl
          refine ⟨front ++ (ts ++ t :: us), others, ?_, row (.cons written separates commands),
            fun sound => ?_, plain⟩
          · have behind : rest.tokens = us ++ others := tokens'
            rw [tokens, split, behind]
            simp
          · obtain ⟨whole, last⟩ := whole sound
            exact ⟨fault ▸ fault' ▸ whole, last⟩
        · obtain ⟨_, _, alone, last, sound, _⟩ := later.ends ends
          have done := program_of_ends (c := rest.withLog []) (ends_of_tokens alone last)
          simp only [Program.delivery, done]
          refine ⟨front ++ ts, [t], ?_, row (.last written), fun _ => ⟨?_, t, rfl, last⟩, ?_⟩
          · rw [tokens, split, alone]
            simp
          · exact fault ▸ fault' ▸ sound
          · rintro _ ⟨⟩
    · obtain ⟨_, view⟩ := ends.view
      obtain ⟨_, _, alone, last, sound, _⟩ := start.ends ends
      rw [view]
      refine ⟨front, [t], by rw [tokens, alone], ?_, fun _ => ⟨fault ▸ sound, t, rfl, last⟩, ?_⟩
      · have nothing := row .nil
        rwa [List.append_nil] at nothing
      · rintro _ ⟨⟩
    · rw [(breaks : c.skipSeparators.view = _)]
      refine ⟨[], c.tokens, rfl, .nil, ?_, ?_⟩
      · rintro ⟨⟩
      · rintro _ ⟨⟩
        exact start.breaks breaks

end Grammar

theorem nested_ofText (t : Text) (start : Position) :
    (Cursor.ofText t start).Nested .whole [] :=
  ⟨wellNested_ofText t start, fun fault => (cut_ofText t start).lexical fault⟩

/-- The script that a fault is found in has no part in what the fault is about. -/
theorem isStructural_inScript {filename : Option Text} {d : Diagnostic} :
    (Reader.inScript filename d).IsStructural ↔ d.IsStructural := by
  obtain ⟨name, same⟩ := Reader.exists_inScript_eq filename d
  rw [same]
  exact Iff.rfl

/-- **Delimiters are well nested.** The tokens of a text without lexical faults are a row of items
and the end of file: whatever is opened is closed, in order, and only a closing brace, or a closing
bracket outside of all brackets, may stand alone. So whatever a text is refused for, lexical faults
or not, and within a braced expression or not, it is never that a string, a substitution or a block
was not closed or a block had no body. -/
theorem delimiters_nest (source : Text) (filename : Option Text) (start : Position) :
    ((TokenStream.ofText source start).fault = none →
      ∃ row, lexemes (TokenStream.ofText source start).tokens = row ++ [.symbol .endOfFile] ∧
        Items true row) ∧
    ∀ d, (Reader.ofText source filename start).commands = .error d → ¬ d.IsStructural := by
  refine ⟨items_ofText, fun d fails structural => ?_⟩
  obtain ⟨e, read, rfl⟩ := Reader.commands_eq_error.mp fails
  obtain ⟨_, _, _, _, _, plain⟩ := Grammar.sound_program (nested_ofText source start)
  have fault : (Grammar.program (.ofText source start)).delivery.2 = some e :=
    Program.commands_eq_error_iff.mp read
  exact plain e fault (isStructural_inScript.mp structural)

/-- A string with a substitution and a variable in it, behind which a bracket stands alone. -/
theorem delimiters_nest_string :
    (TokenStream.ofText "puts \"a[set b 1]$c\" ]".toList .start).fault = none ∧
    (∃ row, lexemes (TokenStream.ofText "puts \"a[set b 1]$c\" ]".toList .start).tokens =
      row ++ [.symbol .endOfFile] ∧ Items true row) ∧
    ∃ d, (Reader.ofText "puts \"a[set b 1]$c\" ]".toList none .start).commands = .error d ∧
      ¬ d.IsStructural := by
  have nest := delimiters_nest "puts \"a[set b 1]$c\" ]".toList none .start
  have sound : (TokenStream.ofText "puts \"a[set b 1]$c\" ]".toList .start).fault = none := by
    decide +kernel
  have known : (match (Reader.ofText "puts \"a[set b 1]$c\" ]".toList none .start).commands with
      | .ok _ => none
      | .error d => some d.cause) =
      some (.grammar (.afterCommand (.symbol .rightBracket) "puts".toList)) := by
    decide +kernel
  refine ⟨sound, nest.1 sound, ?_⟩
  split at known
  · cases known
  · next d fails => exact ⟨d, fails, nest.2 d fails⟩

end TinyTcl
