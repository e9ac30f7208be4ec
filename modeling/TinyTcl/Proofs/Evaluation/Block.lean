import TinyTcl.Proofs.Evaluation.Batch
import TinyTcl.Proofs.Evaluation.Culprit
import TinyTcl.Proofs.Program.Braced
import TinyTcl.Proofs.Session.Sound
import TinyTcl.Proofs.Token.Braces

/-! A block is a script in a scope of its own. A text in braces is read as one command that holds
what the text delivers from where it stands (`Grammar.commands_of_braces`). Carrying that command
out opens a scope and closes it again. A script that an interpreter runs in a new scope inside the
same one finds there what the block finds, so both come to the same end (`Interpreter.SameEnd`).
Main statement: `Session.run_of_braces`. -/
namespace TinyTcl

namespace Grammar

/-- A balanced text in braces is one block, which holds what the text delivers by itself. -/
theorem commands_of_braces {body : Text} (balanced : Balanced body) (start : Position) :
    (program (.ofText ('{' :: body ++ ['}']) start)).commands =
      .ok [.block start ⟨body, start.next '{'⟩ (program (.ofText body (start.next '{')))] := by
  have cut : Scanned.ofText ('{' :: body ++ ['}']) = ⟨[.token (.symbol .leftBrace) ['{'],
      .token (.name body) body, .token (.symbol .rightBrace) ['}']], none⟩ := by
    refine (scan_block (balanced_iff.mp balanced)).trans ?_
    simp [scan, Scanned.behind]
  have tokens : (Cursor.ofText ('{' :: body ++ ['}']) start).tokens =
      ⟨.symbol .leftBrace, start⟩ :: ⟨.name body, start.next '{'⟩ ::
        ⟨.symbol .rightBrace, (start.next '{').after body⟩ ::
          [.ofSymbol .endOfFile (start.after ('{' :: body ++ ['}']))] := by
    unfold Cursor.ofText TokenStream.ofText
    rw [cut]
    rfl
  obtain ⟨_, brace, tokens, _⟩ := Cursor.exists_reads_of_tokens tokens (by simp)
  obtain ⟨_, content, tokens, _⟩ := Cursor.exists_reads_of_tokens tokens (by simp)
  obtain ⟨_, closes, last, _⟩ := Cursor.exists_reads_of_tokens tokens (by simp)
  obtain ⟨_, within, read⟩ := block_of_name 0 start content closes
  exact commands_of_command brace rfl (Nat.lt_trans within brace.shorter)
    (command_of_leftBrace brace read) (Cursor.ends_of_tokens last rfl)

end Grammar

/-- How a command that was not traced ends when it is a block: as its program did in a new scope,
without what was bound there. -/
theorem Eval.carryOut_block (around : Surroundings) (untraced : around.tracing = false)
    (p : Position) (body : Block) (program : Program) (m : Machine) {q : Progress}
    (ran : program.run { around with outer := .link m.bindings around.outer } .empty
      { m with bindings := .empty } = q) :
    carryOut around (.block p body program) ((Command.block p body program).perform around) m =
      match q.failure with
      | none => .ok q.value { q.machine with bindings := m.bindings }
      | some failure => .error (failure.mapDiagnostic (locate (.block p body program)))
          { q.machine with bindings := m.bindings } := by
  unfold carryOut
  rw [untraced, if_neg Bool.false_ne_true, mapDiagnostic, Command.perform]
  unfold inChild
  dsimp only
  rw [ran]
  obtain ⟨failure, value, n⟩ := q
  cases failure with
  | none => rfl
  | some failure => rfl

/-- What stops a text has a place already: the command that holds the text adds none. -/
theorem Failure.mapDiagnostic_locate {body : Text} {p : Position} {around : Surroundings}
    {last : Value} {m : Machine} {failure : Failure}
    (stopped : ((Grammar.program (.ofText body p)).run around last m).failure = some failure)
    (c : Command) : failure.mapDiagnostic (Eval.locate c) = failure := by
  cases failure with
  | diagnostic d =>
    have blames := Program.blames_run rfl last _ (placed_program body p) m d stopped
    obtain ⟨q, place, _⟩ := blames.place
    exact congrArg diagnostic (Eval.locate_of_standsAt place c)
  | _ => rfl

private theorem Command.sequence_singleton (around : Surroundings) (last : Value) (c : Command)
    {m : Machine} :
    sequence around last [c] m = Eval.carryOut around c (c.perform around) m := by
  cases done : Eval.carryOut around c (c.perform around) m with
  | ok value n => exact sequence_cons_ok done
  | error failure n => exact sequence_cons_error done

namespace Interpreter

/-- Turns that come to the same end, be it a value or a failure, with the same output. -/
structure SameEnd (t u : Turn Value) : Prop where
  outcome : u.outcome = t.outcome
  output : u.interpreter.output = t.interpreter.output

private theorem SameTurn.sameEnd {t u : Turn Value} (h : SameTurn t u) : SameEnd t u := by
  obtain ⟨tracing, trace, same⟩ := h.interpreter
  exact ⟨h.outcome, by rw [same]⟩

private theorem SameEnd.symm {t u : Turn Value} (h : SameEnd t u) : SameEnd u t :=
  ⟨h.outcome.symm, h.output.symm⟩

private theorem SameEnd.trans {t u v : Turn Value} (h : SameEnd t u) (k : SameEnd u v) :
    SameEnd t v :=
  ⟨k.outcome.trans h.outcome, k.output.trans h.output⟩

/-- How a turn ends after the program of the text has got so far. -/
structure EndsWith (filename : Option Text) (q : Progress) (t : Turn Value) : Prop where
  outcome : t.outcome = q.failure.elim (.ok q.value) fun failure =>
    .error (failure.mapDiagnostic (·.inFile filename))
  output : t.interpreter.output = q.machine.output

section Ends

variable {filename : Option Text} {p q : Progress} {t u : Turn Value}

private theorem Ending.endsWith {i : Interpreter} {s : Store} (h : i.Ending s p t) :
    EndsWith i.filename p t := by
  obtain ⟨notes, rfl⟩ := h
  exact ⟨rfl, rfl⟩

private theorem EndsWith.congr (h : EndsWith filename p t) (same : q.Like True p) :
    EndsWith filename q t :=
  ⟨by rw [h.outcome, same.failure, same.value], by rw [h.output, same.machine.output]⟩

private theorem EndsWith.sameEnd (h : EndsWith filename q t) (k : EndsWith filename q u) :
    SameEnd t u :=
  ⟨k.outcome.trans h.outcome.symm, k.output.trans h.output.symm⟩

end Ends

/-- A script in a new scope finds there what a block finds. -/
theorem around_inChild (i : Interpreter) {s : Store} (orderly : s.Orderly) (has : s.Has i.given) :
    (i.inChild s).2.around (i.inChild s).1.scope =
      .link (s.bindings i.given) (s.around i.given) :=
  (orderly.around_add has).trans (orderly.chain_eq has)

section Runs

variable (filename : Option Text) (banner : Text) (body : Text) (c : ScopeId)

/-- An interpreter that runs a text as a block. -/
def ofBlock : Interpreter :=
  ofScope (some (Reader.ofText ('{' :: body ++ ['}']) filename .start)) c false banner

/-- An interpreter that runs a text as a script of its own, from where it stands in the block. -/
def ofBody : Interpreter :=
  ofScope (some (Reader.ofText body filename ⟨1, 2⟩)) c false banner

variable {body c} {s : Store}

/-- The run of a block ends as its program does in a new scope, and changes no scope. -/
theorem run_ofBlock (orderly : s.Orderly) (has : s.Has c) (balanced : Balanced body) {q : Progress}
    (ran : (Grammar.program (.ofText body ⟨1, 2⟩)).run
      ⟨false, filename, .link (s.bindings c) (s.around c)⟩ .empty ⟨.empty, banner, [], []⟩ = q) :
    EndsWith filename q ((ofBlock filename banner body c).run s) ∧
      ((ofBlock filename banner body c).run s).store = s := by
  let i := ofBlock filename banner body c
  let block := Command.block .start ⟨body, ⟨1, 2⟩⟩ (Grammar.program (.ofText body ⟨1, 2⟩))
  have follows : i.Follows s filename [block] none (i.run s) := by
    have delivered := Program.delivery_of_commands (Grammar.commands_of_braces balanced .start)
    have follows := follows_run (fresh_ofScope ('{' :: body ++ ['}']) filename c false banner) s
    rw [Reader.program, Reader.ofText, delivered] at follows
    exact follows
  obtain ⟨outcome, store, output⟩ := follows.outcome
  have carried := Eval.carryOut_block (i.surroundings s c) rfl .start ⟨body, ⟨1, 2⟩⟩
    (Grammar.program (.ofText body ⟨1, 2⟩)) (i.machine s c) ran
  rw [← Command.sequence_singleton _ .empty] at carried
  obtain ⟨failure, value, m⟩ := q
  cases failure with
  | none =>
    rw [execute_of_ok carried] at outcome store output
    exact ⟨⟨outcome, output⟩, store.trans (orderly.setBindings_self has)⟩
  | some failure =>
    have located := Failure.mapDiagnostic_locate (congrArg Progress.failure ran)
    rw [execute_of_error carried, located] at outcome
    rw [execute_of_error carried] at store output
    exact ⟨⟨outcome, output⟩, store.trans (orderly.setBindings_self has)⟩

variable (body) in
/-- The run of a script in a new scope ends as its program does there. -/
theorem run_ofBody (orderly : s.Orderly) (has : s.Has c) {q : Progress}
    (ran : (Grammar.program (.ofText body ⟨1, 2⟩)).run
      ⟨false, filename, .link (s.bindings c) (s.around c)⟩ .empty ⟨.empty, banner, [], []⟩ = q) :
    let child := (ofBody filename banner body c).inChild s
    EndsWith filename q (child.1.run child.2) := by
  let i := ofBody filename banner body c
  have around : (i.inChild s).1.surroundings (i.inChild s).2 (i.inChild s).1.scope =
      ⟨false, filename, .link (s.bindings c) (s.around c)⟩ :=
    congrArg (Surroundings.mk false filename) (i.around_inChild orderly has)
  have fresh : (i.inChild s).2.bindings (i.inChild s).1.scope = .empty := by
    apply orderly.bindings_add
    rintro _ ⟨⟩
    exact has
  have ends := ending_run (i := (i.inChild s).1) (i.inChild s).2 rfl rfl
  rw [around] at ends
  have alike : q.Like True ((Grammar.program (.ofText body ⟨1, 2⟩)).run
      ⟨false, filename, .link (s.bindings c) (s.around c)⟩ .empty
      (((i.inChild s).1.machine (i.inChild s).2 (i.inChild s).1.scope).note
        [.started (scriptName filename)])) := by
    rw [← ran]
    exact Program.like_progress (.refl _) _ .empty _ _ ⟨fresh, rfl, fun _ => rfl⟩
  exact ends.endsWith.congr alike

end Runs

end Interpreter

namespace Session

open Interpreter

/-- **A block is a script in a scope of its own.** Let a host program have done what it likes, and
let a scope and all scopes around it exist. A script that is nothing but a balanced text in braces
comes to the same end there as the text itself does in a new scope inside it, read from where it
stands in the block: the same value or the same failure, with its message and place, and the same
output. Neither of them changes what the scope binds. -/
theorem run_of_braces {requests : List Request} {c : ScopeId} {body : Text}
    (live : ((empty.performAll requests).2.store.chain c).isWhole = true)
    (balanced : Balanced body) (filename : Option Text) (tracing : Bool) (banner : Text) :
    let s := (empty.performAll requests).2.store
    let block := (ofScope (some (Reader.ofText ('{' :: body ++ ['}']) filename .start)) c tracing
      banner).run s
    let inner := (ofScope (some (Reader.ofText body filename ⟨1, 2⟩)) c tracing banner).inChild s
    let script := inner.1.run inner.2
    script.outcome = block.outcome ∧ script.interpreter.output = block.interpreter.output ∧
      block.store.bindings c = s.bindings c ∧ script.store.bindings c = s.bindings c := by
  have orderly := (sound_performAll requests).orderly
  generalize (empty.performAll requests).2.store = s at live orderly
  have has := Store.has_of_isWhole live
  have chain := orderly.chain_eq has
  -- Tracing has no part in it.
  have blocks := sameTurn_run (ofBlock filename banner body c) tracing s
    (by rwa [chain] at live)
  have scripts := sameTurn_run ((ofBody filename banner body c).inChild s).1 tracing
    ((ofBody filename banner body c).inChild s).2
    ((isWhole_around_inChild _ s).trans live)
  obtain ⟨block, same⟩ := run_ofBlock filename banner orderly has balanced rfl
  have script := run_ofBody filename banner body orderly has rfl
  have ends := (blocks.sameEnd.symm.trans (block.sameEnd script)).trans scripts.sameEnd
  refine ⟨ends.outcome, ends.output, ?_, bindings_run_inChild _ orderly has⟩
  exact congrArg (·.bindings c) (blocks.store.trans same)

/-- A body with a block and an escaped brace in it that fails halfway. -/
theorem run_of_braces_quotient :
    let requests : List Request :=
      [.openRoot ['g'], .define ['g'] ['x'] (.text ['1']), .openChild ['h'] ['g']]
    let body := "set x \"\\\x7d\"\n\x7bset x 2\x7d; puts [expr $x / 0]".toList
    let s := (empty.performAll requests).2.store
    let block := (ofScope (some (Reader.ofText ('{' :: body ++ ['}']) none .start)) 1 true
      defaultBanner).run s
    let inner := (ofScope (some (Reader.ofText body none ⟨1, 2⟩)) 1 true defaultBanner).inChild s
    let script := inner.1.run inner.2
    (s.chain 1).isWhole = true ∧ Balanced body ∧
      script.outcome = block.outcome ∧ script.interpreter.output = block.interpreter.output ∧
      block.store.bindings 1 = s.bindings 1 ∧ script.store.bindings 1 = s.bindings 1 := by
  intro requests body s block inner script
  have live : (s.chain 1).isWhole = true := by decide
  have balanced : Balanced body := by decide
  exact ⟨live, balanced, run_of_braces live balanced none true defaultBanner⟩

end Session

end TinyTcl
