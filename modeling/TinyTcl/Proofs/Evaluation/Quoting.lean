import TinyTcl.Proofs.Evaluation.Single
import TinyTcl.Proofs.Token.BraceCount
import TinyTcl.Proofs.Token.Template

/-! What a `set` command binds its variable to if its word is quoted. The word is read from the
lexemes that it is cut into, and these do not depend on what stands in front of it
(`Grammar.commands_of_assigned`).

Main statements: a quoted string gives what its parts say (`Template.evaluated`); a text in braces
gives that text, and these are the texts whose braces match (`Text.braced`). -/
namespace TinyTcl

namespace Grammar

variable {name t : Text} {ls : List Lexeme} {P : Expr → Prop}

/-- Where these lexemes are all that is left, the word of a `set` command is read from them. -/
def Assigns (ls : List Lexeme) (P : Expr → Prop) : Prop :=
  ∀ c : Cursor, lexemes c.tokens = ls ++ [.symbol .endOfFile] → ∃ e behind within,
    word 0 .assigned c = .ok e behind within ∧ lexemes behind.tokens = [.symbol .endOfFile] ∧ P e

/-- A `set` command is read from its name and what its word is cut into. -/
theorem commands_of_assigned (bare : BareWord name) (cut : Text.Cuts t ls [])
    (assigns : Assigns ls P) (start : Position) :
    ∃ p e, (program (.ofText ("set ".toList ++ name ++ ' ' :: t) start)).commands =
      .ok [.set p name e] ∧ P e := by
  have value : Text.Cuts (' ' :: t) ls [] := .append .blank cut
  have target : Text.Cuts ("set ".toList ++ name) [.symbol .set, .ofWord name] (' ' :: t ++ []) :=
    .append (.keyword (s := .set) rfl) (.word bare (Text.endsWord_cons endsWord_blank _))
  have whole : lexemes (Cursor.ofText ("set ".toList ++ name ++ ' ' :: t) start).tokens =
      .symbol .set :: .ofWord name :: (ls ++ [.symbol .endOfFile]) :=
    (target.append value).lexemes_ofText start
  obtain ⟨⟨_, p⟩, rest, reads, rfl, tokens, _⟩ := Cursor.reads_of_lexemes whole (by simp)
  obtain ⟨u, behind, named, spelled, tokens, _⟩ :=
    Cursor.reads_of_lexemes tokens (Lexeme.ofWord_ne_symbol rfl name)
  obtain ⟨e, last, within, read, tokens, holds⟩ := assigns behind tokens
  obtain ⟨_, ends⟩ := Cursor.ends_of_lexemes tokens
  have names : u.lexeme.namesVariable = true := spelled ▸ Lexeme.namesVariable_ofWord name
  have less := reads.shorter
  have less' := named.shorter
  have done : command 0 (Cursor.ofText ("set ".toList ++ name ++ ' ' :: t) start) =
      .ok (.set p name e) last (by omega) := by
    rw [command_of_set reads, target_of_reads named names]
    simp only [Reply.andThen, read, Reply.map, spelled, Lexeme.text_ofWord]
  exact ⟨p, e, commands_of_command reads rfl _ done ends, holds⟩

/-- A text in braces is read as a word. -/
theorem assigns_braces (body : Text) :
    Assigns [.symbol .leftBrace, .name body, .symbol .rightBrace] fun e =>
      ∃ t, e = .word body t := by
  intro c tokens
  obtain ⟨⟨_, p⟩, _, opens, rfl, tokens, _⟩ := Cursor.reads_of_lexemes tokens (by simp)
  obtain ⟨⟨_, q⟩, _, name, rfl, tokens, _⟩ := Cursor.reads_of_lexemes tokens (by simp)
  obtain ⟨⟨_, r⟩, behind, closes, rfl, tokens, _⟩ := Cursor.reads_of_lexemes tokens (by simp)
  obtain ⟨room, within, read⟩ := block_of_name 0 p name closes
  obtain ⟨_, _, view⟩ := opens.view
  refine ⟨.word body ⟨.symbol .leftBrace, p⟩, behind, Nat.lt_trans within opens.shorter, ?_, tokens,
    _, rfl⟩
  rw [word, view]
  simp only [read, Reply.map]

end Grammar

namespace Template

/-- The text of a part, where the variables have these values. -/
def Part.text (values : Text → Value) : Part → Text
  | .literal text => text
  | .reference name => (values name).text

/-- The text of all parts. -/
def text (values : Text → Value) (parts : List Part) : Text := parts.flatMap (Part.text values)

/-- In front of these lexemes and a closing quote the parts of a quoted string are read, and their
values are put together to this text. -/
def Joins (around : Surroundings) (m : Machine) (ms : List Lexeme) (text : Text) : Prop :=
  ∀ (c : Cursor) (ls : List Lexeme), TinyTcl.lexemes c.tokens = ms ++ .symbol .rightQuote :: ls →
    ∃ es behind within, Grammar.parts 0 c = .ok es behind within ∧
      TinyTcl.lexemes behind.tokens = ls ∧ Expr.join around es m = .ok text m

section Joins

variable {around : Surroundings} {m : Machine} {ms : List Lexeme} {t : Text}

private theorem joins_nil : Joins around m [] [] := by
  intro c ls tokens
  obtain ⟨⟨_, _⟩, behind, closes, rfl, tokens, _⟩ := Cursor.reads_of_lexemes tokens (by simp)
  exact ⟨[], behind, _, Grammar.parts_of_rightQuote closes, tokens, Expr.join_nil⟩

namespace Joins

variable (h : Joins around m ms t)

include h

private theorem flush (pending : Text) : Joins around m (flush pending ++ ms) (pending ++ t) := by
  cases pending with
  | nil => exact h
  | cons c pending =>
    intro d ls tokens
    obtain ⟨⟨_, _⟩, next, name, rfl, tokens, _⟩ := Cursor.reads_of_lexemes tokens (by simp)
    obtain ⟨es, behind, _, read, tokens, joined⟩ := h next ls tokens
    have word (u : Token) : (Expr.word (c :: pending) u).eval around m =
        .ok (.string (c :: pending)) m := by
      unfold Expr.eval
      rfl
    exact ⟨_, behind, _, Grammar.parts_of_name name read, tokens,
      Expr.join_cons (word _) joined⟩

private theorem reference {name : Text} {value : Value}
    (found : (m.scope around).lookup name = .ok value) :
    Joins around m (.symbol .dollar :: .name name :: ms) (value.text ++ t) := by
  intro c ls tokens
  obtain ⟨⟨_, _⟩, _, dollar, rfl, tokens, _⟩ := Cursor.reads_of_lexemes tokens (by simp)
  obtain ⟨⟨_, _⟩, next, named, rfl, tokens, _⟩ := Cursor.reads_of_lexemes tokens (by simp)
  obtain ⟨es, behind, _, read, tokens, joined⟩ := h next ls tokens
  exact ⟨_, behind, _, Grammar.parts_of_dollar dollar named read, tokens,
    Expr.join_cons (Expr.eval_of_lookup found) joined⟩

end Joins

/-- The lexemes of a template are read as what its parts say. -/
theorem joins_lexemes {values : Text → Value} {parts : List Part}
    (held : ∀ n, .reference n ∈ parts → (m.scope around).lookup n = .ok (values n))
    (pending : Text) :
    Joins around m (lexemes pending parts) (pending ++ text values parts) := by
  induction parts generalizing pending with
  | nil => simpa [lexemes, text] using (@joins_nil around m).flush pending
  | cons part others ih =>
    have later := ih fun n inside => held n (List.mem_cons_of_mem part inside)
    cases part with
    | literal t => simpa [lexemes, text, Part.text] using later (pending ++ t)
    | reference name =>
      have value := held name List.mem_cons_self
      simpa [lexemes, text, Part.text] using ((later []).reference value).flush pending

/-- A quoted word is read as what its parts say. -/
theorem Joins.assigns (h : Joins around m ms t) :
    Grammar.Assigns (.symbol .leftQuote :: (ms ++ [.symbol .rightQuote])) fun e =>
      e.eval around m = .ok (.string t) m := by
  intro c tokens
  obtain ⟨⟨_, p⟩, next, opens, rfl, tokens, _⟩ := Cursor.reads_of_lexemes tokens (by simp)
  obtain ⟨es, behind, _, read, tokens, joined⟩ := h next _ (by simpa using tokens)
  exact ⟨.quoted es p, behind, _, Grammar.word_of_parts opens read, tokens,
    Expr.eval_quoted_of_join joined⟩

end Joins

variable {i : Interpreter} {s : Store} {name : Text} {parts : List Part} {values : Text → Value}

/-- **Quoted templates.** A `set` command whose word is a template between quotes binds its name to
the plain string that the parts say: the literal texts and the texts of the variables, one behind
the other. -/
theorem evaluated (sound : Sound parts) (bare : BareWord name)
    (begins : i.Begins s ("set ".toList ++ name ++ ' ' :: '"' :: (written parts ++ ['"'])))
    (held : ∀ n, .reference n ∈ parts → (s.chain i.scope).lookup n = .ok (values n)) :
    i.Binds s name (.string (text values parts)) := by
  rw [← begins.scope_eq] at held
  obtain ⟨p, e, read, evaluated⟩ :=
    Grammar.commands_of_assigned bare (cuts sound []) (joins_lexemes held []).assigns .start
  exact begins.binds read evaluated

/-- A quote, a dollar sign and a backslash are written with a backslash each; the variable between
them is not. -/
theorem evaluated_of_seven :
    let seven : Value := .number (.integer ⟨7, by decide⟩)
    let s := (Store.empty.add none).2.setBindings 0 (Table.empty.insert ['x'] seven)
    let i := Interpreter.ofScope
      (some (Reader.ofText "set v \"\\\"\\$$x-\\\\\"".toList none .start)) 0 false defaultBanner
    i.Binds s ['v'] (.string "\"$7-\\".toList) := by
  intro seven s i
  let parts : List Part := [.literal ['"', '$'], .reference ['x'], .literal ['-', '\\']]
  have named : startsName 'x' = true ∧ continuesName 'x' = true := by decide +kernel
  have minus : continuesName '-' = false := by decide +kernel
  have sound : Sound parts := by
    constructor
    · simp [parts, Part.Sound, named]
    · simp [parts, Part.Apart, minus]
  have bare : BareWord ['v'] := .name (by decide +kernel) (by simp)
  have orderly : s.Orderly := (Store.orderly_empty.add (by simp)).setBindings 0 _
  have has : s.Has 0 := Store.has_setBindings.mpr (Store.has_add none)
  have begins : i.Begins s ("set ".toList ++ ['v'] ++ ' ' :: '"' :: (written parts ++ ['"'])) :=
    Interpreter.begins_ofScope orderly has _ none defaultBanner
  have held : ∀ n, .reference n ∈ parts → (s.chain i.scope).lookup n = .ok seven := by
    intro n inside
    obtain rfl : n = ['x'] := by simpa [parts] using inside
    rfl
  have said : text (fun _ => seven) parts = "\"$7-\\".toList := by decide +kernel
  exact said ▸ evaluated sound bare begins held

end Template

/-- **Braces.** A text is one word between braces if and only if its braces match. A `set` command
whose word is such a text in braces binds its name to that text, as a plain string. -/
theorem Text.braced (t : Text) :
    (∀ start, lexemes (TokenStream.ofText ('{' :: (t ++ ['}'])) start).tokens =
        [.symbol .leftBrace, .name t, .symbol .rightBrace, .symbol .endOfFile] ∧
      (TokenStream.ofText ('{' :: (t ++ ['}'])) start).fault = none ↔ t.BracesMatch) ∧
    ∀ (name : Text) (i : Interpreter) (s : Store), t.BracesMatch → BareWord name →
      i.Begins s ("set ".toList ++ name ++ ' ' :: '{' :: (t ++ ['}'])) →
      i.Binds s name (.string t) := by
  refine ⟨lexemes_braces_iff t, fun name i s balanced bare begins => ?_⟩
  obtain ⟨p, _, read, u, rfl⟩ := Grammar.commands_of_assigned bare
    (.braces (balanced_iff_bracesMatch.mpr balanced)) (Grammar.assigns_braces t) .start
  refine begins.binds read ?_
  unfold Expr.eval
  rfl

/-- An escaped brace has no partner, and a backslash behind another escapes none. -/
theorem Text.braced_of_escapes :
    let t : Text := ['\\', '}', '{', '\\', '\\', '}']
    let s := (Store.empty.add none).2
    let source := "set v ".toList ++ '{' :: (t ++ ['}'])
    let i := Interpreter.ofScope (some (Reader.ofText source none .start)) 0 false defaultBanner
    t.BracesMatch ∧ i.Binds s ['v'] (.string t) := by
  intro t s source i
  have balanced : t.BracesMatch := balanced_iff_bracesMatch.mp (by decide)
  have bare : BareWord ['v'] := .name (by decide +kernel) (by simp)
  have begins : i.Begins s source :=
    Interpreter.begins_ofScope (Store.orderly_empty.add (by simp)) (Store.has_add none) _ none
      defaultBanner
  exact ⟨balanced, (braced t).2 ['v'] i s balanced bare begins⟩

end TinyTcl
