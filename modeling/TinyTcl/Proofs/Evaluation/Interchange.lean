import TinyTcl.Proofs.Evaluation.Comparison
import TinyTcl.Proofs.Number.Decimal

/-! Every integer is a string. A value that holds an integer and its text alone are used alike: they
have the same text, and the text reads back as the integer (`Value.toNumber_plain`). So stores that
differ in that way alone are two sides of a comparison, and scripts cannot tell them apart. Main
statement: `Interpreter.run_interchange`. -/
namespace TinyTcl

/-- The value without the integer that it holds: its text. -/
def Value.plain : Value → Value
  | number (.integer n) => string (Number.integer n).text
  | v => v

/-- The values of a scope without the integers that they hold. -/
def Bindings.plain (b : Bindings) : Bindings := b.map Value.plain

/-- The names of a scope in their order, each with the text of its value. -/
def Bindings.texts (b : Bindings) : List (Text × Text) := b.entries.map fun e => (e.1, e.2.text)

/-- The chain without the integers that are held in it. -/
def Chain.plain : Chain → Chain
  | root => root
  | lost => lost
  | link b outer => link b.plain outer.plain

/-- The store without the integers that are held in it. -/
def Store.plain (s : Store) : Store :=
  { s with scopes := s.scopes.map fun scope => { scope with bindings := scope.bindings.plain } }

namespace Value

private theorem text_plain (v : Value) : v.plain.text = v.text := by
  unfold plain
  split
  · rfl
  · rfl

/-- A value is used as the number that its text reads as. -/
theorem toNumber_plain (v : Value) (place : Place) : v.plain.toNumber place = v.toNumber place := by
  unfold plain
  split
  · next n => simp only [toNumber, Number.text, Number.ofText?_ofInt]
  · rfl

private theorem held?_eq_integer {v : Value} {n : Integer} (held : v.held? = some (.integer n)) :
    v = number (.integer n) := by
  cases v with
  | string t => cases held
  | number m => exact congrArg number (Option.some.inj held)

end Value

private theorem Bindings.texts_plain (b : Bindings) : b.plain.texts = b.texts := by
  simp only [texts, plain, Table.map, List.map_map, Function.comp_def, Value.text_plain]

namespace Chain

private theorem lookup_plain (c : Chain) (name : Text) :
    c.plain.lookup name = (c.lookup name).map Value.plain := by
  induction c with
  | root => rfl
  | lost => rfl
  | link b outer ih =>
    rw [plain, lookup, lookup, Bindings.plain, Table.find?_map]
    cases b.find? name with
    | none => exact ih
    | some v => rfl

private theorem depth_plain (c : Chain) : c.plain.depth = c.depth := by
  induction c with
  | root => rfl
  | lost => rfl
  | link b outer ih => simp only [plain, depth, ih]

end Chain

/-- Values, and chains of scopes, that differ in the integers that they hold alone. -/
def interchange : Comparison where
  names _ := True
  values v w := w.plain = v.plain
  chains c c' := c'.plain = c.plain
  refl _ := rfl
  text {v w} same := by rw [← w.text_plain, same, v.text_plain]
  toNumber {v w} place same := by rw [← w.toNumber_plain, same, v.toNumber_plain]
  lookup {c c' name} same _ := by
    have both := (c'.lookup_plain name).symm.trans ((congrArg (Chain.lookup name) same).trans
      (c.lookup_plain name))
    cases here : c.lookup name <;> cases there : c'.lookup name <;> rw [here, there] at both
    case ok.ok v w => exact .inl ⟨v, w, rfl, rfl, Except.ok.inj both⟩
    case error.error e f => exact .inr ⟨e, rfl, congrArg _ (Except.error.inj both)⟩
    all_goals cases both
  insert {b b' outer outer' name v w} same _ related := by
    obtain ⟨bindings, around⟩ := Chain.link.inj same
    have bound : (b'.insert name w).map Value.plain = (b.insert name v).map Value.plain := by
      rw [Table.map_insert, Table.map_insert, related]
      exact congrArg (·.insert name v.plain) bindings
    change Chain.link ((b'.insert name w).map Value.plain) outer'.plain = _
    rw [bound, around]
    rfl
  erase {b b' outer outer' name} same _ := by
    obtain ⟨bindings, around⟩ := Chain.link.inj same
    have erased : (b'.erase name).map Value.plain = (b.erase name).map Value.plain := by
      rw [Table.map_erase, Table.map_erase]
      exact congrArg (·.erase name) bindings
    change Chain.link ((b'.erase name).map Value.plain) outer'.plain = _
    rw [erased, around]
    rfl
  contains {b b' outer outer' name} same _ := by
    obtain ⟨bindings, around⟩ := Chain.link.inj same
    rw [← Table.contains_map Value.plain b, ← Table.contains_map Value.plain b']
    exact congrArg (·.contains name) bindings
  depth {b b' outer outer'} same := by
    obtain ⟨bindings, around⟩ := Chain.link.inj same
    rw [← outer.depth_plain, ← outer'.depth_plain, around]
  enter same := congrArg (Chain.link Table.empty) same

namespace Store

private theorem chainIn_plain (scopes : List Scope) (id : Option ScopeId) :
    chainIn (scopes.map fun scope => { scope with bindings := scope.bindings.plain }) id =
      (chainIn scopes id).plain := by
  induction scopes generalizing id with
  | nil => cases id <;> rfl
  | cons scope older ih =>
    cases id with
    | none => rfl
    | some id =>
      simp only [List.map_cons, chainIn, ih]
      split
      · rfl
      · rfl

private theorem find?_plain (s : Store) (id : ScopeId) :
    s.plain.find? id =
      (s.find? id).map fun scope => { scope with bindings := scope.bindings.plain } := by
  unfold find? plain
  rw [List.find?_map]
  rfl

private theorem bindings_plain (s : Store) (id : ScopeId) :
    s.plain.bindings id = (s.bindings id).plain := by
  unfold bindings
  rw [find?_plain]
  cases s.find? id with
  | none => rfl
  | some scope => rfl

private theorem around_plain (s : Store) (id : ScopeId) :
    s.plain.around id = (s.around id).plain := by
  unfold around
  rw [find?_plain]
  cases s.find? id with
  | none => rfl
  | some scope => exact chainIn_plain s.scopes scope.parent

private theorem setBindings_plain (s : Store) (id : ScopeId) (b : Bindings) :
    (s.setBindings id b).plain = s.plain.setBindings id b.plain := by
  unfold setBindings modify plain
  simp only [List.map_map]
  congr 1
  apply List.map_congr_left
  intro scope _
  by_cases here : scope.id = id <;> simp [here]

/-- In stores that differ in that alone, a scope sees the same but for held integers. -/
theorem interchange_chains {s t : Store} (same : t.plain = s.plain) (id : ScopeId) :
    interchange.chains (.link (s.bindings id) (s.around id))
      (.link (t.bindings id) (t.around id)) := by
  change Chain.link (t.bindings id).plain (t.around id).plain =
    .link (s.bindings id).plain (s.around id).plain
  rw [← bindings_plain, ← bindings_plain, ← around_plain, ← around_plain, same]

end Store

namespace Interpreter

/-- **Every integer is a string.** Let two stores be equal but for values that hold an integer in
one of them and are the text of it in the other. Then a script, whatever it does, runs alike in
both: the outcome is the same failure, or values of the same text, with the same output and trace,
the interpreter ends at the same stage with a result of the same text, and all scopes bind the same
names, in the same order, to values of the same texts. Indeed every value that holds an integer has
a 64-bit integer's decimal form for its text, and that reads as the integer. -/
theorem run_interchange (i : Interpreter) {s t : Store} (same : t.plain = s.plain) :
    let one := i.run s
    let other := i.run t
    other.outcome.map Value.text = one.outcome.map Value.text ∧
      other.interpreter.output = one.interpreter.output ∧
      other.interpreter.trace = one.interpreter.trace ∧
      other.interpreter.stage = one.interpreter.stage ∧
      other.interpreter.result.text = one.interpreter.result.text ∧
      (∀ id, (other.store.bindings id).texts = (one.store.bindings id).texts) ∧
      ∀ (v : Value) (n : Integer), v.held? = some (.integer n) →
        Integer.Fits n.val ∧
          v.text = Text.ofInt n.val ∧ Number.ofText? v.text = .ok (some (.integer n)) := by
  have turn := Comparison.sidesTurn_run i (Store.interchange_chains same i.scope) rfl
    fun _ _ _ _ => trivial
  have stores : (i.run t).store.plain = (i.run s).store.plain := by
    rcases turn.stores with ⟨here, there⟩ | ⟨b, b', chains, here, there⟩
    · rw [here, there, same]
    · have bindings : b'.plain = b.plain := (Chain.link.inj chains).1
      rw [here, there, Store.setBindings_plain, Store.setBindings_plain, same, bindings]
  refine ⟨?_, ?_, ?_, ?_, interchange.text turn.result, fun id => ?_, fun v n held => ?_⟩
  · have outcome := turn.outcome
    generalize (i.run s).outcome = here at outcome ⊢
    generalize (i.run t).outcome = there at outcome ⊢
    cases outcome with
    | ok related => exact congrArg Except.ok (interchange.text related)
    | error failure => rfl
  · rw [turn.interpreter]
  · rw [turn.interpreter]
  · rw [turn.interpreter]
  · rw [← Bindings.texts_plain, ← Bindings.texts_plain ((i.run s).store.bindings id),
      ← Store.bindings_plain, ← Store.bindings_plain, stores]
  · rw [Value.held?_eq_integer held]
    exact ⟨n.fits, rfl, Number.ofText?_ofInt n⟩

/-- A script that computes with a variable, which holds an integer or is a text. -/
theorem run_interchange_product :
    let fresh := (Store.empty.add none).2
    let s := (fresh.define 0 ['x'] (.integer 6)).2
    let t := (fresh.define 0 ['x'] (.text ['6'])).2
    let script := "set y [expr $x * 7]; puts \"$y $x\"; expr $y - [set x \x7b\x7d]".toList
    let i := ofScope (some (Reader.ofText script none .start)) 0 false defaultBanner
    let one := i.run s
    let other := i.run t
    t.plain = s.plain ∧ other.outcome.map Value.text = one.outcome.map Value.text ∧
      other.interpreter.output = one.interpreter.output ∧
      other.interpreter.trace = one.interpreter.trace ∧
      other.interpreter.stage = one.interpreter.stage ∧
      other.interpreter.result.text = one.interpreter.result.text ∧
      (other.store.bindings 0).texts = (one.store.bindings 0).texts ∧
      (Value.number (.integer ⟨6, by decide⟩)).text = Text.ofInt 6 ∧
      Number.ofText? (Text.ofInt 6) = .ok (some (.integer ⟨6, by decide⟩)) := by
  intro fresh s t script i one other
  have six : ['6'] = Text.ofInt 6 := by decide +kernel
  have same : t.plain = s.plain := congrArg (fun text : Text =>
    (⟨1, [⟨0, none, Table.empty.insert ['x'] (.string text), .empty⟩]⟩ : Store)) six
  obtain ⟨outcome, output, trace, stage, result, texts, integers⟩ := run_interchange i same
  obtain ⟨_, text, reads⟩ := integers (.number (.integer ⟨6, by decide⟩)) _ rfl
  exact ⟨same, outcome, output, trace, stage, result, texts 0, text, reads⟩

end Interpreter
end TinyTcl
