import TinyTcl.Proofs.Evaluation.Comparison
import TinyTcl.Proofs.Program.Verbatim
import TinyTcl.Proofs.Session.Sound

/-! Variables that a script does not mention. Let one of two stores bind a name in a scope that the
other does not bind there. A chain of scopes meets that scope once or not at all
(`Chain.Conceals`), and commands that do not use the name see no difference; no script uses a name
that does not stand in it. Main statement: `Session.run_unmentioned`. -/
namespace TinyTcl

/-- A chain that differs from another in one scope, which binds a name more. -/
inductive Chain.Conceals (name : Text) (v : Value) : Chain → Chain → Prop where
  | here {b b' : Bindings} (outer : Chain) (others : b'.erase name = b)
      (bound : b'.find? name = some v) : Conceals name v (.link b outer) (.link b' outer)
  | outside {outer outer' : Chain} (b : Bindings) (around : Conceals name v outer outer') :
      Conceals name v (.link b outer) (.link b outer')

namespace Chain.Conceals

variable {name : Text} {v : Value} {c c' : Chain}

private theorem ne (h : Conceals name v c c') : c' ≠ c := by
  induction h with
  | @here b b' outer others bound =>
    intro same
    obtain ⟨rfl, _⟩ := Chain.link.inj same
    rw [← others, Table.find?_erase, if_pos rfl] at bound
    cases bound
  | outside b _ ih => exact fun same => ih (Chain.link.inj same).2

private theorem lookup_eq (h : Conceals name v c c') {other : Text} (apart : other ≠ name) :
    c'.lookup other = c.lookup other := by
  induction h with
  | here outer others bound =>
    rw [← others, lookup, lookup, Table.find?_erase, if_neg apart]
  | outside b _ ih => rw [lookup, lookup, ih]

private theorem depth_eq (h : Conceals name v c c') : c'.depth = c.depth := by
  induction h with
  | here => rfl
  | outside b _ ih => rw [depth, depth, ih]

end Chain.Conceals

/-- Scripts that do not name a variable, where it is bound and where it is not. -/
def Comparison.concealing (name : Text) (v : Value) : Comparison where
  names other := other ≠ name
  values a b := b = a
  chains := Chain.Conceals name v
  refl _ := rfl
  text same := congrArg Value.text same
  toNumber place same := congrArg (Value.toNumber · place) same
  lookup {c c' other} h apart := by
    rw [h.lookup_eq apart]
    cases c.lookup other with
    | ok a => exact .inl ⟨a, a, rfl, rfl, rfl⟩
    | error failure => exact .inr ⟨failure, rfl, rfl⟩
  insert {b b' outer outer' other a _} h apart same := by
    subst same
    cases h with
    | here _ others bound =>
      refine .here outer ?_ ?_
      · rw [Table.erase_insert_of_ne _ apart, others]
      · rw [Table.find?_insert, if_neg apart.symm, bound]
    | outside _ around => exact .outside _ around
  erase {b b' outer outer' other} h apart := by
    cases h with
    | here _ others bound =>
      refine .here outer ?_ ?_
      · rw [Table.erase_comm, others]
      · rw [Table.find?_erase, if_neg apart.symm, bound]
    | outside _ around => exact .outside _ around
  contains {b b' outer outer' other} h apart := by
    cases h with
    | here _ others bound =>
      rw [← others, Table.contains, Table.contains, Table.find?_erase, if_neg apart]
    | outside _ around => rfl
  depth {b b' outer outer'} h := by
    cases h with
    | here => rfl
    | outside _ around => exact around.depth_eq
  enter h := .outside .empty h

/-- A comparison that nothing differs in. -/
def Comparison.equality : Comparison where
  names _ := True
  values a b := b = a
  chains c c' := c' = c
  refl _ := rfl
  text same := congrArg Value.text same
  toNumber place same := congrArg (Value.toNumber · place) same
  lookup {c c' name} same _ := by
    subst same
    cases c'.lookup name with
    | ok a => exact .inl ⟨a, a, rfl, rfl, rfl⟩
    | error failure => exact .inr ⟨failure, rfl, rfl⟩
  insert {b b' outer outer' name a _} same _ related := by
    obtain ⟨rfl, rfl⟩ := Chain.link.inj same
    rw [related]
  erase {b b' outer outer' name} same _ := by
    obtain ⟨rfl, rfl⟩ := Chain.link.inj same
    rfl
  contains {b b' outer outer' name} same _ := by
    obtain ⟨rfl, rfl⟩ := Chain.link.inj same
    rfl
  depth {b b' outer outer'} same := by
    obtain ⟨rfl, rfl⟩ := Chain.link.inj same
    rfl
  enter same := congrArg (Chain.link Table.empty) same

namespace Store

/-- A store that differs from another in one scope, which binds a name more. -/
structure Binds (name : Text) (v : Value) (c : ScopeId) (s t : Store) : Prop where
  others : ∀ id, id ≠ c → t.bindings id = s.bindings id
  erased : (t.bindings c).erase name = s.bindings c
  bound : (t.bindings c).find? name = some v

/-- An orderly store and the same store with a name more in a scope. -/
structure Conceals (name : Text) (v : Value) (c : ScopeId) (s t : Store) : Prop
    extends Binds name v c s t where
  orderly : s.Orderly
  changed : ∃ b, t = s.setBindings c b
  has : s.Has c
  chain : ∀ a, t.chain a = s.chain a ∨ Chain.Conceals name v (s.chain a) (t.chain a)

variable {name : Text} {v : Value} {c a : ScopeId} {s t : Store}

/-- A change of one scope shows in a chain at most once. -/
theorem chainIn_conceals {scope scope' : Scope} (id : scope'.id = scope.id)
    (parent : scope'.parent = scope.parent)
    (others : scope'.bindings.erase name = scope.bindings)
    (bound : scope'.bindings.find? name = some v) (newer older : List Scope)
    (from? : Option ScopeId) :
    chainIn (newer ++ scope' :: older) from? = chainIn (newer ++ scope :: older) from? ∨
      Chain.Conceals name v (chainIn (newer ++ scope :: older) from?)
        (chainIn (newer ++ scope' :: older) from?) := by
  induction newer generalizing from? with
  | nil =>
    cases from? with
    | none => exact .inl rfl
    | some start =>
      simp only [List.nil_append, chainIn, id, parent]
      split
      · exact .inr (.here _ others bound)
      · exact .inl rfl
  | cons first rest ih =>
    cases from? with
    | none => exact .inl rfl
    | some start =>
      simp only [List.cons_append, chainIn]
      split
      · exact (ih first.parent).imp (congrArg _) (.outside _)
      · exact ih (some start)

/-- A store with a name more in a scope that did not bind it. -/
theorem Orderly.conceals (h : s.Orderly) (has : s.Has c)
    (unbound : (s.bindings c).contains name = false) (v : Value) :
    Conceals name v c s (s.setBindings c ((s.bindings c).insert name v)) where
  others _ apart := bindings_setBindings_of_ne apart
  erased := by rw [h.bindings_setBindings has, Table.erase_insert_self unbound]
  bound := by rw [h.bindings_setBindings has, Table.find?_insert, if_pos rfl]
  orderly := h
  changed := ⟨_, rfl⟩
  has := has
  chain a := by
    obtain ⟨scope, newer, older, rfl, stands⟩ := h.exists_stands has
    rw [chain, chain, stands.scopes, (stands.setBindings _).scopes]
    apply chainIn_conceals
    · rfl
    · rfl
    · exact (Table.erase_insert_self unbound v).trans stands.bindings_eq
    · rw [Table.find?_insert, if_pos rfl]

namespace Conceals

variable (h : Conceals name v c s t)

include h

private theorem orderly_right : t.Orderly := by
  obtain ⟨b, rfl⟩ := h.changed
  exact h.orderly.setBindings c b

private theorem has_right (has : s.Has a) : t.Has a := by
  obtain ⟨b, rfl⟩ := h.changed
  exact has_setBindings.mpr has

private theorem around_eq : t.around c = s.around c := by
  obtain ⟨b, rfl⟩ := h.changed
  exact h.orderly.around_setBindings h.has

private theorem bindings_ne : t.bindings c ≠ s.bindings c := by
  intro same
  have bound := h.bound
  rw [same, ← h.erased, Table.find?_erase, if_pos rfl] at bound
  cases bound

/-- Another scope gets the same bindings in both. -/
theorem setBindings_of_ne (has : s.Has a) (apart : a ≠ c) (b : Bindings) :
    Binds name v c (s.setBindings a b) (t.setBindings a b) where
  others id other := by
    by_cases same : id = a
    · rw [same, h.orderly.bindings_setBindings has,
        h.orderly_right.bindings_setBindings (h.has_right has)]
    · rw [bindings_setBindings_of_ne same, bindings_setBindings_of_ne same, h.others id other]
  erased := by
    rw [bindings_setBindings_of_ne apart.symm, bindings_setBindings_of_ne apart.symm, h.erased]
  bound := by rw [bindings_setBindings_of_ne apart.symm, h.bound]

/-- The scope itself gets bindings that differ in the name alone. -/
theorem setBindings_self {b b' : Bindings} (others : b'.erase name = b)
    (bound : b'.find? name = some v) :
    Binds name v c (s.setBindings c b) (t.setBindings c b') where
  others id other := by
    rw [bindings_setBindings_of_ne other, bindings_setBindings_of_ne other, h.others id other]
  erased := by
    rw [h.orderly.bindings_setBindings h.has,
      h.orderly_right.bindings_setBindings (h.has_right h.has), others]
  bound := by rw [h.orderly_right.bindings_setBindings (h.has_right h.has), bound]

end Conceals

end Store

namespace Interpreter

/-- Turns that cannot be told apart but for a name more in a scope, which is bound as it was. -/
structure Unaffected (name : Text) (v : Value) (c : ScopeId) (t u : Turn Value) : Prop where
  outcome : u.outcome = t.outcome
  interpreter : u.interpreter = t.interpreter
  log : u.log = t.log
  store : Store.Binds name v c t.store u.store

section Turns

variable {name : Text} {v : Value} {c a : ScopeId} {s t : Store} {one other : Turn Value}

/-- Turns that are the same up to equal values are the same up to their stores. -/
theorem unaffected_of_sidesTurn {k : Comparison} (values : ∀ {v w}, k.values v w → w = v)
    (h : k.SidesTurn s t a one other) (store : Store.Binds name v c one.store other.store) :
    Unaffected name v c one other where
  outcome := by
    have outcome := h.outcome
    generalize one.outcome = here at outcome ⊢
    generalize other.outcome = there at outcome ⊢
    cases outcome with
    | ok related => rw [values related]
    | error failure => rfl
  interpreter := by rw [h.interpreter, values h.result]
  log := h.log
  store := store

variable (h : Store.Conceals name v c s t) (has : s.Has a)

include h has

/-- A turn in a scope that sees the same in both stores. -/
theorem unaffected_of_same (same : t.chain a = s.chain a)
    (turn : Comparison.equality.SidesTurn s t a one other) : Unaffected name v c one other := by
  apply unaffected_of_sidesTurn (fun same => same) turn
  rw [h.orderly.chain_eq has, h.orderly_right.chain_eq (h.has_right has)] at same
  obtain ⟨own, _⟩ := Chain.link.inj same
  have apart : a ≠ c := by
    rintro rfl
    exact h.bindings_ne own
  rcases turn.stores with ⟨here, there⟩ | ⟨b, b', chains, here, there⟩
  · rw [here, there]
    exact h.toBinds
  · rw [here, there, (Chain.link.inj chains).1]
    exact h.setBindings_of_ne has apart b

/-- A turn in a scope that sees the name in one of the stores. -/
theorem unaffected_of_conceals (start : Chain.Conceals name v (s.chain a) (t.chain a))
    (turn : (Comparison.concealing name v).SidesTurn s t a one other) :
    Unaffected name v c one other := by
  apply unaffected_of_sidesTurn (fun same => same) turn
  rcases turn.stores with ⟨here, there⟩ | ⟨b, b', chains, here, there⟩
  · rw [here, there]
    exact h.toBinds
  rw [here, there]
  by_cases own : a = c
  · subst own
    rw [h.around_eq] at chains
    cases chains with
    | here _ others bound => exact h.setBindings_self others bound
    | outside _ around => exact absurd rfl around.ne
  · -- The bindings of the scope are the same, so it is one around it that binds the name.
    have around : t.around a ≠ s.around a := by
      intro same
      apply start.ne
      rw [h.orderly.chain_eq has, h.orderly_right.chain_eq (h.has_right has), h.others a own, same]
    generalize t.around a = outer' at chains around
    cases chains with
    | here => exact absurd rfl around
    | outside _ _ => exact h.setBindings_of_ne has own b

/-- A turn in a scope, whichever of the stores it is taken in, if it compares. -/
theorem unaffected (turn : Store → Turn Value)
    (compares : ∀ k : Comparison, (∀ other, other ≠ name → k.names other) →
      k.chains (.link (s.bindings a) (s.around a)) (.link (t.bindings a) (t.around a)) →
      k.SidesTurn s t a (turn s) (turn t)) : Unaffected name v c (turn s) (turn t) := by
  have here := h.orderly.chain_eq has
  have there := h.orderly_right.chain_eq (h.has_right has)
  rcases h.chain a with same | conceals
  · apply unaffected_of_same h has same
    exact compares _ (fun _ _ => trivial) (here ▸ there ▸ same)
  · apply unaffected_of_conceals h has conceals
    exact compares _ (fun _ apart => apart) (here ▸ there ▸ conceals)

end Turns

end Interpreter

namespace Session

open Interpreter

/-- **Variables that a script does not mention.** Let a host program have done what it likes, and
let a name not stand anywhere in a script. Whether some scope, which does not bind the name so far,
binds it to a value or not: an interpreter that runs the script, carries it out, or takes it for a
block, comes to the same outcome, output, trace, log, stage and result. All scopes bind what they
bind otherwise, in the same order, and behind it the scope binds the name to the same value. -/
theorem run_unmentioned {requests : List Request} {handle : Text} {i : Interpreter}
    (found : (empty.performAll requests).2.interpreters.find? handle = some i)
    {source name : Text} (absent : ¬ name <:+: source) {c : ScopeId} {value : HostValue}
    {v : Value} {t : Store}
    (has : (empty.performAll requests).2.store.Has c)
    (unbound : ((empty.performAll requests).2.store.bindings c).contains name = false)
    (defined : (empty.performAll requests).2.store.define c name value = (.ok v, t)) :
    let s := (empty.performAll requests).2.store
    (∀ filename, i.reader = some (Reader.ofText source filename .start) →
        Unaffected name v c (i.run s) (i.run t)) ∧
      (∀ filename, Unaffected name v c (i.executeText s source filename)
        (i.executeText t source filename)) ∧
      ∀ start scope, (∀ id ∈ scope, s.Has id) →
        Unaffected name v c (i.runBlock s ⟨source, start⟩ scope)
          (i.runBlock t ⟨source, start⟩ scope) := by
  have sound := sound_performAll requests
  have own := (sound.interpreters handle i found).2
  have orderly := sound.orderly
  generalize (empty.performAll requests).2.store = s at has unbound defined orderly own
  have bound : t = s.setBindings c ((s.bindings c).insert name v) := by
    unfold Store.define at defined
    split at defined
    · cases defined
      rfl
    · cases defined
  have conceals : Store.Conceals name v c s t := bound ▸ orderly.conceals has unbound v
  have other (start : Position) :
      ∀ n ∈ (Grammar.program (.ofText source start)).mentions, n ≠ name := by
    rintro n inside rfl
    exact absent (mentions_occur source start n inside)
  refine ⟨fun filename script => ?_, fun filename => ?_, fun start scope exist => ?_⟩
  · refine unaffected conceals own i.run fun k names chains => ?_
    apply Comparison.sidesTurn_run i chains rfl
    rw [script]
    rintro _ ⟨⟩ n inside
    exact names n (other .start n inside)
  · refine unaffected conceals own (i.executeText · source filename)
      fun k names chains => ?_
    apply Comparison.sidesTurn_executeText i chains rfl
    exact fun n inside => names n (other .start n inside)
  · have there : s.Has (scope.getD i.scope) := by
      cases scope with
      | none => exact own
      | some id => exact exist id rfl
    refine unaffected conceals there (i.runBlock · ⟨source, start⟩ scope)
      fun k names chains => ?_
    apply Comparison.sidesTurn_runBlock i chains rfl
    exact fun n inside => names n (other start n inside)

/-- A script with a string, a block and a braced expression, in a scope inside the one that binds a
name more. -/
theorem run_unmentioned_string :
    let source :=
      "set y \"a$x[set z 2]\"; \x7bset x 3; unset z\x7d; puts [expr \x7b$x / $q\x7d]".toList
    let setup : Setup := {
      script := some source, filename := some "a.tcl".toList, scope := some ['h'], inChild := false
      tracing := true, banner := defaultBanner }
    let before : List Request := [.openRoot ['g'], .define ['g'] ['x'] (.text ['1']),
      .openChild ['h'] ['g']]
    let requests := before ++ [.create ['i'] setup]
    let s := (empty.performAll requests).2.store
    let i := ((empty.performAll before).2.build setup).1
    let t := (s.define 0 ['w'] (.text ['v'])).2
    (empty.performAll requests).2.interpreters.find? ['i'] = some i ∧ ¬ ['w'] <:+: source ∧
      s.Has 0 ∧ (s.bindings 0).contains ['w'] = false ∧
      s.define 0 ['w'] (.text ['v']) = (.ok (.string ['v']), t) ∧
      i.reader = some (Reader.ofText source (some "a.tcl".toList) .start) ∧
      Unaffected ['w'] (.string ['v']) 0 (i.run s) (i.run t) ∧
      Unaffected ['w'] (.string ['v']) 0 (i.executeText s source none)
        (i.executeText t source none) ∧
      Unaffected ['w'] (.string ['v']) 0 (i.runBlock s ⟨source, .start⟩ none)
        (i.runBlock t ⟨source, .start⟩ none) := by
  intro source setup before requests s i t
  have found : (empty.performAll requests).2.interpreters.find? ['i'] = some i := rfl
  have absent : ¬ ['w'] <:+: source := by decide +kernel
  have has : s.Has 0 :=
    ⟨⟨0, none, s.bindings 0, .empty⟩, List.mem_cons_of_mem _ List.mem_cons_self, rfl⟩
  have unbound : (s.bindings 0).contains ['w'] = false := rfl
  have defined : s.define 0 ['w'] (.text ['v']) = (.ok (.string ['v']), t) := rfl
  obtain ⟨run, text, block⟩ := run_unmentioned found absent has unbound defined
  exact ⟨found, absent, has, unbound, defined, rfl, run _ rfl, text none,
    block .start none (by simp)⟩

end Session
end TinyTcl
