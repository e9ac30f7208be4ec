import TinyTcl.Proofs.Evaluation.Changes
import TinyTcl.Proofs.Evaluation.Trace
import TinyTcl.Proofs.Session.Scopes

/-! The order of definition in a session. A host program and the scripts that it lets run change what
a scope binds step by step (`Session.changes`), and no other request touches it
(`Session.Sound.evolves`). So the names of a scope and their order are told by all steps on it,
whoever made them (`Session.names_in_order`). -/
namespace TinyTcl

/-- A value of a host program is refused if it is an integer that does not fit into 64 bits, or of a
type that scripts do not have. -/
theorem Value.ofHost_refused_iff {value : HostValue} : (∃ failure, ofHost value = .error failure) ↔
    (∃ type, value = .foreign type) ∨ ∃ n, value = .integer n ∧ ¬ Integer.Fits n := by
  cases value with
  | integer n =>
    simp only [← Integer.ofInt?_eq_none_iff, ofHost, Number.ofInt]
    cases fits : Integer.ofInt? n with
    | none => by_cases long : (Text.ofNat n.natAbs).length > maxDigits <;>
        simp [Functor.map, Except.map, fits, long]
    | some i => simp [Functor.map, Except.map, fits]
  | boolean b =>
    have given : ∃ v, ofHost (.boolean b) = .ok v := by cases b <;> exact ⟨_, rfl⟩
    obtain ⟨v, given⟩ := given
    simp [given]
  | foreign type => simp [ofHost]
  | nothing | real | text | value => simp [ofHost]

namespace Store

/-- How a store goes on: numbers are not used again, and what a scope that is there in the end, or is
still to be opened, binds is changed by these steps. -/
structure Evolves (s : Store) (steps : ScopeId → List Change) (t : Store) : Prop where
  next : s.next ≤ t.next
  opened : ∀ id, t.Has id → s.Has id ∨ s.next ≤ id
  bindings : ∀ id, t.Has id ∨ t.next ≤ id →
    t.bindings id = Change.replay (steps id) (s.bindings id)

namespace Evolves

variable {s t u : Store} {first last : ScopeId → List Change}

private theorem refl (s : Store) : s.Evolves (fun _ => []) s :=
  ⟨Nat.le_refl _, fun _ => .inl, fun _ _ => rfl⟩

private theorem trans (h : s.Evolves first t) (k : t.Evolves last u) :
    s.Evolves (fun id => first id ++ last id) u where
  next := Nat.le_trans h.next k.next
  opened id has := (k.opened id has).elim (h.opened id) fun fresh =>
    .inr (Nat.le_trans h.next fresh)
  bindings id there := by
    have before : t.Has id ∨ t.next ≤ id :=
      there.elim (k.opened id) fun fresh => .inr (Nat.le_trans k.next fresh)
    rw [k.bindings id there, h.bindings id before, Change.replay_append]

end Evolves

private theorem bindings_of_not_has {s : Store} {id : ScopeId} (missing : ¬ s.Has id) :
    s.bindings id = .empty := by
  have none : s.find? id = none := by
    refine List.find?_eq_none.mpr fun scope inside => ?_
    simpa using fun same => missing ⟨scope, inside, same⟩
  rw [bindings, none]
  rfl

section Steps

variable {s : Store} (h : s.Orderly)

include h

private theorem Orderly.bindings_of_fresh {id : ScopeId} (fresh : s.next ≤ id) :
    s.bindings id = .empty :=
  bindings_of_not_has fun has => Nat.not_lt.mpr fresh (h.lt_next has)

private theorem Orderly.evolves_retain (held : List ScopeId) :
    s.Evolves (fun _ => []) (s.retain held) where
  next := Nat.le_refl _
  opened id has := .inl (has_retain.mp has).1
  bindings id there := by
    rcases there with has | fresh
    · exact bindings_retain (has_retain.mp has).2
    · exact ((h.retain held).bindings_of_fresh fresh).trans (h.bindings_of_fresh fresh).symm

private theorem Orderly.evolves_add {parent : Option ScopeId} (outer : ∀ id ∈ parent, s.Has id) :
    s.Evolves (fun _ => []) (s.add parent).2 where
  next := Nat.le_succ _
  opened id has := by
    obtain ⟨scope, inside, same⟩ := has
    rcases List.mem_cons.mp inside with rfl | inside
    · exact .inr (Nat.le_of_eq same)
    · exact .inl ⟨scope, inside, same⟩
  bindings id there := by
    rcases Nat.lt_or_ge id s.next with known | fresh
    · have has : s.Has id := by
        rcases there with ⟨scope, inside, same⟩ | behind
        · rcases List.mem_cons.mp inside with rfl | inside
          · exact absurd same (Nat.ne_of_gt known)
          · exact ⟨scope, inside, same⟩
        · exact absurd (Nat.le_of_succ_le behind) (Nat.not_le.mpr known)
      exact h.bindings_add_of_has has parent
    · rw [h.bindings_of_fresh fresh]
      rcases Nat.eq_or_lt_of_le fresh with rfl | behind
      · exact h.bindings_add outer
      · exact (h.add outer).bindings_of_fresh behind

/-- Steps in one scope. -/
theorem Orderly.evolves_setBindings {scope : ScopeId} (has : s.Has scope) (steps : List Change) :
    s.Evolves (fun id => if scope = id then steps else [])
      (s.setBindings scope (Change.replay steps (s.bindings scope))) where
  next := Nat.le_refl _
  opened id has := .inl (has_setBindings.mp has)
  bindings id _ := by
    split
    · next same =>
      subst same
      exact h.bindings_setBindings has
    · next apart => exact bindings_setBindings_of_ne (Ne.symm apart)

private theorem Orderly.remove_snd {id : ScopeId} (has : s.Has id) (name : Text) :
    (s.remove id name).2 = s.setBindings id ((s.bindings id).erase name) := by
  unfold remove
  cases bound : (s.bindings id).contains name with
  | true => rfl
  | false =>
    rw [Table.erase_of_unbound bound, h.setBindings_self has]
    rfl

omit h in
private theorem evolves_attach (s : Store) (id : ScopeId) (name content : Text) :
    s.Evolves (fun _ => []) (s.attach id name content) where
  next := Nat.le_refl _
  opened other has := by
    let f (scope : Scope) : Scope :=
      { scope with attributes := scope.attributes.insert name content }
    exact .inl ((has_modify (f := f) fun _ => rfl).mp has)
  bindings other _ := bindings_attach name content

end Steps

end Store

namespace Interpreter

/-- The steps of a turn in a scope on its bindings, by what a history tells. -/
def changes (i : Interpreter) (s : Store) (scope : ScopeId)
    (history : Surroundings → Machine → History) : List Change :=
  (i.surroundings s scope).changes history (i.machine s scope)

/-- The steps of a run. -/
def runChanges (i : Interpreter) (s : Store) : List Change :=
  match i.stage, i.reader with
  | .ready, some reader => i.changes s i.scope fun around => reader.program.history around
  | _, _ => []

/-- The steps of a block that is carried out in a scope. -/
def blockChanges (i : Interpreter) (s : Store) (body : Block) (scope : ScopeId) : List Change :=
  i.changes s scope fun around =>
    (Reader.ofText body.text i.filename body.position).program.history around

/-- The steps of a script that is read to its end. -/
def executeChanges (i : Interpreter) (s : Store) (t : Text) (filename : Option Text) :
    List Change :=
  match (Reader.ofText t filename .start).commands with
  | .ok commands => i.changes s i.scope fun around => Command.sequenceHistory around commands
  | .error _ => []

section Turns

variable {i : Interpreter} {s : Store}

private theorem store_act {α : Type} {body : Surroundings → Eval α}
    {history : Surroundings → Machine → History} (told : Surroundings.Told body history)
    (scope : ScopeId) : (i.act s scope body).store =
      s.setBindings scope
        (Change.replay (i.changes s scope history) (s.bindings scope)) := by
  have after := told.bindings_reached (i.surroundings s scope) (m := i.machine s scope)
    ⟨rfl, rfl, False.elim⟩
  have same : (i.act s scope body).store = s.setBindings scope
      ((body (i.surroundings s scope)).reached (i.machine s scope)).bindings := by
    unfold act Eval.reached
    cases body (i.surroundings s scope) (i.machine s scope) <;> rfl
  rw [same, after]
  rfl

private theorem store_run (orderly : s.Orderly) (has : s.Has i.scope) : (i.run s).store =
    s.setBindings i.scope (Change.replay (i.runChanges s) (s.bindings i.scope)) := by
  by_cases can : i.CanRun
  · obtain ⟨reader, script⟩ := Option.ne_none_iff_exists'.mp can.2
    obtain ⟨notes, same⟩ := ending_run s can.1 script
    have told := Surroundings.told_program reader.program i.result
    have noted : (i.machine s i.scope).Like False
        ((i.machine s i.scope).note [.started (scriptName i.filename)]) :=
      ⟨rfl, rfl, False.elim⟩
    have after := told.bindings_reached (i.surroundings s i.scope) noted
    rw [Program.reached_evalFrom] at after
    rw [same]
    change s.setBindings i.scope _ = _
    unfold runChanges
    rw [can.1, script]
    exact congrArg (s.setBindings i.scope) after
  · have none : i.runChanges s = [] := by
      unfold runChanges
      split
      · next ready script => exact absurd ⟨ready, by simp [script]⟩ can
      · rfl
    rw [run_of_not_canRun can, none]
    exact (orderly.setBindings_self has).symm

private theorem store_executeText (orderly : s.Orderly) (has : s.Has i.scope) (t : Text)
    (filename : Option Text) : (i.executeText s t filename).store =
      s.setBindings i.scope
        (Change.replay (i.executeChanges s t filename) (s.bindings i.scope)) := by
  unfold executeText executeChanges
  dsimp only
  cases (Reader.ofText t filename .start).commands with
  | ok commands => exact store_act (Surroundings.told_sequence commands) i.scope
  | error d => exact (orderly.setBindings_self has).symm

private theorem store_runBlock (body : Block) (scope : ScopeId) :
    (i.runBlock s body (some scope)).store = s.setBindings scope
      (Change.replay (i.blockChanges s body scope) (s.bindings scope)) :=
  store_act (Surroundings.told_program _ .empty) scope

/-- A block in a scope of its own leaves all others alone. -/
theorem store_runBlock_none (orderly : s.Orderly) (has : s.Has i.scope) (body : Block) :
    (i.runBlock s body none).store = s := by
  have told : Surroundings.Told (fun around => Eval.inChild around fun inside =>
      (Reader.ofText body.text i.filename body.position).program.eval inside)
      fun _ _ => .nil :=
    ⟨fun around _ => Eval.replays_inChild around _,
      fun _ _ h => Eval.like_inChild h fun _ _ inside => Program.like_run inside .empty _,
      fun around _ _ => Eval.replays_inChild around _⟩
  have rests : i.changes s i.scope (fun _ _ => .nil) = [] := by
    unfold changes Surroundings.changes
    split <;> rfl
  refine (store_act told i.scope).trans ?_
  rw [rests]
  exact orderly.setBindings_self has

end Turns

end Interpreter

namespace Session

/-! ### Steps on a scope -/

/-- The scope whose bindings a request can change, with the steps by which it does. -/
def steps? (s : Session) : Request → Option (ScopeId × List Change)
  | .define handle name value => (s.scopes.find? handle).map fun id =>
    (id, match Value.ofHost value with
      | .ok v => [.bind name v]
      | .error _ => [])
  | .remove handle name => (s.scopes.find? handle).map fun id => (id, [.unbind name])
  | .run handle => (s.interpreters.find? handle).map fun i => (i.scope, i.runChanges s.store)
  | .runBlock handle body scope => (s.interpreters.find? handle).bind fun i =>
    (scope.bind s.scopes.find?).map fun id => (id, i.blockChanges s.store body id)
  | .execute handle script filename => (s.interpreters.find? handle).map fun i =>
    (i.scope, i.executeChanges s.store script filename)
  | _ => none

/-- The steps by which a request changes what a scope binds. -/
def changes (s : Session) (id : ScopeId) (r : Request) : List Change :=
  match s.steps? r with
  | some (scope, steps) => if scope = id then steps else []
  | none => []

/-- The steps by which several requests change what a scope binds. -/
def allChanges (s : Session) (id : ScopeId) : List Request → List Change
  | [] => []
  | first :: rest => s.changes id first ++ (s.perform first).2.allChanges id rest

section Steps

variable {s : Session} {r : Request}

private theorem changes_of_none (rests : s.steps? r = none) :
    (fun id => s.changes id r) = fun _ => [] := by
  funext id
  rw [changes, rests]

private theorem changes_of_some {scope : ScopeId} {steps : List Change}
    (takes : s.steps? r = some (scope, steps)) :
    (fun id => s.changes id r) = fun id => if scope = id then steps else [] := by
  funext id
  rw [changes, takes]

end Steps

/-- The scopes that nothing holds are closed afterwards. -/
theorem evolves_retain {s t : Store} {steps : ScopeId → List Change} (evolves : s.Evolves steps t)
    (orderly : t.Orderly) (held : List ScopeId) : s.Evolves steps (t.retain held) := by
  simpa using evolves.trans (orderly.evolves_retain held)

namespace Sound

variable {s : Session} (h : s.Sound) {handle : Text}

include h

private theorem evolves_build (setup : Setup) :
    s.store.Evolves (fun _ => []) (s.build setup).2 := by
  have made {store : Store} (orderly : store.Orderly)
      (opened : s.store.Evolves (fun _ => []) store) {i : Interpreter} (given : store.Has i.given) :
      s.store.Evolves (fun _ => [])
        (if setup.inChild then i.inChild store else (i, store)).2 := by
    split
    · refine opened.trans (orderly.evolves_add ?_)
      rintro _ ⟨⟩
      exact given
    · exact opened
  unfold Session.build
  dsimp only
  cases found : setup.scope.bind s.scopes.find? with
  | some id =>
    obtain ⟨handle, -, known⟩ := Option.bind_eq_some_iff.mp found
    exact made h.orderly (.refl s.store) (h.handles handle id known)
  | none =>
    exact made (h.orderly.add (by simp)) (h.orderly.evolves_add (by simp)) (Store.has_add none)

/-- An interpreter's turn makes its steps in one scope. -/
theorem evolves_afterTurn {turn : Turn Value} {scope : ScopeId} {steps : List Change}
    (has : s.store.Has scope) (same : turn.store =
      s.store.setBindings scope (Change.replay steps (s.store.bindings scope))) :
    s.store.Evolves (fun id => if scope = id then steps else [])
      (s.afterTurn handle turn).2.store := by
  refine evolves_retain ?_ ?_ _
  · rw [same]
    exact h.orderly.evolves_setBindings has steps
  · rw [same]
    exact h.orderly.setBindings _ _

/-- A request that changes a scope makes its steps there. -/
theorem evolves_onScope {r : Request} {f : ScopeId → Response} {g : ScopeId → List Change}
    (each : ∀ id, s.store.Has id →
      s.store.Evolves (fun other => if id = other then g id else []) (f id).2.store)
    (same : s.steps? r = (s.scopes.find? handle).map fun id => (id, g id)) :
    s.store.Evolves (fun id => s.changes id r) (s.onScope handle f).2.store := by
  unfold Session.onScope
  cases found : s.scopes.find? handle with
  | none =>
    rw [found] at same
    rw [changes_of_none same]
    exact .refl s.store
  | some id =>
    rw [found] at same
    rw [changes_of_some same]
    exact each id (h.handles handle id found)

/-- A request that lets an interpreter act makes the steps of its turn. -/
theorem evolves_onInterpreter {r : Request} {turn : Interpreter → Turn Value}
    {f : Interpreter → ScopeId × List Change}
    (each : ∀ i, s.store.Has i.scope → s.store.Has (f i).1 ∧ (turn i).store =
      s.store.setBindings (f i).1 (Change.replay (f i).2 (s.store.bindings (f i).1)))
    (same : s.steps? r = (s.interpreters.find? handle).map f) :
    s.store.Evolves (fun id => s.changes id r)
      (s.onInterpreter handle fun i => s.afterTurn handle (turn i)).2.store := by
  unfold Session.onInterpreter
  cases found : s.interpreters.find? handle with
  | none =>
    rw [found] at same
    rw [changes_of_none same]
    exact .refl s.store
  | some i =>
    rw [found] at same
    obtain ⟨has, after⟩ := each i (h.interpreters handle i found).2
    rw [changes_of_some same]
    exact h.evolves_afterTurn has after

/-- A request about a scope that changes no bindings. -/
theorem evolves_kept {f : ScopeId → Response}
    (each : ∀ id, s.store.Has id → s.store.Evolves (fun _ => []) (f id).2.store) :
    s.store.Evolves (fun _ => []) (s.onScope handle f).2.store := by
  unfold Session.onScope
  split
  · next id found => exact each id (h.handles handle id found)
  · exact .refl s.store

/-- A request about an interpreter that changes no bindings. -/
theorem evolves_resting {f : Interpreter → Response}
    (each : ∀ i, s.store.Has i.scope → s.store.Evolves (fun _ => []) (f i).2.store) :
    s.store.Evolves (fun _ => []) (s.onInterpreter handle f).2.store := by
  unfold Session.onInterpreter
  split
  · next i found => exact each i (h.interpreters handle i found).2
  · exact .refl s.store

private theorem evolves_runBlock (body : Block) (scope : Option Text) :
    s.store.Evolves (fun id => s.changes id (.runBlock handle body scope))
      (s.perform (.runBlock handle body scope)).2.store := by
  change s.store.Evolves _ (s.onInterpreter handle fun i =>
    s.afterTurn handle (i.runBlock s.store body (scope.bind s.scopes.find?))).2.store
  cases given : scope.bind s.scopes.find? with
  | none =>
    have rests : s.steps? (.runBlock handle body scope) = none := by
      rw [steps?, given]
      cases s.interpreters.find? handle <;> rfl
    rw [changes_of_none rests]
    refine h.evolves_resting fun i has => ?_
    have same := i.store_runBlock_none h.orderly has body
    generalize i.runBlock s.store body none = turn at same ⊢
    refine evolves_retain (t := turn.store) ?_ ?_ _
    · rw [same]
      exact .refl s.store
    · rw [same]
      exact h.orderly
  | some id =>
    obtain ⟨name, -, known⟩ := Option.bind_eq_some_iff.mp given
    refine h.evolves_onInterpreter (f := fun i => (id, i.blockChanges s.store body id))
      (fun i _ => ⟨h.handles name id known, i.store_runBlock body id⟩) ?_
    rw [steps?, given]
    cases s.interpreters.find? handle <;> rfl

/-- Every request changes what scopes bind by its steps, and in no other way. -/
theorem evolves (r : Request) :
    s.store.Evolves (fun id => s.changes id r) (s.perform r).2.store := by
  cases r with
  | openRoot handle =>
    have opened : s.store.Evolves (fun _ => []) (s.store.add none).2 :=
      h.orderly.evolves_add (by simp)
    exact evolves_retain opened (h.orderly.add (by simp)) _
  | openChild handle outer =>
    refine h.evolves_kept fun id has => ?_
    have inside : ∀ i ∈ some id, s.store.Has i := by
      rintro _ ⟨⟩
      exact has
    exact evolves_retain (h.orderly.evolves_add inside) (h.orderly.add inside) _
  | dropScope | dropInterpreter => exact h.orderly.evolves_retain _
  | define handle name value =>
    refine h.evolves_onScope (fun id has => ?_) rfl
    change s.store.Evolves _ (s.store.define id name value).2
    unfold Store.define
    cases Value.ofHost value with
    | ok v => exact h.orderly.evolves_setBindings has [.bind name v]
    | error failure =>
      simpa [h.orderly.setBindings_self has] using h.orderly.evolves_setBindings has []
  | remove handle name =>
    refine h.evolves_onScope (fun id has => ?_) rfl
    change s.store.Evolves _ (s.store.remove id name).2
    rw [h.orderly.remove_snd has]
    exact h.orderly.evolves_setBindings has [.unbind name]
  | lookup | contains | isLocal | depth | listing | names | parent | attributes =>
    exact h.evolves_kept fun _ _ => .refl s.store
  | attach handle name content =>
    exact h.evolves_kept fun id _ => Store.evolves_attach s.store id name content
  | create handle setup =>
    exact evolves_retain (h.evolves_build setup) (h.build setup).1.orderly _
  | setScript | write =>
    exact h.evolves_resting fun _ _ => h.orderly.evolves_retain _
  | run handle =>
    exact h.evolves_onInterpreter (f := fun i => (i.scope, i.runChanges s.store))
      (fun i has => ⟨has, i.store_run h.orderly has⟩) rfl
  | runBlock handle body scope => exact h.evolves_runBlock body scope
  | execute handle script filename =>
    exact h.evolves_onInterpreter
      (f := fun i => (i.scope, i.executeChanges s.store script filename))
      (fun i has => ⟨has, i.store_executeText h.orderly has script filename⟩) rfl
  | state => exact h.evolves_resting fun _ _ => .refl s.store
  | takeScope =>
    exact h.evolves_resting fun _ _ => h.orderly.evolves_retain _

private theorem evolves_performAll (requests : List Request) :
    s.store.Evolves (fun id => s.allChanges id requests) (s.performAll requests).2.store := by
  induction requests generalizing s with
  | nil => exact .refl s.store
  | cons first rest ih => exact (h.evolves first).trans (ih (h.perform first))

end Sound

/-- What a scope binds is told by all steps on it. -/
theorem bindings_performAll {requests : List Request} {id : ScopeId}
    (has : (empty.performAll requests).2.store.Has id) :
    (empty.performAll requests).2.store.bindings id =
      Change.replay (empty.allChanges id requests) .empty :=
  (sound_empty.evolves_performAll requests).bindings id (.inl has)

/-! ### The order of definition -/

/-- **Names stand in the order of definition.** Let a host program have done what it likes with a
scope, and let scripts and blocks have run in it. The names of the scope are listed once each. A name
is listed if and only if the last step on it, by the host program or a script, is a definition, and
it stands for what that gave it. It came in with a definition behind all removals of it, which found
it unbound, and the names are listed in the order in which they came in. A definition is refused if
and only if its value is of a type that scripts do not have or an integer that does not fit into 64
bits; then nothing has changed. -/
theorem names_in_order {requests : List Request} {handle : Text} {c : ScopeId}
    (found : (empty.performAll requests).2.scopes.find? handle = some c) :
    let s := (empty.performAll requests).2
    let changes := empty.allChanges c requests
    ∃ names, s.perform (.names handle) = (.ok (.texts names), s) ∧
      names.Nodup ∧ names.length = (s.store.bindings c).entries.length ∧
      (∀ name, name ∈ names ↔ ∃ value, Change.last? changes name = some (.bind name value)) ∧
      (∀ name, (s.store.bindings c).find? name =
        (Change.last? changes name).bind Change.value?) ∧
      (∀ name ∈ names, ∃ place, Change.Enters changes name place) ∧
      (names.Pairwise fun name other =>
        ∀ j k, Change.Enters changes name j → Change.Enters changes other k → j < k) ∧
      ∀ name value,
        ((∃ failure, (s.perform (.define handle name value)).1 = .error failure) ↔
          (∃ type, value = .foreign type) ∨
            ∃ n, value = .integer n ∧ ¬ Integer.Fits n) ∧
        ∀ failure, (s.perform (.define handle name value)).1 = .error failure →
          (s.perform (.define handle name value)).2 = s := by
  intro s changes
  have has : s.store.Has c := (sound_performAll requests).handles handle c found
  have bindings : s.store.bindings c = Change.replay changes .empty := bindings_performAll has
  refine ⟨_, perform_names found, (s.store.bindings c).distinct, List.length_map .., ?_⟩
  rw [bindings]
  refine ⟨fun name => Change.mem_names_replay, Change.find?_replay changes,
    fun name => Change.exists_enters, Change.pairwise_names_replay changes, fun name value => ?_⟩
  rw [← Value.ofHost_refused_iff, perform_define found]
  cases Value.ofHost value with
  | ok v => simp
  | error failure =>
    exact ⟨⟨fun _ => ⟨failure, rfl⟩, fun _ => ⟨failure, rfl⟩⟩, fun _ _ => rfl⟩

/-- A host program and a script take turns with the variables of a scope. -/
theorem names_in_order_script :
    let setup : Setup := {
      script := some "set c 3\nunset b\nset a [set c 4]\nputs $b".toList
      filename := none
      scope := some ['g']
      inChild := false
      tracing := true
      banner := [] }
    let requests : List Request := [.openRoot ['g'], .define ['g'] ['a'] (.text ['1']),
      .define ['g'] ['b'] (.integer 2), .define ['g'] ['d'] (.foreign []), .remove ['g'] ['a'],
      .create ['i'] setup, .run ['i'], .define ['g'] ['b'] .nothing]
    let s := (empty.performAll requests).2
    s.scopes.find? ['g'] = some 0 ∧
      s.perform (.names ['g']) = (.ok (.texts [['c'], ['a'], ['b']]), s) ∧
      [['c'], ['a'], ['b']].Pairwise fun name other => ∀ j k,
        Change.Enters (empty.allChanges 0 requests) name j →
          Change.Enters (empty.allChanges 0 requests) other k → j < k := by
  intro setup requests s
  have found : s.scopes.find? ['g'] = some 0 := rfl
  obtain ⟨names, answer, -, -, -, -, -, ordered, -⟩ := names_in_order found
  have listed : (s.store.bindings 0).names = [['c'], ['a'], ['b']] := by decide +kernel
  have same : names = [['c'], ['a'], ['b']] := by
    rw [perform_names found, listed] at answer
    cases answer
    rfl
  exact ⟨found, same ▸ answer, same ▸ ordered⟩

end Session
end TinyTcl
