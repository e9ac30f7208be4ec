import TinyTcl.Proofs.Scope.Orderly
import TinyTcl.Session.Perform

/-! Sessions stay sound. Whatever a host program asks, in any order, the scopes of its session stand
in order, and those that a handle or an interpreter holds exist (`Session.sound_performAll`). A
request opens scopes inside ones that are held, a turn of an interpreter changes the bindings of one
scope at most (`Turn.Confined`), and settling keeps what is held. -/
namespace TinyTcl

theorem Table.mem_entries_iff {α : Type} {t : Table α} {name : Text} {entry : α} :
    (name, entry) ∈ t.entries ↔ t.find? name = some entry := by
  unfold find?
  rw [List.lookup_eq_some_iff]
  constructor
  · intro inside
    obtain ⟨before, behind, whole⟩ := List.append_of_mem inside
    refine ⟨before, behind, whole, fun other earlier => ?_⟩
    have distinct := t.distinct
    rw [whole, List.map_append] at distinct
    have apart := (List.nodup_append.mp distinct).2.2 other.1 (List.mem_map_of_mem earlier) name
      List.mem_cons_self
    simpa using Ne.symm apart
  · rintro ⟨before, behind, whole, _⟩
    rw [whole]
    exact List.mem_append_right _ List.mem_cons_self

/-- A turn of an interpreter in a scope changes no bindings but those of the scope. -/
structure Turn.Confined {α : Type} (t : Turn α) (i : Interpreter) (s : Store) (id : ScopeId) :
    Prop where
  given : t.interpreter.given = i.given
  scope : t.interpreter.scope = i.scope
  store : t.store = s ∨ ∃ bindings, t.store = s.setBindings id bindings

theorem Turn.Confined.bindings_of_ne {α : Type} {t : Turn α} {i : Interpreter} {s : Store}
    {id other : ScopeId} (h : t.Confined i s id) (apart : other ≠ id) :
    t.store.bindings other = s.bindings other := by
  rcases h.store with same | ⟨bindings, same⟩
  · rw [same]
  · rw [same, Store.bindings_setBindings_of_ne apart]

namespace Interpreter

private theorem confined_act {α : Type} (i : Interpreter) (s : Store) (scope : ScopeId)
    (body : Surroundings → Eval α) : (i.act s scope body).Confined i s scope := by
  unfold act
  split
  · exact ⟨rfl, rfl, .inr ⟨_, rfl⟩⟩
  · exact ⟨rfl, rfl, .inr ⟨_, rfl⟩⟩

theorem confined_run (i : Interpreter) (s : Store) : (i.run s).Confined i s i.scope := by
  unfold run
  split
  · exact ⟨rfl, rfl, .inl rfl⟩
  · split
    · exact ⟨rfl, rfl, .inl rfl⟩
    · dsimp only
      split
      · exact ⟨rfl, rfl, .inr ⟨_, rfl⟩⟩
      · exact ⟨rfl, rfl, .inr ⟨_, rfl⟩⟩

/-- A run in a new scope leaves alone what was there before. -/
theorem bindings_run_inChild (i : Interpreter) {s : Store} (orderly : s.Orderly) {id : ScopeId}
    (has : s.Has id) :
    ((i.inChild s).1.run (i.inChild s).2).store.bindings id = s.bindings id := by
  have apart : id ≠ (i.inChild s).1.scope := Nat.ne_of_lt (orderly.lt_next has)
  exact ((confined_run _ _).bindings_of_ne apart).trans (orderly.bindings_add_of_has has _)

theorem confined_runBlock (i : Interpreter) (s : Store) (body : Block) (scope : Option ScopeId) :
    (i.runBlock s body scope).Confined i s (scope.getD i.scope) := by
  unfold runBlock
  cases scope with
  | none => exact i.confined_act s i.scope _
  | some scope => exact i.confined_act s scope _

theorem confined_executeText (i : Interpreter) (s : Store) (t : Text) (filename : Option Text) :
    (i.executeText s t filename).Confined i s i.scope := by
  unfold executeText
  dsimp only
  split
  · next commands _ =>
    have turn := i.confined_act s i.scope fun around => Command.sequence around .empty commands
    exact ⟨turn.given, turn.scope, turn.store⟩
  · exact ⟨rfl, rfl, .inl rfl⟩

end Interpreter

namespace Session

/-- The scopes of a session stand in order, and those that something holds exist. -/
structure Sound (s : Session) : Prop where
  orderly : s.store.Orderly
  handles : ∀ handle id, s.scopes.find? handle = some id → s.store.Has id
  interpreters : ∀ handle i, s.interpreters.find? handle = some i →
    s.store.Has i.given ∧ s.store.Has i.scope

theorem sound_empty : empty.Sound :=
  ⟨Store.orderly_empty, fun _ _ found => by simp [empty] at found,
    fun _ _ found => by simp [empty] at found⟩

namespace Sound

variable {s : Session} (h : s.Sound) {handle : Text}

include h

/-- Closing the scopes that nothing holds keeps those that something holds. -/
theorem settle : s.settle.Sound where
  orderly := h.orderly.retain _
  handles handle id found := by
    refine Store.has_retain.mpr ⟨h.handles handle id found, ?_⟩
    have inside := Table.mem_entries_iff.mpr found
    exact List.mem_append_left _ (List.mem_map_of_mem (f := Prod.snd) inside)
  interpreters handle i found := by
    have inside := Table.mem_entries_iff.mpr found
    obtain ⟨given, scope⟩ := h.interpreters handle i found
    refine ⟨Store.has_retain.mpr ⟨given, ?_⟩, Store.has_retain.mpr ⟨scope, ?_⟩⟩
    · exact List.mem_append_right _ (List.mem_flatMap.mpr ⟨_, inside, by simp⟩)
    · exact List.mem_append_right _ (List.mem_flatMap.mpr ⟨_, inside, by simp⟩)

private theorem keepScope {id : ScopeId} (has : s.store.Has id) :
    (s.keepScope handle id).Sound := by
  apply settle (s := { s with scopes := s.scopes.insert handle id })
  exact ⟨h.orderly, Table.forall_insert h.handles has, h.interpreters⟩

private theorem keepInterpreter {i : Interpreter} (given : s.store.Has i.given)
    (scope : s.store.Has i.scope) : (s.keepInterpreter handle i).Sound := by
  apply settle (s := { s with interpreters := s.interpreters.insert handle i })
  exact ⟨h.orderly, h.handles, Table.forall_insert h.interpreters ⟨given, scope⟩⟩

private theorem dropScope : (s.dropScope handle).Sound := by
  apply settle (s := { s with scopes := s.scopes.erase handle })
  exact ⟨h.orderly, Table.forall_erase h.handles, h.interpreters⟩

private theorem dropInterpreter : (s.dropInterpreter handle).Sound := by
  apply settle (s := { s with interpreters := s.interpreters.erase handle })
  exact ⟨h.orderly, h.handles, Table.forall_erase h.interpreters⟩

/-- The same session with more scopes, or with other bindings in them. -/
theorem withStore {store : Store} (orderly : store.Orderly)
    (keeps : ∀ id, s.store.Has id → store.Has id) : Sound { s with store } :=
  ⟨orderly, fun handle id found => keeps id (h.handles handle id found), fun handle i found =>
    (h.interpreters handle i found).imp (keeps _) (keeps _)⟩

private theorem modify {f : Scope → Scope} (id : ScopeId)
    (number : ∀ scope, (f scope).id = scope.id)
    (parent : ∀ scope, (f scope).parent = scope.parent) :
    Sound { s with store := s.store.modify id f } :=
  h.withStore (h.orderly.modify number parent) fun _ => (Store.has_modify number).mpr

private theorem add {parent : Option ScopeId} (outer : ∀ id ∈ parent, s.store.Has id) :
    Sound { s with store := (s.store.add parent).2 } :=
  h.withStore (h.orderly.add outer) fun _ has => has.add parent

private theorem onScope {f : ScopeId → Response} (each : ∀ id, s.store.Has id → (f id).2.Sound) :
    (s.onScope handle f).2.Sound := by
  unfold Session.onScope
  split
  · next id found => exact each id (h.handles handle id found)
  · exact h

private theorem onInterpreter {f : Interpreter → Response}
    (each : ∀ i, s.store.Has i.given → s.store.Has i.scope → (f i).2.Sound) :
    (s.onInterpreter handle f).2.Sound := by
  unfold Session.onInterpreter
  split
  · next i found =>
    obtain ⟨given, scope⟩ := h.interpreters handle i found
    exact each i given scope
  · exact h

private theorem afterTurn {i : Interpreter} {scope : ScopeId} {turn : Turn Value}
    (given : s.store.Has i.given) (holds : s.store.Has i.scope)
    (confined : turn.Confined i s.store scope) : (s.afterTurn handle turn).2.Sound := by
  have after : Sound { s with store := turn.store } ∧ ∀ id, s.store.Has id → turn.store.Has id := by
    rcases confined.store with same | ⟨bindings, same⟩
    · rw [same]
      exact ⟨h, fun _ => id⟩
    · rw [same]
      exact ⟨h.modify scope (fun _ => rfl) fun _ => rfl, fun _ => Store.has_setBindings.mpr⟩
  apply after.1.keepInterpreter
  · rw [confined.given]
    exact after.2 _ given
  · rw [confined.scope]
    exact after.2 _ holds

/-- An interpreter is made in scopes that exist, and in a session that stays sound. -/
theorem build (setup : Setup) : Sound { s with store := (s.build setup).2 } ∧
    (s.build setup).2.Has (s.build setup).1.given ∧
    (s.build setup).2.Has (s.build setup).1.scope := by
  have inside {store : Store} (sound : Sound { s with store }) {i : Interpreter}
      (given : store.Has i.given) (same : i.scope = i.given) :
      let made := if setup.inChild then i.inChild store else (i, store)
      Sound { s with store := made.2 } ∧ made.2.Has made.1.given ∧ made.2.Has made.1.scope := by
    dsimp only
    split
    · refine ⟨sound.add (s := { s with store }) ?_, given.add _, Store.has_add _⟩
      rintro _ ⟨⟩
      exact given
    · exact ⟨sound, given, same ▸ given⟩
  unfold Session.build
  dsimp only
  cases found : setup.scope.bind s.scopes.find? with
  | some id =>
    obtain ⟨handle, _, known⟩ := Option.bind_eq_some_iff.mp found
    exact inside h (h.handles handle id known) rfl
  | none =>
    have opened : Sound { s with store := (s.store.add none).2 } := h.add (by simp)
    exact inside opened (Store.has_add none) rfl

/-- Every request keeps a session sound. -/
theorem perform (r : Request) : (s.perform r).2.Sound := by
  cases r with
  | openRoot handle =>
    have opened : Sound { s with store := (s.store.add none).2 } := h.add (by simp)
    exact opened.keepScope (Store.has_add none)
  | openChild handle outer =>
    refine h.onScope fun id has => ?_
    have opened : Sound { s with store := (s.store.add (some id)).2 } := by
      apply h.add
      rintro _ ⟨⟩
      exact has
    exact opened.keepScope (Store.has_add (some id))
  | dropScope handle => exact h.dropScope
  | dropInterpreter handle => exact h.dropInterpreter
  | define handle name value =>
    refine h.onScope fun id has => ?_
    change Sound { s with store := (s.store.define id name value).2 }
    unfold Store.define
    split
    · exact h.modify id (fun _ => rfl) fun _ => rfl
    · exact h
  | remove handle name =>
    refine h.onScope fun id has => ?_
    change Sound { s with store := (s.store.remove id name).2 }
    unfold Store.remove
    split
    · exact h.modify id (fun _ => rfl) fun _ => rfl
    · exact h
  | lookup | contains | isLocal | depth | listing | names | parent | attributes =>
    exact h.onScope fun id has => h
  | attach handle name content =>
    exact h.onScope fun id has => h.modify id (fun _ => rfl) fun _ => rfl
  | create handle setup =>
    obtain ⟨opened, given, scope⟩ := h.build setup
    exact opened.keepInterpreter given scope
  | setScript handle script filename =>
    exact h.onInterpreter fun i given scope => h.keepInterpreter given scope
  | run handle =>
    exact h.onInterpreter fun i given scope => h.afterTurn given scope (i.confined_run s.store)
  | runBlock handle body scope =>
    exact h.onInterpreter fun i given holds =>
      h.afterTurn given holds (i.confined_runBlock s.store body _)
  | execute handle script filename =>
    exact h.onInterpreter fun i given scope =>
      h.afterTurn given scope (i.confined_executeText s.store script filename)
  | write handle text =>
    exact h.onInterpreter fun i given scope => h.keepInterpreter given scope
  | state handle => exact h.onInterpreter fun i given scope => h
  | takeScope handle other => exact h.onInterpreter fun i given scope => h.keepScope scope

end Sound

private theorem Sound.performAll {s : Session} (h : s.Sound) (requests : List Request) :
    (s.performAll requests).2.Sound := by
  induction requests generalizing s with
  | nil => exact h
  | cons first rest ih => exact ih (h.perform first)

/-- Every history of a session leaves it sound. -/
theorem sound_performAll (requests : List Request) : (empty.performAll requests).2.Sound :=
  sound_empty.performAll requests

end Session
end TinyTcl
