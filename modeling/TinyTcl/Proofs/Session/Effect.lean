import TinyTcl.Proofs.Evaluation.Active
import TinyTcl.Proofs.Evaluation.Tracing
import TinyTcl.Proofs.Session.Sound

/-! What a request does to a session. It changes what scopes bind, keeps or gives up a handle, or
lets one interpreter act (`Session.Effect`): every request has one of few effects
(`Session.Sound.effect`), and what becomes of interpreters and of the scopes that are held is read
off there. -/
namespace TinyTcl

/-- The handle under which a request puts another interpreter, or none. -/
def Request.replaced? : Request → Option Text
  | .create handle _ | .dropInterpreter handle => some handle
  | _ => none

namespace Interpreter

/-- Whether the interpreter can run its script. -/
def CanRun (i : Interpreter) : Prop := i.stage = .ready ∧ i.reader ≠ none

/-- Why the interpreter does not run. -/
def refusal (i : Interpreter) : Cause := if i.stage = .ready then .noScript else .alreadyRun i.stage

theorem family_refusal (i : Interpreter) : i.refusal.family = .lifecycle := by
  unfold refusal
  split <;> rfl

theorem run_of_not_canRun {i : Interpreter} (other : ¬ i.CanRun) (s : Store) :
    i.run s = ⟨.error (.diagnostic { cause := i.refusal }), i, s, []⟩ := by
  unfold run refusal
  by_cases ready : i.stage = .ready
  · have script : i.reader = none := Classical.not_not.mp fun some => other ⟨ready, some⟩
    rw [if_neg (fun h => h ready), if_pos ready, script]
  · rw [if_pos ready, if_neg ready]

/-- A run ends as done or failed, as its outcome is. -/
theorem stage_run {i : Interpreter} (can : i.CanRun) (s : Store) :
    (∃ value, (i.run s).outcome = .ok value) ∧ (i.run s).interpreter.stage = .done ∨
      (∃ failure, (i.run s).outcome = .error failure) ∧ (i.run s).interpreter.stage = .failed := by
  obtain ⟨reader, script⟩ := Option.ne_none_iff_exists'.mp can.2
  obtain ⟨notes, same⟩ := ending_run s can.1 script
  rw [same]
  generalize reader.program.run _ _ _ = p
  obtain ⟨failure, value, m⟩ := p
  cases failure with
  | none => exact .inl ⟨⟨value, rfl⟩, rfl⟩
  | some failure => exact .inr ⟨⟨_, rfl⟩, rfl⟩

/-- How an interpreter goes on: it keeps its stage and its result, unless it is let run and can. -/
structure Advances (ran : Prop) (i j : Interpreter) : Prop extends i.Grows j where
  stage : j.stage = i.stage ∧ j.result = i.result ∨
    ran ∧ i.CanRun ∧ (j.stage = .done ∨ j.stage = .failed)

private theorem Keeps.advances {i j : Interpreter} (h : i.Keeps j) (ran : Prop) :
    i.Advances ran j :=
  ⟨h.toGrows, .inl ⟨h.stage, h.result⟩⟩

private theorem rel_advances (ran : Prop) (i? : Option Interpreter) :
    Option.Rel (Advances ran) i? i? := by
  cases i? with
  | none => exact .none
  | some i => exact .some ((Keeps.refl i).advances ran)

private theorem keeps_setReader (i : Interpreter) (reader : Reader) :
    i.Keeps (i.setReader reader) :=
  ⟨⟨rfl, rfl, rfl, List.prefix_rfl, List.prefix_rfl⟩, rfl, rfl⟩

private theorem keeps_write (i : Interpreter) (t : Text) : i.Keeps (i.write t) :=
  ⟨⟨rfl, rfl, rfl, List.prefix_append _ _, List.prefix_rfl⟩, rfl, rfl⟩

/-- An interpreter runs in the scope that it was given, or in one that lies in it. -/
def Seated (i : Interpreter) (s : Store) : Prop :=
  i.scope = i.given ∨ (i.scope, some i.given) ∈ s.places

end Interpreter

private theorem Turn.Confined.places {α : Type} {t : Turn α} {i : Interpreter} {s : Store}
    {id : ScopeId} (h : t.Confined i s id) :
    t.store.places = s.places := by
  rcases h.store with same | ⟨bindings, same⟩
  · rw [same]
  · rw [same, Store.places_setBindings]

namespace Session

/-- What a request makes of a session. -/
inductive Effect (s : Session) (r : Request) : Session → Prop where
  /-- No handle changes, and no scope comes or goes. -/
  | rebind {store : Store} (stays : r.replaced? = none) (places : store.places = s.store.places) :
    Effect s r { s with store }
  /-- A handle is given to a scope, which may be a new one. -/
  | keepScope {store : Store} (handle : Text) (id : ScopeId) (stays : r.replaced? = none)
    (places : s.store.places ⊆ store.places) : Effect s r ({ s with store }.keepScope handle id)
  | dropScope (handle : Text) (stays : r.replaced? = none) : Effect s r (s.dropScope handle)
  /-- An interpreter acts, or is changed from outside. -/
  | act {store : Store} {handle : Text} {i j : Interpreter} (stays : r.replaced? = none)
    (found : s.interpreters.find? handle = some i) (places : store.places = s.store.places)
    (advances : i.Advances (r = .run handle) j) :
    Effect s r ({ s with store }.keepInterpreter handle j)
  | create (handle : Text) (setup : Setup) (same : r = .create handle setup) :
    Effect s r ({ s with store := (s.build setup).2 }.keepInterpreter handle (s.build setup).1)
  | dropInterpreter (handle : Text) (same : r = .dropInterpreter handle) :
    Effect s r (s.dropInterpreter handle)

section Effect

variable {s : Session} {r : Request} {handle : Text}

private theorem Effect.refl (stays : r.replaced? = none) : s.Effect r s :=
  .rebind (s := s) stays rfl

private theorem effect_onScope {f : ScopeId → Response} (stays : r.replaced? = none)
    (each : ∀ id, s.Effect r (f id).2) : s.Effect r (s.onScope handle f).2 := by
  unfold onScope
  split
  · exact each _
  · exact .refl stays

private theorem effect_onInterpreter {f : Interpreter → Response} (stays : r.replaced? = none)
    (each : ∀ i, s.interpreters.find? handle = some i → s.Effect r (f i).2) :
    s.Effect r (s.onInterpreter handle f).2 := by
  unfold onInterpreter
  split
  · next i found => exact each i found
  · exact .refl stays

private theorem effect_afterTurn {i : Interpreter} {scope : ScopeId} {turn : Turn Value}
    (stays : r.replaced? = none) (found : s.interpreters.find? handle = some i)
    (confined : turn.Confined i s.store scope)
    (advances : i.Advances (r = .run handle) turn.interpreter) :
    s.Effect r (s.afterTurn handle turn).2 :=
  .act stays found confined.places advances

end Effect

namespace Sound

variable {s : Session} (h : s.Sound) {handle : Text} {i : Interpreter}
  (found : s.interpreters.find? handle = some i)

include h found

private theorem advances_run : i.Advances True (i.run s.store).interpreter := by
  have has := (h.interpreters handle i found).2
  have grows := (i.sound_runFrom s.store i.scope).grows
  rw [i.turn_runFrom h.orderly has] at grows
  by_cases can : i.CanRun
  · refine ⟨grows, .inr ⟨trivial, can, ?_⟩⟩
    rcases Interpreter.stage_run can s.store with ⟨-, done⟩ | ⟨-, failed⟩
    · exact .inl done
    · exact .inr failed
  · refine ⟨grows, .inl ?_⟩
    rw [Interpreter.run_of_not_canRun can]
    exact ⟨rfl, rfl⟩

/-- A block is carried out in a scope that exists. -/
theorem has_runBlock (scope : Option Text) :
    s.store.Has ((scope.bind s.scopes.find?).getD i.scope) := by
  cases given : scope.bind s.scopes.find? with
  | none => exact (h.interpreters handle i found).2
  | some id =>
    obtain ⟨name, -, known⟩ := Option.bind_eq_some_iff.mp given
    exact h.handles name id known

private theorem keeps_runBlock (body : Block) (scope : Option Text) :
    i.Keeps (i.runBlock s.store body (scope.bind s.scopes.find?)).interpreter := by
  have keeps := (i.sound_runBlockFrom s.store i.scope body (scope.bind s.scopes.find?)).2
  rwa [i.turn_runBlockFrom h.orderly i.scope body (h.has_runBlock found scope)] at keeps

private theorem keeps_executeText (t : Text) (filename : Option Text) :
    i.Keeps (i.executeText s.store t filename).interpreter := by
  have has := (h.interpreters handle i found).2
  have keeps := (i.sound_executeTextFrom s.store i.scope t filename).2
  rwa [i.turn_executeTextFrom h.orderly has] at keeps

omit found in
/-- Every request has one of the effects. -/
theorem effect (r : Request) : s.Effect r (s.perform r).2 := by
  cases r with
  | openRoot handle => exact .keepScope handle _ rfl (s.store.places_subset_add none)
  | openChild handle outer =>
    exact effect_onScope rfl fun id =>
      .keepScope handle _ rfl (s.store.places_subset_add (some id))
  | dropScope handle => exact .dropScope handle rfl
  | dropInterpreter handle => exact .dropInterpreter handle rfl
  | define handle name value =>
    refine effect_onScope rfl fun id => ?_
    change s.Effect _ { s with store := (s.store.define id name value).2 }
    unfold Store.define
    split
    · exact .rebind rfl (Store.places_setBindings _ _ _)
    · exact .refl rfl
  | remove handle name =>
    refine effect_onScope rfl fun id => ?_
    change s.Effect _ { s with store := (s.store.remove id name).2 }
    unfold Store.remove
    split
    · exact .rebind rfl (Store.places_setBindings _ _ _)
    · exact .refl rfl
  | lookup | contains | isLocal | depth | listing | names | parent | attributes =>
    exact effect_onScope rfl fun _ => .refl rfl
  | attach handle name content =>
    exact effect_onScope rfl fun id =>
      .rebind rfl (s.store.places_modify id (fun _ => rfl) fun _ => rfl)
  | create handle setup => exact .create handle setup rfl
  | setScript handle script filename =>
    exact effect_onInterpreter rfl fun i found =>
      .act rfl found rfl ((i.keeps_setReader _).advances _)
  | run handle =>
    refine effect_onInterpreter rfl fun i found => ?_
    have advances := h.advances_run found
    exact effect_afterTurn rfl found (i.confined_run s.store) (by simpa using advances)
  | runBlock handle body scope =>
    refine effect_onInterpreter rfl fun i found => ?_
    exact effect_afterTurn rfl found (i.confined_runBlock s.store body _)
      ((h.keeps_runBlock found body scope).advances _)
  | execute handle script filename =>
    refine effect_onInterpreter rfl fun i found => ?_
    exact effect_afterTurn rfl found (i.confined_executeText s.store script filename)
      ((h.keeps_executeText found script filename).advances _)
  | write handle text =>
    exact effect_onInterpreter rfl fun i found =>
      .act rfl found rfl ((i.keeps_write text).advances _)
  | state handle => exact effect_onInterpreter rfl fun _ _ => .refl rfl
  | takeScope handle other =>
    exact effect_onInterpreter rfl fun i _ => .keepScope other i.scope rfl (List.Subset.refl _)

end Sound

/-! ### What becomes of interpreters -/

namespace Effect

variable {s t : Session} {r : Request} (h : s.Effect r t) {handle : Text}

include h

/-- A handle under which no other interpreter is put stands for the same one, which has gone on. -/
theorem advances (stays : r.replaced? ≠ some handle) :
    Option.Rel (Interpreter.Advances (r = .run handle)) (s.interpreters.find? handle)
      (t.interpreters.find? handle) := by
  cases h with
  | rebind | keepScope | dropScope => exact Interpreter.rel_advances _ _
  | @act _ other i j _ found _ goes =>
    change Option.Rel _ _ ((s.interpreters.insert other j).find? handle)
    rw [Table.find?_insert]
    split
    · next same =>
      subst same
      rw [found]
      exact .some goes
    · exact Interpreter.rel_advances _ _
  | create other setup same =>
    have apart : handle ≠ other := fun h => stays (by rw [same, h]; rfl)
    change Option.Rel _ _ ((s.interpreters.insert other _).find? handle)
    rw [Table.find?_insert, if_neg apart]
    exact Interpreter.rel_advances _ _
  | dropInterpreter other same =>
    have apart : handle ≠ other := fun h => stays (by rw [same, h]; rfl)
    change Option.Rel _ _ ((s.interpreters.erase other).find? handle)
    rw [Table.find?_erase, if_neg apart]
    exact Interpreter.rel_advances _ _

theorem advances_of_before (stays : r.replaced? ≠ some handle) {i : Interpreter}
    (found : s.interpreters.find? handle = some i) :
    ∃ j, t.interpreters.find? handle = some j ∧ i.Advances (r = .run handle) j := by
  have goes := h.advances stays
  rw [found] at goes
  generalize t.interpreters.find? handle = after at goes
  cases goes with
  | some advances => exact ⟨_, rfl, advances⟩

theorem advances_of_after (stays : r.replaced? ≠ some handle) {j : Interpreter}
    (found : t.interpreters.find? handle = some j) :
    ∃ i, s.interpreters.find? handle = some i ∧ i.Advances (r = .run handle) j := by
  have goes := h.advances stays
  rw [found] at goes
  generalize s.interpreters.find? handle = before at goes
  cases goes with
  | some advances => exact ⟨_, rfl, advances⟩

theorem scope_eq (stays : r.replaced? ≠ some handle) :
    (t.interpreters.find? handle).map (·.scope) = (s.interpreters.find? handle).map (·.scope) := by
  have goes := h.advances stays
  generalize s.interpreters.find? handle = before at goes ⊢
  generalize t.interpreters.find? handle = after at goes ⊢
  cases goes with
  | some advances => exact congrArg some advances.scope
  | none => rfl

/-- What is put under a handle is a new interpreter. -/
theorem made {i : Interpreter} (replaced : r.replaced? = some handle)
    (found : t.interpreters.find? handle = some i) :
    ∃ setup, r = .create handle setup ∧ i = (s.build setup).1 := by
  cases h with
  | rebind stays | keepScope _ _ stays | dropScope _ stays | act stays =>
    rw [stays] at replaced
    cases replaced
  | create other setup same =>
    subst same
    cases Option.some.inj replaced
    change (s.interpreters.insert handle _).find? handle = some i at found
    rw [Table.find?_insert, if_pos rfl] at found
    exact ⟨setup, rfl, (Option.some.inj found).symm⟩
  | dropInterpreter other same =>
    subst same
    cases Option.some.inj replaced
    change (s.interpreters.erase handle).find? handle = some i at found
    rw [Table.find?_erase, if_pos rfl] at found
    cases found

end Effect

/-! ### Steady sessions -/

/-- Nothing is left to be settled, no interpreter is at work, and each is seated. -/
structure Steady (s : Session) : Prop where
  settled : ∀ p ∈ s.store.places, p.1 ∈ s.held
  interpreters : ∀ handle i, s.interpreters.find? handle = some i →
    i.stage ≠ .running ∧ i.Seated s.store

private theorem steady_empty : empty.Steady :=
  ⟨fun _ inside => (List.not_mem_nil inside).elim, fun _ _ found => by simp [empty] at found⟩

/-- Settling keeps what interpreters hold. -/
theorem steady_settle {s : Session} (each : ∀ handle i, s.interpreters.find? handle = some i →
    i.stage ≠ .running ∧ i.Seated s.store) : s.settle.Steady where
  settled := by
    intro p inside
    change p ∈ (s.store.retain s.held).places at inside
    rw [Store.places_retain] at inside
    exact List.contains_iff_mem.mp (List.mem_filter.mp inside).2
  interpreters handle i found := by
    refine (each handle i found).imp_right fun seated => seated.imp_right fun place => ?_
    change _ ∈ (s.store.retain s.held).places
    rw [Store.places_retain]
    have inside := Table.mem_entries_iff.mpr found
    have held : i.scope ∈ s.held :=
      List.mem_append_right _ (List.mem_flatMap.mpr ⟨_, inside, by simp⟩)
    exact List.mem_filter.mpr ⟨place, List.contains_iff_mem.mpr held⟩

/-- A steady session has been settled. -/
theorem Steady.settle_eq {s : Session} (h : s.Steady) : s.settle = s := by
  have kept : s.store.scopes.filter (fun scope => s.held.contains scope.id) = s.store.scopes := by
    apply List.filter_eq_self.mpr
    intro scope inside
    exact List.contains_iff_mem.mpr (h.settled _ (List.mem_map_of_mem inside))
  have same : s.store.retain s.held = s.store := congrArg (Store.mk s.store.next) kept
  unfold settle
  rw [same]

/-- A new interpreter is ready, its output is its banner, and it is seated. -/
theorem build_spec (s : Session) (setup : Setup) : (s.build setup).1.stage = .ready ∧
    (s.build setup).1.output = setup.banner ∧ (s.build setup).1.Seated (s.build setup).2 ∧
    s.store.places ⊆ (s.build setup).2.places := by
  have made (i : Interpreter) {store : Store} (same : i.scope = i.given)
      (places : s.store.places ⊆ store.places) :
      let made := if setup.inChild then i.inChild store else (i, store)
      made.1.stage = i.stage ∧ made.1.output = i.output ∧ made.1.Seated made.2 ∧
        s.store.places ⊆ made.2.places := by
    dsimp only
    split
    · exact ⟨rfl, rfl, .inr List.mem_cons_self,
        List.Subset.trans places (store.places_subset_add (some i.given))⟩
    · exact ⟨rfl, rfl, .inl same, places⟩
  unfold build
  dsimp only
  cases setup.scope.bind s.scopes.find? with
  | some id => exact made (.ofScope _ _ _ _) rfl (List.Subset.refl _)
  | none => exact made (.ofScope _ _ _ _) rfl (s.store.places_subset_add none)

/-- Every effect keeps a session steady. -/
theorem Effect.steady {s t : Session} {r : Request} (h : s.Effect r t) (steady : s.Steady) :
    t.Steady := by
  have each {store : Store} (places : s.store.places ⊆ store.places) :
      ∀ handle i, s.interpreters.find? handle = some i → i.stage ≠ .running ∧ i.Seated store :=
    fun handle i found => (steady.interpreters handle i found).imp_right fun seated =>
      seated.imp_right fun place => places place
  cases h with
  | rebind _ same =>
    refine ⟨fun p inside => steady.settled p (same ▸ inside), each ?_⟩
    exact same ▸ List.Subset.refl _
  | keepScope _ _ _ places => exact steady_settle (each places)
  | dropScope => exact steady_settle steady.interpreters
  | @act store handle i j _ found same advances =>
    have places : s.store.places ⊆ store.places := same ▸ List.Subset.refl _
    have others := each places
    obtain ⟨resting, seated⟩ := others handle i found
    refine steady_settle (Table.forall_insert others ⟨?_, ?_⟩)
    · rcases advances.stage with ⟨stage, -⟩ | ⟨-, -, done | failed⟩
      · exact stage ▸ resting
      · simp [done]
      · simp [failed]
    · unfold Interpreter.Seated at seated ⊢
      rwa [advances.scope, advances.given]
  | create handle setup =>
    obtain ⟨ready, -, seated, places⟩ := s.build_spec setup
    exact steady_settle (Table.forall_insert (each places) ⟨by simp [ready], seated⟩)
  | dropInterpreter handle => exact steady_settle (Table.forall_erase steady.interpreters)

private theorem Steady.performAll {s : Session} (h : s.Steady) (sound : s.Sound)
    (requests : List Request) : (s.performAll requests).2.Steady := by
  induction requests generalizing s with
  | nil => exact h
  | cons first rest ih => exact ih ((sound.effect first).steady h) (sound.perform first)

/-- Every history of a session leaves it steady. -/
theorem steady_performAll (requests : List Request) : (empty.performAll requests).2.Steady :=
  steady_empty.performAll sound_empty requests

/-- A run that is refused leaves a steady session as it is. -/
theorem Steady.perform_run {s : Session} (h : s.Steady) {handle : Text} {i : Interpreter}
    (found : s.interpreters.find? handle = some i) (other : ¬ i.CanRun) :
    s.perform (.run handle) = (.error (.diagnostic { cause := i.refusal }), s) := by
  have same : ({ s with interpreters := s.interpreters.insert handle i } : Session) = s := by
    rw [Table.insert_of_find? found]
  change s.onInterpreter handle _ = _
  unfold onInterpreter afterTurn keepInterpreter
  rw [found]
  dsimp only
  rw [Interpreter.run_of_not_canRun other]
  dsimp only
  rw [same, h.settle_eq]
  rfl

/-- A run that is not refused leaves the interpreter done or failed, as it is answered. -/
theorem perform_run_of_canRun {s : Session} {handle : Text} {i : Interpreter}
    (found : s.interpreters.find? handle = some i) (can : i.CanRun) :
    ∃ j, (s.perform (.run handle)).2.interpreters.find? handle = some j ∧
      ((∃ answer, (s.perform (.run handle)).1 = .ok answer) ∧ j.stage = .done ∨
        (∃ failure, (s.perform (.run handle)).1 = .error failure) ∧ j.stage = .failed) := by
  have answered : s.perform (.run handle) = s.afterTurn handle (i.run s.store) := by
    change s.onInterpreter handle _ = _
    unfold onInterpreter
    rw [found]
  have after : (s.afterTurn handle (i.run s.store)).2.interpreters.find? handle =
      some (i.run s.store).interpreter := by
    change (s.interpreters.insert handle _).find? handle = _
    rw [Table.find?_insert, if_pos rfl]
  rw [answered]
  refine ⟨_, after, ?_⟩
  rcases Interpreter.stage_run can s.store with ⟨⟨value, ok⟩, done⟩ | ⟨⟨failure, fails⟩, failed⟩
  · exact .inl ⟨⟨.value value, congrArg (Except.map Answer.value) ok⟩, done⟩
  · exact .inr ⟨⟨failure, congrArg (Except.map Answer.value) fails⟩, failed⟩

end Session
end TinyTcl
