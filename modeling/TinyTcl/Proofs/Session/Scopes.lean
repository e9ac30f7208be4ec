import TinyTcl.Proofs.Scope.Nearest
import TinyTcl.Proofs.Session.Sound

/-! What requests about scopes come to, behind any history of a session. A name stands for what the
nearest scope binds it to, and a change of it in one scope is seen from no other scopes than those
that reach it (`Session.nearest_binding`). What a scope binds by itself does not depend on the scopes
around it, except that the removal of a binding is refused, after it was made, where one of them is
gone (`Session.own_bindings`). -/
namespace TinyTcl

private theorem Chain.depth_cases (c : Chain) : (∃ n, c.depth = .ok n) ∧ c.isWhole = true ∨
    c.depth = .error .lostScope ∧ c.isWhole = false := by
  induction c with
  | root => exact .inl ⟨⟨0, rfl⟩, rfl⟩
  | lost => exact .inr ⟨rfl, rfl⟩
  | link bindings outer ih =>
    rw [depth, isWhole]
    rcases ih with ⟨⟨n, known⟩, whole⟩ | ⟨missing, broken⟩
    · rw [known]
      exact .inl ⟨⟨n + 1, rfl⟩, whole⟩
    · rw [missing]
      exact .inr ⟨rfl, broken⟩

private theorem Except.map_eq_map_iff {α β : Type} {f : α → β}
    (injective : ∀ a b, f a = f b → a = b) {x y : Except Failure α} :
    x.map f = y.map f ↔ x = y := by
  refine ⟨fun same => ?_, congrArg _⟩
  cases x with
  | ok a =>
    cases y with
    | ok b => rw [injective a b (Except.ok.inj same)]
    | error failure => cases same
  | error failure =>
    cases y with
    | ok b => cases same
    | error other => rw [Except.error.inj same]

/-- A request that changes what a name stands for in the scope under a handle. -/
inductive Request.Updates (handle name : Text) : Request → Prop where
  | define (value : HostValue) : Updates handle name (.define handle name value)
  | remove : Updates handle name (.remove handle name)

/-- The handle of the scope that a request asks or changes. -/
def Request.scope? : Request → Option Text
  | .define handle _ _ | .lookup handle _ | .remove handle _ | .contains handle _
  | .isLocal handle _ | .depth handle | .listing handle | .names handle | .parent handle
  | .attach handle _ _ | .attributes handle | .openChild _ handle => some handle
  | _ => none

namespace Session

section Scope

variable {s : Session} {handle : Text} {id : ScopeId} (found : s.scopes.find? handle = some id)

include found

private theorem onScope_eq (f : ScopeId → Response) : s.onScope handle f = f id := by
  rw [onScope, found]

private theorem perform_lookup (name : Text) :
    s.perform (.lookup handle name) = (((s.store.chain id).lookup name).map .value, s) :=
  onScope_eq found _

private theorem perform_contains (name : Text) :
    s.perform (.contains handle name) = (((s.store.chain id).contains name).map .flag, s) :=
  onScope_eq found _

private theorem perform_isLocal (name : Text) : s.perform (.isLocal handle name) =
    (.ok (.flag ((s.store.bindings id).contains name)), s) :=
  onScope_eq found _

theorem perform_names :
    s.perform (.names handle) = (.ok (.texts (s.store.bindings id).names), s) :=
  onScope_eq found _

theorem perform_define (name : Text) (value : HostValue) :
    s.perform (.define handle name value) = match Value.ofHost value with
      | .ok v => (.ok (.value v),
        { s with store := s.store.setBindings id ((s.store.bindings id).insert name v) })
      | .error failure => (.error failure, s) := by
  refine (onScope_eq found _).trans ?_
  unfold Store.define
  cases Value.ofHost value <;> rfl

/-- A binding is removed from the scope alone; the request fails where a scope around it is gone. -/
theorem Sound.perform_remove (h : s.Sound) (name : Text) :
    s.perform (.remove handle name) =
      (if (s.store.bindings id).contains name && !(s.store.around id).isWhole then
        .error .lostScope else .ok .nothing,
      { s with store := s.store.setBindings id ((s.store.bindings id).erase name) }) := by
  refine (onScope_eq found _).trans ?_
  unfold Store.remove
  cases bound : (s.store.bindings id).contains name with
  | true =>
    dsimp only
    rw [if_pos rfl, Store.depth]
    rcases (s.store.around id).depth_cases with ⟨⟨n, known⟩, whole⟩ | ⟨missing, broken⟩
    · rw [known, whole]
      rfl
    · rw [missing, broken]
      rfl
  | false =>
    rw [Table.erase_of_unbound bound, h.orderly.setBindings_self (h.handles handle id found)]
    rfl

/-- An update changes what one scope binds one name to, and nothing else. -/
theorem Sound.exists_setBindings (h : s.Sound) {r : Request} {name : Text}
    (updates : r.Updates handle name) :
    ∃ b, (s.perform r).2 = { s with store := s.store.setBindings id b } ∧
      ∀ other, other ≠ name → b.find? other = (s.store.bindings id).find? other := by
  cases updates with
  | define value =>
    rw [perform_define found]
    cases Value.ofHost value with
    | ok v => exact ⟨_, rfl, fun other apart => by rw [Table.find?_insert, if_neg apart]⟩
    | error failure =>
      refine ⟨s.store.bindings id, ?_, fun _ _ => rfl⟩
      rw [h.orderly.setBindings_self (h.handles handle id found)]
  | remove =>
    rw [h.perform_remove found]
    exact ⟨_, rfl, fun other apart => by rw [Table.find?_erase, if_neg apart]⟩

end Scope

/-! ### The nearest binding -/

section Updates

variable {s : Session} (h : s.Sound) {handle other name : Text} {d a : ScopeId}
  (found : s.scopes.find? handle = some d) (known : s.scopes.find? other = some a)

include h found known

/-- Only an update of the same name, without a nearer binding, shows. -/
theorem Sound.reaches_of_updates {r : Request} {m : Text} (updates : r.Updates other m)
    (shows : ((s.perform r).2.perform (.lookup handle name)).1 ≠
      (s.perform (.lookup handle name)).1) :
    m = name ∧ s.store.Reaches name d a := by
  obtain ⟨b, after, others⟩ := h.exists_setBindings known updates
  have looked := congrArg Prod.fst
    (perform_lookup (s := { s with store := s.store.setBindings a b }) found name)
  rw [after, looked, congrArg Prod.fst (perform_lookup found name)] at shows
  have differs : ((s.store.setBindings a b).chain d).lookup name ≠
      (s.store.chain d).lookup name :=
    fun same => shows (congrArg (Except.map Answer.value) same)
  obtain ⟨changed, reaches⟩ := h.orderly.reaches_of_lookup_ne (h.handles handle d found)
    (h.handles other a known) differs
  refine ⟨?_, reaches⟩
  by_cases same : name = m
  · exact same.symm
  · exact absurd (others name same) changed

/-- What is seen of a scope that is reached. -/
theorem Sound.perform_lookup_setBindings (reaches : s.store.Reaches name d a) (b : Bindings) :
    ({ s with store := s.store.setBindings a b }.perform (.lookup handle name)).1 =
      ((Chain.link b (s.store.around a)).lookup name).map .value := by
  rw [perform_lookup (s := { s with store := s.store.setBindings a b }) found name]
  dsimp only
  rw [h.orderly.lookup_setBindings_of_reaches (h.handles handle d found)
    (h.handles other a known) reaches]

/-- A look-up finds what was defined in a scope that is reached. -/
theorem Sound.lookup_define (reaches : s.store.Reaches name d a) {value : HostValue} {v : Value}
    (converted : Value.ofHost value = .ok v) :
    ((s.perform (.define other name value)).2.perform (.lookup handle name)).1 =
      .ok (.value v) := by
  have newest : ((s.store.bindings a).insert name v).find? name = some v := by
    rw [Table.find?_insert, if_pos rfl]
  rw [perform_define known, converted]
  exact (h.perform_lookup_setBindings found known reaches _).trans
    (congrArg _ (Chain.lookup_link_of_find? newest))

/-- Behind a removal in a scope that is reached, a look-up sees what is around that scope. -/
theorem Sound.lookup_remove (reaches : s.store.Reaches name d a) :
    ((s.perform (.remove other name)).2.perform (.lookup handle name)).1 =
      ((s.store.around a).lookup name).map .value := by
  have unbound : ((s.store.bindings a).erase name).find? name = none := by
    rw [Table.find?_erase, if_pos rfl]
  rw [h.perform_remove known]
  exact (h.perform_lookup_setBindings found known reaches _).trans
    (congrArg _ (Chain.lookup_link_of_unbound unbound))

end Updates

/-- **Look-ups find the nearest binding.** Let a host program have done what it likes. A look-up in a
scope ends as the walk outwards does: with the value in the first scope that binds the name; with the
failure that a scope is gone, if that is met before a binding; with an unbound variable, if all
scopes up to a root exist and none binds the name. Whether the name is bound is answered alike. An
update of a name in a scope changes the outcome of a look-up only if it is of the same name, in a
scope that is reached without a nearer binding; then the look-up finds what was defined, or, behind a
removal, what the name stands for around that scope. -/
theorem nearest_binding {requests : List Request} {handle : Text} {d : ScopeId}
    (found : (empty.performAll requests).2.scopes.find? handle = some d) (name : Text) :
    let s := (empty.performAll requests).2
    let lookup (s : Session) := (s.perform (.lookup handle name)).1
    let contains := (s.perform (.contains handle name)).1
    (∀ outcome, lookup s = outcome.map .value ↔ s.store.Walk name d outcome) ∧
      (contains = .ok (.flag true) ↔ ∃ v, s.store.Walk name d (.ok v)) ∧
      (contains = .error .lostScope ↔ s.store.Walk name d (.error .lostScope)) ∧
      (contains = .ok (.flag false) ↔
        s.store.Walk name d (.error (.diagnostic { cause := .unboundVariable name }))) ∧
      ∀ other a, s.scopes.find? other = some a →
        (∀ r m, r.Updates other m → lookup (s.perform r).2 ≠ lookup s →
          m = name ∧ s.store.Reaches name d a) ∧
        (s.store.Reaches name d a →
          (∀ value v, Value.ofHost value = .ok v →
            lookup (s.perform (.define other name value)).2 = .ok (.value v)) ∧
          lookup (s.perform (.remove other name)).2 =
            ((s.store.around a).lookup name).map .value) := by
  intro s lookup contains
  have sound : s.Sound := sound_performAll requests
  have has : s.store.Has d := sound.handles handle d found
  have looked : lookup s = ((s.store.chain d).lookup name).map .value :=
    congrArg Prod.fst (perform_lookup found name)
  have asked : contains = ((s.store.chain d).contains name).map .flag :=
    congrArg Prod.fst (perform_contains found name)
  have flags {x y : Except Failure Bool} : x.map Answer.flag = y.map .flag ↔ x = y :=
    Except.map_eq_map_iff fun _ _ => Answer.flag.inj
  obtain ⟨bound, lost, unbound⟩ := @Store.Orderly.contains_cases _ sound.orderly _ has name
  refine ⟨fun outcome => ?_, ?_, ?_, ?_, fun other a known => ⟨fun r m updates shows => ?_,
    fun reaches => ⟨fun value v converted => ?_, ?_⟩⟩⟩
  · rw [looked, Except.map_eq_map_iff fun _ _ => Answer.value.inj]
    exact sound.orderly.lookup_eq_iff has
  · rw [asked, ← bound]
    exact flags (y := .ok true)
  · rw [asked, ← lost]
    exact flags (y := .error .lostScope)
  · rw [asked, ← unbound]
    exact flags (y := .ok false)
  · exact sound.reaches_of_updates found known updates shows
  · exact sound.lookup_define found known reaches converted
  · exact sound.lookup_remove found known reaches

/-- A scope around two others is gone; the one between them binds a name. -/
theorem nearest_binding_dropped :
    let requests : List Request := [.openRoot ['g'], .openChild ['m'] ['g'],
      .openChild ['l'] ['m'], .define ['g'] ['x'] (.text ['1']),
      .define ['m'] ['x'] (.text ['2']), .dropScope ['g']]
    let s := (empty.performAll requests).2
    let lookup (s : Session) (name : Text) := (s.perform (.lookup ['l'] name)).1
    s.scopes.find? ['l'] = some 2 ∧ s.scopes.find? ['m'] = some 1 ∧
      s.store.Walk ['x'] 2 (.ok (.string ['2'])) ∧ s.store.Walk ['y'] 2 (.error .lostScope) ∧
      lookup (s.perform (.remove ['m'] ['x'])).2 ['x'] ≠ lookup s ['x'] ∧
      s.store.Reaches ['x'] 2 1 ∧
      lookup (s.perform (.define ['m'] ['x'] .nothing)).2 ['x'] = .ok (.value .empty) := by
  intro requests s lookup
  have found : s.scopes.find? ['l'] = some 2 := rfl
  have middle : s.scopes.find? ['m'] = some 1 := rfl
  obtain ⟨known, -, -, -, updates⟩ := nearest_binding found ['x']
  obtain ⟨-, -, lost, -⟩ := nearest_binding found ['y']
  obtain ⟨changes, defines⟩ := updates ['m'] 1 middle
  have shows : lookup (s.perform (.remove ['m'] ['x'])).2 ['x'] ≠ lookup s ['x'] := nofun
  have reaches := (changes _ _ .remove shows).2
  exact ⟨found, middle, (known _).mp rfl, lost.mp rfl, shows, reaches,
    (defines reaches).1 .nothing .empty rfl⟩

/-! ### What a scope binds by itself -/

/-- The outcome of a request, and what a scope binds behind it. -/
def result (s : Session) (id : ScopeId) (r : Request) : Except Failure Answer × Bindings :=
  ((s.perform r).1, (s.perform r).2.store.bindings id)

section Own

variable {s : Session} (h : s.Sound) {handle : Text} {id : ScopeId}
  (found : s.scopes.find? handle = some id)

include h found

private theorem Sound.result_define (name : Text) (value : HostValue) :
    s.result id (.define handle name value) = match Value.ofHost value with
      | .ok v => (.ok (.value v), (s.store.bindings id).insert name v)
      | .error failure => (.error failure, s.store.bindings id) := by
  rw [result, perform_define found]
  cases Value.ofHost value with
  | ok v => exact congrArg _ (h.orderly.bindings_setBindings (h.handles handle id found))
  | error failure => rfl

private theorem Sound.bindings_remove (name : Text) :
    (s.perform (.remove handle name)).2.store.bindings id = (s.store.bindings id).erase name := by
  rw [h.perform_remove found]
  exact h.orderly.bindings_setBindings (h.handles handle id found)

/-- A second removal finds nothing to do. -/
theorem Sound.perform_remove_remove (name : Text) :
    let after := (s.perform (.remove handle name)).2
    after.perform (.remove handle name) = (.ok .nothing, after) := by
  intro after
  have known : after.scopes.find? handle = some id := by
    change (s.perform (.remove handle name)).2.scopes.find? handle = some id
    rw [h.perform_remove found]
    exact found
  have gone : (after.store.bindings id).contains name = false := by
    rw [h.bindings_remove found, Table.contains, Table.find?_erase, if_pos rfl]
    rfl
  have sound : after.Sound := h.perform _
  rw [sound.perform_remove known, gone, Table.erase_of_unbound gone,
    sound.orderly.setBindings_self (sound.handles handle id known)]
  rfl

/-- A request about a scope that fails has changed no binding of the scope, unless it removed one. -/
theorem Sound.bindings_of_error {r : Request} (asks : r.scope? = some handle) {failure : Failure}
    (fails : (s.perform r).1 = .error failure) (stays : (s.perform r).2.store.Has id) :
    (s.perform r).2.store.bindings id = s.store.bindings id ∨
      ∃ name, r = .remove handle name ∧ (s.store.bindings id).contains name = true ∧
        (s.store.around id).isWhole = false := by
  cases r with
  | define other name value =>
    cases asks
    have after := h.result_define found name value
    rw [result, fails] at after
    cases converted : Value.ofHost value with
    | ok v =>
      rw [converted] at after
      cases (Prod.mk.inj after).1
    | error failure =>
      rw [converted] at after
      exact .inl (Prod.mk.inj after).2
  | remove other name =>
    cases asks
    rw [h.perform_remove found] at fails
    split at fails
    · next refused => exact .inr ⟨name, rfl, by simpa using refused⟩
    · cases fails
  | openChild child other =>
    cases asks
    left
    have opened : s.perform (.openChild child handle) =
        { s with store := (s.store.add (some id)).2 }.adopt child (s.store.add (some id)).1 :=
      onScope_eq found _
    rw [opened] at stays ⊢
    refine (Store.bindings_retain (Store.has_retain.mp stays).2).trans ?_
    exact h.orderly.bindings_add_of_has (h.handles handle id found) _
  | lookup | contains | isLocal | depth | listing | names | parent | attributes =>
    cases asks
    exact .inl (congrArg (fun s : Session => s.store.bindings id)
      (congrArg Prod.snd (onScope_eq found _)))
  | attach other name content =>
    cases asks
    cases (congrArg Prod.fst (onScope_eq found _)).symm.trans fails
  | _ => cases asks

end Own

/-- **A scope is its own.** Let two host programs have done what they like, so that two scopes bind
the same, whatever became of the scopes around them. Defining a name, asking for one, and listing the
names come to the same in both, with the same bindings behind it, and a removal leaves the same
bindings in both.

A removal takes away the binding of the scope itself and nothing else in the session; it is refused
if and only if the name was bound and a scope around is gone, and then the binding is removed all the
same. A second removal is never refused and changes nothing. Any other request about a scope that
fails has changed no binding of it. -/
theorem own_bindings {requests others : List Request} {handle other : Text} {c d : ScopeId}
    (found : (empty.performAll requests).2.scopes.find? handle = some c)
    (found' : (empty.performAll others).2.scopes.find? other = some d)
    (same : (empty.performAll requests).2.store.bindings c =
      (empty.performAll others).2.store.bindings d) :
    let s := (empty.performAll requests).2
    let t := (empty.performAll others).2
    (∀ name value,
        s.result c (.define handle name value) = t.result d (.define other name value)) ∧
      (∀ name, s.result c (.isLocal handle name) = t.result d (.isLocal other name)) ∧
      s.result c (.names handle) = t.result d (.names other) ∧
      (∀ name, (s.result c (.remove handle name)).2 = (t.result d (.remove other name)).2) ∧
      (∀ name, ∃ outcome after, s.perform (.remove handle name) = (outcome, after) ∧
        after = { s with
          store := s.store.setBindings c ((s.store.bindings c).erase name) } ∧
        ((s.store.bindings c).contains name = true ∧ (s.store.around c).isWhole = false ∧
            outcome = .error .lostScope ∨
          ((s.store.bindings c).contains name = false ∨ (s.store.around c).isWhole = true) ∧
            outcome = .ok .nothing) ∧
        after.perform (.remove handle name) = (.ok .nothing, after)) ∧
      ∀ r failure, r.scope? = some handle → (s.perform r).1 = .error failure →
        (s.perform r).2.store.Has c →
        (s.perform r).2.store.bindings c = s.store.bindings c ∨
          ∃ name, r = .remove handle name ∧ (s.store.bindings c).contains name = true ∧
            (s.store.around c).isWhole = false := by
  intro s t
  have here : s.Sound := sound_performAll requests
  have there : t.Sound := sound_performAll others
  refine ⟨fun name value => ?_, fun name => ?_, ?_, fun name => ?_, fun name => ?_, ?_⟩
  · rw [here.result_define found, there.result_define found', same]
  · rw [result, result, perform_isLocal found, perform_isLocal found', same]
  · rw [result, result, perform_names found, perform_names found', same]
  · exact (here.bindings_remove found name).trans
      (same ▸ (there.bindings_remove found' name).symm)
  · have again := here.perform_remove_remove found name
    rw [here.perform_remove found] at again ⊢
    refine ⟨_, _, rfl, rfl, ?_, again⟩
    cases (s.store.bindings c).contains name <;> cases (s.store.around c).isWhole <;> simp
  · exact fun r failure asks => here.bindings_of_error found asks

/-- The same scope with the scope around it there, and with that gone. -/
theorem own_bindings_dropped :
    let requests : List Request := [.openRoot ['g'], .openChild ['c'] ['g'],
      .define ['c'] ['x'] (.text ['1'])]
    let s := (empty.performAll requests).2
    let t := (empty.performAll (requests ++ [.dropScope ['g']])).2
    s.scopes.find? ['c'] = some 1 ∧ t.scopes.find? ['c'] = some 1 ∧
      s.store.bindings 1 = t.store.bindings 1 ∧
      s.result 1 (.define ['c'] ['y'] .nothing) = t.result 1 (.define ['c'] ['y'] .nothing) ∧
      (s.result 1 (.remove ['c'] ['x'])).2 = (t.result 1 (.remove ['c'] ['x'])).2 ∧
      (t.store.bindings 1).contains ['x'] = true ∧ (t.store.around 1).isWhole = false ∧
      (s.perform (.remove ['c'] ['x'])).1 = .ok .nothing ∧
      (t.perform (.remove ['c'] ['x'])).1 = .error .lostScope := by
  intro requests s t
  have found : s.scopes.find? ['c'] = some 1 := rfl
  have found' : t.scopes.find? ['c'] = some 1 := rfl
  have same : s.store.bindings 1 = t.store.bindings 1 := rfl
  obtain ⟨defines, -, -, removes, -, -⟩ := own_bindings found found' same
  obtain ⟨-, -, -, -, refused, -⟩ := own_bindings found' found same.symm
  obtain ⟨outcome, after, answer, -, cases, -⟩ := refused ['x']
  refine ⟨found, found', same, defines _ _, removes _, rfl, rfl, rfl, ?_⟩
  rw [answer]
  rcases cases with ⟨-, -, lost⟩ | ⟨unbound | whole, -⟩
  · exact lost
  · cases unbound
  · cases whole

end Session
end TinyTcl
