import TinyTcl.Proofs.Scope.Orderly

/-! The nearest binding. From a scope one walks outwards, from each scope to the one around it, as
long as that exists and the name has not been met (`Store.Reaches`). Where the walk ends decides what
a name stands for: at a scope that binds it, in front of one that is gone, or at a root
(`Store.Walk`); a look-up has that outcome and no other (`Store.Orderly.lookup_eq_iff`). So a change
of one name in one scope shows from those scopes alone that reach it
(`Store.Orderly.reaches_of_lookup_ne`). -/
namespace TinyTcl

private theorem Table.find?_of_unbound {α : Type} {t : Table α} {name : Text}
    (unbound : t.contains name = false) : t.find? name = none := by
  simpa [contains] using unbound

/-- Whether a name is bound is answered where the name could be looked up. -/
theorem Chain.contains_eq (name : Text) (c : Chain) : c.contains name =
    match c.lookup name with
    | .ok _ => .ok true
    | .error (.diagnostic _) => .ok false
    | .error failure => .error failure := by
  induction c with
  | root => rfl
  | lost => rfl
  | link bindings outer ih =>
    cases bound : bindings.find? name with
    | some v => simp [contains, Table.contains, lookup, bound]
    | none => simpa [contains, Table.contains, lookup, bound] using ih

namespace Store

/-- The scope around a scope; a root has none, nor has a scope that does not exist. -/
def outer? (s : Store) (id : ScopeId) : Option ScopeId := (s.find? id).bind (·.parent)

/-- From one scope another is reached outwards, through scopes that exist and do not bind a name. -/
inductive Reaches (s : Store) (name : Text) : ScopeId → ScopeId → Prop where
  | here (id : ScopeId) : Reaches s name id id
  | outwards {id outer reached : ScopeId} (unbound : (s.bindings id).contains name = false)
    (around : s.outer? id = some outer) (has : s.Has outer)
    (beyond : Reaches s name outer reached) : Reaches s name id reached

/-- How the walk outwards in search of a name ends. -/
inductive Walk (s : Store) (name : Text) (id : ScopeId) : Except Failure Value → Prop where
  /-- A scope binds the name, and none that is nearer does. -/
  | bound {reached : ScopeId} {v : Value} (reaches : s.Reaches name id reached)
    (bound : (s.bindings reached).find? name = some v) : Walk s name id (.ok v)
  /-- A scope is gone, and none in front of it binds the name. -/
  | lost {reached outer : ScopeId} (reaches : s.Reaches name id reached)
    (unbound : (s.bindings reached).contains name = false) (around : s.outer? reached = some outer)
    (gone : ¬ s.Has outer) : Walk s name id (.error .lostScope)
  /-- All scopes up to a root exist, and none binds the name. -/
  | unbound {reached : ScopeId} (reaches : s.Reaches name id reached)
    (unbound : (s.bindings reached).contains name = false) (root : s.outer? reached = none) :
    Walk s name id (.error (.diagnostic { cause := .unboundVariable name }))

private theorem Walk.outwards {s : Store} {name : Text} {id outer : ScopeId}
    (unbound : (s.bindings id).contains name = false) (around : s.outer? id = some outer)
    (has : s.Has outer) {outcome : Except Failure Value} (walk : s.Walk name outer outcome) :
    s.Walk name id outcome := by
  cases walk with
  | bound reaches bound => exact .bound (.outwards unbound around has reaches) bound
  | lost reaches free place gone => exact .lost (.outwards unbound around has reaches) free place gone
  | unbound reaches free root => exact .unbound (.outwards unbound around has reaches) free root

/-! ### What is seen around a scope -/

section Around

variable {s : Store} {id outer : ScopeId}

/-- Nothing is seen of a scope that is gone. -/
theorem chain_of_not_has (gone : ¬ s.Has id) : s.chain id = .lost := by
  unfold Has at gone
  unfold chain
  generalize s.scopes = scopes at gone ⊢
  induction scopes with
  | nil => rfl
  | cons scope older ih =>
    have apart : scope.id ≠ id := fun same => gone ⟨scope, List.mem_cons_self, same⟩
    rw [chainIn, if_neg apart]
    refine ih ?_
    rintro ⟨other, inside, same⟩
    exact gone ⟨other, List.mem_cons_of_mem _ inside, same⟩

private theorem around_of_outer? (around : s.outer? id = some outer) :
    s.around id = s.chain outer := by
  obtain ⟨scope, found, parent⟩ := Option.bind_eq_some_iff.mp around
  rw [Store.around, found]
  dsimp only
  rw [parent]
  rfl

private theorem Orderly.around_of_root (h : s.Orderly) (has : s.Has id)
    (root : s.outer? id = none) :
    s.around id = .root := by
  obtain ⟨scope, newer, older, rfl, stands⟩ := h.exists_stands has
  rw [outer?, stands.find?_eq] at root
  have outermost : scope.parent = none := root
  rw [stands.around_eq, outermost]
  cases older <;> rfl

/-- A scope is younger than the one around it. -/
theorem Orderly.outer_lt (h : s.Orderly) (around : s.outer? id = some outer) : outer < id := by
  obtain ⟨scope, found, parent⟩ := Option.bind_eq_some_iff.mp around
  have same : scope.id = id := by simpa using List.find?_some found
  exact same ▸ h.nested scope (List.mem_of_find?_eq_some found) outer parent

private theorem Orderly.le_of_reaches (h : s.Orderly) {name : Text} {reached : ScopeId}
    (reaches : s.Reaches name id reached) : reached ≤ id := by
  induction reaches with
  | here => exact Nat.le_refl _
  | outwards _ around _ _ ih => exact Nat.le_trans ih (Nat.le_of_lt (h.outer_lt around))

/-- A name stands for its own value in a scope, or else for what it stands for around the scope. -/
theorem Orderly.lookup_eq (h : s.Orderly) (has : s.Has id) (name : Text) :
    (s.chain id).lookup name =
      match (s.bindings id).find? name, s.outer? id with
      | some v, _ => .ok v
      | none, some outer => (s.chain outer).lookup name
      | none, none => .error (.diagnostic { cause := .unboundVariable name }) := by
  rw [h.chain_eq has]
  cases bound : (s.bindings id).find? name with
  | some v => exact Chain.lookup_link_of_find? bound
  | none =>
    rw [Chain.lookup_link_of_unbound bound]
    cases around : s.outer? id with
    | some outer => rw [around_of_outer? around]
    | none =>
      rw [h.around_of_root has around]
      rfl

end Around

/-! ### Look-ups walk outwards -/

section Lookup

variable {s : Store} (h : s.Orderly) {id : ScopeId} (has : s.Has id) {name : Text}

include h has

/-- A name stands for the same in all scopes that reach one. -/
theorem Orderly.lookup_of_reaches {reached : ScopeId} (reaches : s.Reaches name id reached) :
    s.Has reached ∧ (s.chain id).lookup name = (s.chain reached).lookup name := by
  induction reaches with
  | here => exact ⟨has, rfl⟩
  | outwards unbound around exist _ ih =>
    obtain ⟨there, same⟩ := ih exist
    exact ⟨there, by rw [h.lookup_eq has, Table.find?_of_unbound unbound, around, ← same]⟩

/-- The walk from a scope ends as the look-up does. -/
theorem Orderly.walk_lookup : s.Walk name id ((s.chain id).lookup name) := by
  -- Each scope is younger than the one around it.
  induction id using Nat.strongRecOn with
  | ind id ih =>
    rw [h.lookup_eq has]
    cases bound : (s.bindings id).find? name with
    | some v => exact .bound (.here id) bound
    | none =>
      have unbound : (s.bindings id).contains name = false := by simp [Table.contains, bound]
      cases around : s.outer? id with
      | none => exact .unbound (.here id) unbound around
      | some outer =>
        by_cases exist : s.Has outer
        · exact .outwards unbound around exist (ih outer (h.outer_lt around) exist)
        · dsimp only
          rw [chain_of_not_has exist]
          exact .lost (.here id) unbound around exist

/-- A look-up has an outcome if and only if the walk outwards ends like that. -/
theorem Orderly.lookup_eq_iff {outcome : Except Failure Value} :
    (s.chain id).lookup name = outcome ↔ s.Walk name id outcome := by
  refine ⟨fun same => same ▸ h.walk_lookup has, fun walk => ?_⟩
  cases walk with
  | bound reaches bound =>
    obtain ⟨there, same⟩ := h.lookup_of_reaches has reaches
    rw [same, h.lookup_eq there, bound]
  | lost reaches unbound around gone =>
    obtain ⟨there, same⟩ := h.lookup_of_reaches has reaches
    rw [same, h.lookup_eq there, Table.find?_of_unbound unbound, around]
    dsimp only
    rw [chain_of_not_has gone, Chain.lookup]
  | unbound reaches unbound root =>
    obtain ⟨there, same⟩ := h.lookup_of_reaches has reaches
    rw [same, h.lookup_eq there, Table.find?_of_unbound unbound, root]

/-- A name is bound, unknown or out of reach as the walk in search of it ends. -/
theorem Orderly.contains_cases :
    ((s.chain id).contains name = .ok true ↔ ∃ v, s.Walk name id (.ok v)) ∧
      ((s.chain id).contains name = .error .lostScope ↔ s.Walk name id (.error .lostScope)) ∧
      ((s.chain id).contains name = .ok false ↔
        s.Walk name id (.error (.diagnostic { cause := .unboundVariable name }))) := by
  have walk : s.Walk name id ((s.chain id).lookup name) := h.walk_lookup has
  simp only [← h.lookup_eq_iff has, Chain.contains_eq]
  generalize (s.chain id).lookup name = outcome at walk
  cases walk <;> simp

end Lookup

/-! ### Changes of one scope -/

section Changes

variable {s : Store} (h : s.Orderly) {changed id : ScopeId} (has : s.Has id)
  (there : s.Has changed) {b : Bindings} {name : Text}

private theorem outer?_setBindings (s : Store) (changed : ScopeId) (b : Bindings) (id : ScopeId) :
    (s.setBindings changed b).outer? id = s.outer? id := by
  have number : ((·.id == id) ∘ fun scope : Scope =>
      if scope.id = changed then { scope with bindings := b } else scope) = (·.id == id) := by
    funext scope
    exact congrArg (· == id) (id_ite (f := ({ · with bindings := b })) fun _ => rfl)
  unfold outer? find? setBindings modify
  rw [List.find?_map, number]
  cases s.scopes.find? (·.id == id) with
  | none => rfl
  | some scope =>
    change (if scope.id = changed then { scope with bindings := b } else scope).parent = scope.parent
    split <;> rfl

include h has there

/-- A change of what one scope binds a name to shows only from scopes that reach it. -/
theorem Orderly.reaches_of_lookup_ne
    (shows : ((s.setBindings changed b).chain id).lookup name ≠ (s.chain id).lookup name) :
    b.find? name ≠ (s.bindings changed).find? name ∧ s.Reaches name id changed := by
  have h' := h.setBindings changed b
  induction id using Nat.strongRecOn with
  | ind id ih =>
    have has' : (s.setBindings changed b).Has id := has_setBindings.mpr has
    by_cases own : id = changed
    · subst own
      rw [h.chain_eq has, h'.chain_eq has', h.bindings_setBindings has,
        h.around_setBindings has] at shows
      exact ⟨fun same => shows (by rw [Chain.lookup, Chain.lookup, same]), .here id⟩
    · rw [h.lookup_eq has, h'.lookup_eq has', outer?_setBindings,
        bindings_setBindings_of_ne own] at shows
      cases bound : (s.bindings id).find? name with
      | some v => simp [bound] at shows
      | none =>
        cases around : s.outer? id with
        | none => simp [bound, around] at shows
        | some outer =>
          simp only [bound, around] at shows
          by_cases exist : s.Has outer
          · obtain ⟨differs, reaches⟩ := ih outer (h.outer_lt around) exist shows
            exact ⟨differs, .outwards (by simp [Table.contains, bound]) around exist reaches⟩
          · rw [chain_of_not_has exist, chain_of_not_has (mt has_setBindings.mp exist)] at shows
            exact absurd rfl shows

/-- From scopes that reach the one that is changed, the change is seen. -/
theorem Orderly.lookup_setBindings_of_reaches (reaches : s.Reaches name id changed) :
    ((s.setBindings changed b).chain id).lookup name =
      (Chain.link b (s.around changed)).lookup name := by
  have h' := h.setBindings changed b
  have still : (s.setBindings changed b).Reaches name id changed := by
    clear has
    induction reaches with
    | here => exact .here _
    | @outwards id outer changed unbound around exist beyond ih =>
      -- The scopes on the way are younger than the one that is changed.
      have apart : id ≠ changed :=
        Nat.ne_of_gt (Nat.lt_of_le_of_lt (h.le_of_reaches beyond) (h.outer_lt around))
      refine .outwards ?_ ?_ (has_setBindings.mpr exist) (ih there h')
      · rw [bindings_setBindings_of_ne apart, unbound]
      · rw [outer?_setBindings, around]
  have has' : (s.setBindings changed b).Has id := has_setBindings.mpr has
  obtain ⟨there', same⟩ := h'.lookup_of_reaches has' still
  rw [same, h'.chain_eq there', h.bindings_setBindings there, h.around_setBindings there]

end Changes

end Store
end TinyTcl
