import TinyTcl.Scope.Store

/-! The order of the store. Scopes stand newest first and are younger than the scopes around them
(`Store.Orderly`). So a scope divides the store into newer ones, which nothing that can be seen from
it depends on, and older ones, in which the scopes around it are found (`Store.Stands`). The way in
which opening, changing and closing scopes shows in the store is read off there. -/
namespace TinyTcl.Store

/-- Scopes stand newest first; their numbers have been given out, and each is younger than the one
around it. -/
structure Orderly (s : Store) : Prop where
  sorted : s.scopes.Pairwise fun newer older => older.id < newer.id
  known : ∀ scope ∈ s.scopes, scope.id < s.next
  nested : ∀ scope ∈ s.scopes, ∀ parent ∈ scope.parent, parent < scope.id

/-- The scope with a number exists. -/
def Has (s : Store) (id : ScopeId) : Prop := ∃ scope ∈ s.scopes, scope.id = id

/-- Where a scope stands: behind the newer ones, in front of the older ones. -/
structure Stands (s : Store) (scope : Scope) (newer older : List Scope) : Prop where
  scopes : s.scopes = newer ++ scope :: older
  newer : ∀ other ∈ newer, scope.id < other.id
  older : ∀ other ∈ older, other.id < scope.id
  outer : ∀ parent ∈ scope.parent, parent < scope.id

theorem Orderly.stands_of_mem {s : Store} (h : s.Orderly) {scope : Scope}
    (inside : scope ∈ s.scopes) : ∃ newer older, s.Stands scope newer older := by
  obtain ⟨newer, older, whole⟩ := List.append_of_mem inside
  have sorted := h.sorted
  rw [whole] at sorted
  obtain ⟨-, behind, across⟩ := List.pairwise_append.mp sorted
  refine ⟨newer, older, whole, ?_, ?_, h.nested scope inside⟩
  · exact fun other inside => across other inside scope List.mem_cons_self
  · exact (List.pairwise_cons.mp behind).1

theorem Orderly.exists_stands {s : Store} (h : s.Orderly) {id : ScopeId} (has : s.Has id) :
    ∃ scope newer older, scope.id = id ∧ s.Stands scope newer older := by
  obtain ⟨scope, inside, same⟩ := has
  obtain ⟨newer, older, stands⟩ := h.stands_of_mem inside
  exact ⟨scope, newer, older, same, stands⟩

theorem Orderly.lt_next {s : Store} (h : s.Orderly) {id : ScopeId} (has : s.Has id) :
    id < s.next := by
  obtain ⟨scope, inside, rfl⟩ := has
  exact h.known scope inside

/-- The number of the next scope has not been given out. -/
theorem Orderly.bindings_next {s : Store} (h : s.Orderly) : s.bindings s.next = .empty := by
  have missing : s.find? s.next = none := by
    apply List.find?_eq_none.mpr
    intro scope inside
    simpa using Nat.ne_of_lt (h.known scope inside)
  rw [bindings, missing]
  rfl

/-! ### What is seen from a scope -/

/-- What keeps the number of a scope keeps it where it is applied. -/
theorem id_ite {f : Scope → Scope} (keeps : ∀ scope, (f scope).id = scope.id) {scope : Scope}
    {p : Prop} [Decidable p] : (if p then f scope else scope).id = scope.id := by
  split
  · exact keeps scope
  · rfl

private theorem modify_of_ne {f : Scope → Scope} {id : ScopeId} {scopes : List Scope}
    (others : ∀ scope ∈ scopes, scope.id ≠ id) :
    scopes.map (fun scope => if scope.id = id then f scope else scope) = scopes := by
  refine (List.map_congr_left fun scope inside => ?_).trans scopes.map_id
  rw [if_neg (others scope inside)]
  rfl

/-- Newer scopes are not seen from an older one. -/
theorem chainIn_append {newer older : List Scope} {id : Option ScopeId}
    (others : ∀ scope ∈ newer, ∀ i ∈ id, scope.id ≠ i) :
    chainIn (newer ++ older) id = chainIn older id := by
  induction newer with
  | nil => rfl
  | cons scope rest ih =>
    have later := ih fun other inside => others other (List.mem_cons_of_mem _ inside)
    cases id with
    | none => cases older <;> rfl
    | some i =>
      rw [List.cons_append, chainIn, if_neg (others scope List.mem_cons_self i rfl), later]

namespace Stands

variable {s : Store} {scope : Scope} {newer older : List Scope} (h : s.Stands scope newer older)

include h

theorem find?_eq : s.find? scope.id = some scope := by
  have others : newer.find? (·.id == scope.id) = none := by
    apply List.find?_eq_none.mpr
    intro other inside
    simpa using Nat.ne_of_gt (h.newer other inside)
  rw [find?, h.scopes, List.find?_append, others]
  simp

theorem bindings_eq : s.bindings scope.id = scope.bindings := by
  rw [bindings, h.find?_eq]
  rfl

theorem around_eq : s.around scope.id = chainIn older scope.parent := by
  have skipped : chainIn ((newer ++ [scope]) ++ older) scope.parent =
      chainIn older scope.parent := by
    apply chainIn_append
    intro other inside parent outer
    have below := h.outer parent outer
    rcases List.mem_append.mp inside with inside | inside
    · exact Nat.ne_of_gt (Nat.lt_trans below (h.newer other inside))
    · rw [List.mem_singleton.mp inside]
      exact Nat.ne_of_gt below
  rw [around, h.find?_eq, h.scopes]
  simpa using skipped

theorem chain_eq : s.chain scope.id = .link scope.bindings (chainIn older scope.parent) := by
  have skipped : chainIn (newer ++ scope :: older) (some scope.id) =
      chainIn (scope :: older) (some scope.id) := by
    apply chainIn_append
    rintro other inside _ ⟨⟩
    exact Nat.ne_of_gt (h.newer other inside)
  rw [chain, h.scopes, skipped, chainIn, if_pos rfl]

/-- Only the scope itself is changed. -/
theorem modify_eq (f : Scope → Scope) :
    (s.modify scope.id f).scopes = newer ++ f scope :: older := by
  have before := modify_of_ne (f := f) fun other inside => Nat.ne_of_gt (h.newer other inside)
  have behind := modify_of_ne (f := f) fun other inside => Nat.ne_of_lt (h.older other inside)
  rw [modify, h.scopes, List.map_append, List.map_cons, before, behind, if_pos rfl]

/-- A scope stands where it stood after its bindings have changed. -/
theorem setBindings (b : Bindings) :
    (s.setBindings scope.id b).Stands { scope with bindings := b } newer older :=
  ⟨h.modify_eq _, h.newer, h.older, h.outer⟩

end Stands

section Bindings

variable {s : Store} (h : s.Orderly) {id other : ScopeId} {b : Bindings}

include h in
/-- A scope sees its own bindings and then what can be seen around it. -/
theorem Orderly.chain_eq (has : s.Has id) : s.chain id = .link (s.bindings id) (s.around id) := by
  obtain ⟨scope, newer, older, rfl, stands⟩ := h.exists_stands has
  rw [stands.chain_eq, stands.bindings_eq, stands.around_eq]

include h in
theorem Orderly.bindings_setBindings (has : s.Has id) : (s.setBindings id b).bindings id = b := by
  obtain ⟨scope, newer, older, rfl, stands⟩ := h.exists_stands has
  exact (stands.setBindings b).bindings_eq

include h in
/-- The bindings of a scope are not seen around it. -/
theorem Orderly.around_setBindings (has : s.Has id) :
    (s.setBindings id b).around id = s.around id := by
  obtain ⟨scope, newer, older, rfl, stands⟩ := h.exists_stands has
  rw [stands.around_eq]
  exact (stands.setBindings b).around_eq

include h in
theorem Orderly.setBindings_self (has : s.Has id) : s.setBindings id (s.bindings id) = s := by
  obtain ⟨scope, newer, older, rfl, stands⟩ := h.exists_stands has
  have same : (s.setBindings scope.id (s.bindings scope.id)).scopes = s.scopes := by
    rw [stands.bindings_eq, stands.scopes]
    exact stands.modify_eq _
  exact congrArg (Store.mk s.next) same

theorem setBindings_setBindings (b' : Bindings) :
    (s.setBindings id b).setBindings id b' = s.setBindings id b' := by
  unfold setBindings modify
  simp only [List.map_map]
  congr 1
  apply List.map_congr_left
  intro scope _
  by_cases same : scope.id = id <;> simp [same]

private theorem find?_modify {f : Scope → Scope} (keeps : ∀ scope, (f scope).id = scope.id) :
    (s.modify id f).find? other =
      (s.find? other).map fun scope => if scope.id = id then f scope else scope := by
  unfold find? modify
  rw [List.find?_map]
  congr 2
  funext scope
  exact congrArg (· == other) (id_ite keeps)

theorem bindings_setBindings_of_ne (apart : other ≠ id) :
    (s.setBindings id b).bindings other = s.bindings other := by
  unfold bindings setBindings
  rw [find?_modify (f := ({ · with bindings := b })) fun _ => rfl]
  cases found : s.find? other with
  | none => rfl
  | some scope =>
    have here : scope.id = other := by simpa using List.find?_some found
    simp [here, apart]

/-- What is attached to a scope has no part in what it binds. -/
theorem bindings_attach (name content : Text) :
    (s.attach id name content).bindings other = s.bindings other := by
  let f (scope : Scope) : Scope :=
    { scope with attributes := scope.attributes.insert name content }
  unfold bindings attach
  rw [find?_modify (f := f) fun _ => rfl, Option.map_map]
  congr 2
  funext scope
  dsimp only [Function.comp]
  split <;> rfl

end Bindings

/-! ### Stores stay orderly -/

section Changes

variable {s : Store} (h : s.Orderly) {id other : ScopeId}

theorem orderly_empty : empty.Orderly := ⟨.nil, by simp [empty], by simp [empty]⟩

theorem has_add (parent : Option ScopeId) : (s.add parent).2.Has (s.add parent).1 :=
  ⟨_, List.mem_cons_self, rfl⟩

theorem Has.add (has : s.Has id) (parent : Option ScopeId) : (s.add parent).2.Has id := by
  obtain ⟨scope, inside, same⟩ := has
  exact ⟨scope, List.mem_cons_of_mem _ inside, same⟩

include h in
/-- A new scope is younger than all that exist. -/
theorem Orderly.add {parent : Option ScopeId} (outer : ∀ id ∈ parent, s.Has id) :
    (s.add parent).2.Orderly where
  sorted := List.pairwise_cons.mpr ⟨h.known, h.sorted⟩
  known := by
    intro scope inside
    rcases List.mem_cons.mp inside with rfl | inside
    · exact Nat.lt_succ_self _
    · exact Nat.lt_succ_of_lt (h.known scope inside)
  nested := by
    intro scope inside
    rcases List.mem_cons.mp inside with rfl | inside
    · exact fun id here => h.lt_next (outer id here)
    · exact h.nested scope inside

include h in
/-- A new scope stands in front of all others. -/
theorem Orderly.stands_add {parent : Option ScopeId} (outer : ∀ id ∈ parent, s.Has id) :
    (s.add parent).2.Stands ⟨s.next, parent, .empty, .empty⟩ [] s.scopes :=
  ⟨rfl, by simp, h.known, fun id here => h.lt_next (outer id here)⟩

include h in
theorem Orderly.bindings_add {parent : Option ScopeId} (outer : ∀ id ∈ parent, s.Has id) :
    (s.add parent).2.bindings (s.add parent).1 = .empty :=
  (h.stands_add outer).bindings_eq

include h in
/-- Around a new scope is what can be seen from the one it is opened in. -/
theorem Orderly.around_add (has : s.Has id) :
    (s.add (some id)).2.around (s.add (some id)).1 = s.chain id := by
  have stands : (s.add (some id)).2.Stands ⟨s.next, some id, .empty, .empty⟩ [] s.scopes := by
    apply h.stands_add
    rintro _ ⟨⟩
    exact has
  exact stands.around_eq

include h in
theorem Orderly.bindings_add_of_has (has : s.Has other) (parent : Option ScopeId) :
    (s.add parent).2.bindings other = s.bindings other := by
  have apart : (s.next == other) = false := by simpa using Nat.ne_of_gt (h.lt_next has)
  unfold bindings find? Store.add
  rw [List.find?_cons_of_neg (by simp [apart])]

theorem has_modify {f : Scope → Scope} (keeps : ∀ scope, (f scope).id = scope.id) :
    (s.modify id f).Has other ↔ s.Has other := by
  simp only [Has, modify, List.mem_map]
  constructor
  · rintro ⟨_, ⟨scope, inside, rfl⟩, rfl⟩
    exact ⟨scope, inside, (id_ite keeps).symm⟩
  · rintro ⟨scope, inside, rfl⟩
    exact ⟨_, ⟨scope, inside, rfl⟩, id_ite keeps⟩

include h in
/-- A change that keeps numbers and parents keeps the order. -/
theorem Orderly.modify {f : Scope → Scope} (keeps : ∀ scope, (f scope).id = scope.id)
    (outer : ∀ scope, (f scope).parent = scope.parent) : (s.modify id f).Orderly where
  sorted := by simpa only [Store.modify, List.pairwise_map, id_ite keeps] using h.sorted
  known := by simpa only [Store.modify, List.forall_mem_map, id_ite keeps] using h.known
  nested := by
    simp only [Store.modify, List.forall_mem_map, id_ite keeps]
    intro scope inside parent here
    refine h.nested scope inside parent ?_
    split at here
    · rwa [outer] at here
    · exact here

@[simp] theorem has_setBindings {b : Bindings} : (s.setBindings id b).Has other ↔ s.Has other :=
  has_modify fun _ => rfl

include h in
theorem Orderly.setBindings (id : ScopeId) (b : Bindings) : (s.setBindings id b).Orderly :=
  h.modify (fun _ => rfl) fun _ => rfl

theorem has_retain {held : List ScopeId} : (s.retain held).Has id ↔ s.Has id ∧ id ∈ held := by
  simp only [Has, retain, List.mem_filter, List.contains_iff_mem]
  constructor
  · rintro ⟨scope, ⟨inside, kept⟩, rfl⟩
    exact ⟨⟨scope, inside, rfl⟩, kept⟩
  · rintro ⟨⟨scope, inside, rfl⟩, kept⟩
    exact ⟨scope, ⟨inside, kept⟩, rfl⟩

/-- A scope that is kept binds what it did. -/
theorem bindings_retain {held : List ScopeId} (kept : id ∈ held) :
    (s.retain held).bindings id = s.bindings id := by
  unfold bindings find? Store.retain
  rw [List.find?_filter]
  congr 3
  funext scope
  by_cases here : scope.id = id
  · simp [here, kept]
  · simp [here]

include h in
theorem Orderly.retain (held : List ScopeId) : (s.retain held).Orderly where
  sorted := h.sorted.filter _
  known scope inside := h.known scope (List.mem_filter.mp inside).1
  nested scope inside := h.nested scope (List.mem_filter.mp inside).1

end Changes

/-! ### What depends on the scopes alone -/

section Scopes

variable {s t : Store} (h : s.scopes = t.scopes)

include h

theorem bindings_of_scopes (id : ScopeId) : s.bindings id = t.bindings id := by
  unfold bindings find?
  rw [h]

theorem around_of_scopes (id : ScopeId) : s.around id = t.around id := by
  unfold around find?
  rw [h]

theorem has_of_scopes (id : ScopeId) : s.Has id ↔ t.Has id := by
  unfold Has
  rw [h]

theorem setBindings_of_scopes (id : ScopeId) (b : Bindings) :
    (s.setBindings id b).scopes = (t.setBindings id b).scopes := by
  unfold setBindings modify
  rw [h]

theorem Orderly.of_scopes (orderly : t.Orderly) (next : t.next ≤ s.next) : s.Orderly where
  sorted := h ▸ orderly.sorted
  known scope inside := Nat.lt_of_lt_of_le (orderly.known scope (h ▸ inside)) next
  nested := h ▸ orderly.nested

end Scopes

/-- A chain that leads to a root starts at a scope that exists. -/
theorem has_of_isWhole {s : Store} {id : ScopeId} (whole : (s.chain id).isWhole = true) :
    s.Has id := by
  rw [chain] at whole
  unfold Has
  generalize s.scopes = scopes at whole ⊢
  induction scopes with
  | nil =>
    rw [chainIn] at whole
    cases whole
  | cons scope older ih =>
    rw [chainIn] at whole
    split at whole
    · next same => exact ⟨scope, List.mem_cons_self, same⟩
    · obtain ⟨found, inside, same⟩ := ih whole
      exact ⟨found, List.mem_cons_of_mem _ inside, same⟩

end TinyTcl.Store
