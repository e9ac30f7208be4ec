import TinyTcl.Proofs.Evaluation.Live

/-! The course of an evaluation. Whatever is carried out among all scopes, and however it ends, a
world leads to another by few kinds of changes (`World.Leads`): notes, output and trace entries,
bindings of the active scope, and blocks, which open a scope and close it again. So behind it the
same scope is active, output and trace have grown, and all scopes lie inside the same ones. In a
scope with all scopes around it nothing fails for want of one (`Command.courses_live` and its
companions, by one induction along the trees). -/
namespace TinyTcl

namespace Store

/-- The scopes of a store, each with the one around it. -/
def places (s : Store) : List (ScopeId × Option ScopeId) :=
  s.scopes.map fun scope => (scope.id, scope.parent)

theorem places_modify (s : Store) (id : ScopeId) {f : Scope → Scope}
    (number : ∀ scope, (f scope).id = scope.id) (parent : ∀ scope, (f scope).parent = scope.parent) :
    (s.modify id f).places = s.places := by
  simp only [places, modify, List.map_map]
  apply List.map_congr_left
  intro scope _
  by_cases here : scope.id = id <;> simp [here, number, parent]

@[simp] theorem places_setBindings (s : Store) (id : ScopeId) (b : Bindings) :
    (s.setBindings id b).places = s.places := s.places_modify id (fun _ => rfl) fun _ => rfl

theorem places_retain (s : Store) (held : List ScopeId) :
    (s.retain held).places = s.places.filter fun p => held.contains p.1 := by
  simp only [places, retain, List.filter_map]
  rfl

theorem places_subset_add (s : Store) (parent : Option ScopeId) :
    s.places ⊆ (s.add parent).2.places := List.subset_cons_self _ _

private theorem orderly_iff_places {s : Store} : s.Orderly ↔
    s.places.Pairwise (fun newer older => older.1 < newer.1) ∧ (∀ p ∈ s.places, p.1 < s.next) ∧
      ∀ p ∈ s.places, ∀ parent ∈ p.2, parent < p.1 := by
  unfold places
  rw [List.pairwise_map, List.forall_mem_map, List.forall_mem_map]
  exact ⟨fun h => ⟨h.sorted, h.known, h.nested⟩, fun ⟨sorted, known, nested⟩ =>
    ⟨sorted, known, nested⟩⟩

private theorem has_iff_places {s : Store} {id : ScopeId} :
    s.Has id ↔ id ∈ s.places.map Prod.fst := by
  simp [Has, places]

section Places

variable {s t : Store} (h : s.places = t.places)

include h

private theorem has_of_places (id : ScopeId) : s.Has id ↔ t.Has id := by
  rw [has_iff_places, has_iff_places, h]

private theorem Orderly.of_places (orderly : t.Orderly) (next : t.next ≤ s.next) : s.Orderly := by
  obtain ⟨sorted, known, nested⟩ := orderly_iff_places.mp orderly
  rw [orderly_iff_places, h]
  exact ⟨sorted, fun p inside => Nat.lt_of_lt_of_le (known p inside) next, nested⟩

/-- Whether a scope around a scope is gone can be told from the places alone. -/
theorem isWhole_of_places (id : ScopeId) : (s.chain id).isWhole = (t.chain id).isWhole := by
  unfold places at h
  unfold chain
  generalize s.scopes = scopes at h ⊢
  generalize t.scopes = scopes' at h ⊢
  generalize some id = from?
  induction scopes generalizing scopes' from? with
  | nil =>
    rw [List.map_eq_nil_iff.mp h.symm]
  | cons scope older ih =>
    obtain ⟨scope', older', rfl, place, later⟩ := List.map_eq_cons_iff.mp h.symm
    obtain ⟨same, parent⟩ := Prod.mk.inj place
    cases from? with
    | none => rfl
    | some id =>
      simp only [chainIn, same, parent]
      split
      · exact ih older' later.symm scope.parent
      · exact ih older' later.symm (some id)

end Places

/-- No scope around a scope is gone if none is that can be seen from where it lies. -/
theorem Orderly.isWhole_of_place {s : Store} (h : s.Orderly) {id : ScopeId}
    {parent : Option ScopeId} (place : (id, parent) ∈ s.places) :
    (s.chain id).isWhole = (chainIn s.scopes parent).isWhole := by
  obtain ⟨scope, inside, same⟩ := List.mem_map.mp place
  obtain ⟨rfl, rfl⟩ := Prod.mk.inj same
  obtain ⟨newer, older, stands⟩ := h.stands_of_mem inside
  rw [h.chain_eq ⟨scope, inside, rfl⟩, around, stands.find?_eq]
  rfl

/-- A new scope that is closed again leaves the places as they were. -/
theorem Orderly.places_close {s t : Store} (h : s.Orderly) {parent : Option ScopeId}
    (opened : t.places = (s.add parent).2.places) :
    (t.close (s.add parent).1).places = s.places := by
  have closes : (t.close s.next).places = t.places.filter (·.1 != s.next) := by
    simp only [places, close, List.filter_map]
    rfl
  have older : s.places.filter (·.1 != s.next) = s.places := by
    apply List.filter_eq_self.mpr
    intro p inside
    have below := (orderly_iff_places.mp h).2.1 p inside
    simpa using Nat.ne_of_lt below
  change (t.close s.next).places = s.places
  rw [closes, opened]
  change ((s.next, parent) :: s.places).filter (·.1 != s.next) = s.places
  rw [List.filter_cons_of_neg (by simp), older]

end Store

namespace Chain

/-- Along a whole chain nothing is found to be gone. -/
theorem lookup_ne_lostScope {c : Chain} (whole : c.isWhole = true) (name : Text) :
    c.lookup name ≠ .error .lostScope := by
  induction c with
  | root => simp [lookup]
  | lost => cases whole
  | link b outer ih =>
    rw [lookup]
    split
    · simp
    · exact ih whole

private theorem depth_ne_lostScope {c : Chain} (whole : c.isWhole = true) :
    c.depth ≠ .error .lostScope := by
  obtain ⟨n, known⟩ := (depth_isOk_iff c).mpr whole
  simp [known]

end Chain

/-! ### Worlds -/

/-- How a world goes on while something is carried out in it. -/
inductive World.Leads : World → World → Prop where
  | refl (w : World) : Leads w w
  | trans {w w' w'' : World} : Leads w w' → Leads w' w'' → Leads w w''
  | note (w : World) (events : List Event) : Leads w (w.note events)
  | rebind (w : World) (change : Bindings → Bindings) : Leads w (w.rebind change)
  | write (w : World) (t : Text) : Leads w { w with interpreter := w.interpreter.write t }
  | enterTrace (w : World) (entry : TraceEntry) : Leads w { w with interpreter :=
      { w.interpreter with trace := w.interpreter.trace ++ [entry] } }
  | record {w after : World} (c : Command) : Leads w after → Leads w (Live.enterJournal c w after)
  | block {w after : World} : Leads (Live.enter w) after → Leads w (Live.leave w after)

/-- The scopes stand in order, and no scope around the active one is gone. -/
structure World.Standing (w : World) : Prop where
  orderly : w.store.Orderly
  whole : (w.store.chain w.active).isWhole = true

/-- A command was carried out with all scopes around the active one, and left them there. -/
structure JournalEntry.Standing (e : JournalEntry) : Prop where
  before : (e.before.chain e.active).isWhole = true
  after : (e.after.chain e.active).isWhole = true

namespace World.Standing

variable {w : World} (h : w.Standing)

include h

private theorem has : w.store.Has w.active := Store.has_of_isWhole h.whole

theorem around : (w.store.around w.active).isWhole = true := by
  have whole := h.whole
  rwa [h.orderly.chain_eq h.has] at whole

private theorem parent : ∀ id ∈ some w.active, w.store.Has id := by
  rintro _ ⟨⟩
  exact h.has

private theorem enter : (Live.enter w).Standing where
  orderly := h.orderly.add h.parent
  whole := by
    have chain := (h.orderly.add h.parent).chain_eq (Store.has_add (some w.active))
    rw [h.orderly.around_add h.has] at chain
    change ((w.store.add (some w.active)).2.chain (w.store.add (some w.active)).1).isWhole = true
    rw [chain]
    exact h.whole

end World.Standing

namespace World.Leads

variable {w w' : World} (h : w.Leads w')

include h

theorem active : w'.active = w.active := by
  induction h with
  | refl | note | rebind | write | enterTrace | block => rfl
  | trans _ _ first second => exact second.trans first
  | record _ _ ih => exact ih

/-- The interpreter has put out and traced more, and is otherwise as it was. -/
theorem interpreter : ∃ output trace, w'.interpreter = { w.interpreter with
    output := w.interpreter.output ++ output, trace := w.interpreter.trace ++ trace } := by
  induction h with
  | refl w | note w | rebind w => exact ⟨[], [], by simp [World.note, World.rebind]⟩
  | trans _ _ first second =>
    obtain ⟨output, trace, same⟩ := first
    obtain ⟨output', trace', same'⟩ := second
    exact ⟨output ++ output', trace ++ trace', by simp [same', same]⟩
  | write w t => exact ⟨t, [], by simp [Interpreter.write]⟩
  | enterTrace w entry => exact ⟨[], [entry], by simp⟩
  | record _ _ ih => exact ih
  | block _ ih => exact ih

/-- Behind it all scopes lie where they lay. -/
theorem places (orderly : w.store.Orderly) (has : w.store.Has w.active) :
    w'.store.places = w.store.places ∧ w.store.next ≤ w'.store.next := by
  induction h with
  | refl | note | write | enterTrace => exact ⟨rfl, Nat.le_refl _⟩
  | rebind w change => exact ⟨Store.places_setBindings _ _ _, Nat.le_refl _⟩
  | record _ _ ih => exact ih orderly has
  | @trans w w' w'' lead _ first second =>
    obtain ⟨same, next⟩ := first orderly has
    have has' : w'.store.Has w'.active := by
      rw [lead.active]
      exact (Store.has_of_places same _).mpr has
    obtain ⟨same', next'⟩ := second (.of_places same orderly next) has'
    exact ⟨same'.trans same, Nat.le_trans next next'⟩
  | @block w after _ ih =>
    have parent : ∀ id ∈ some w.active, w.store.Has id := by
      rintro _ ⟨⟩
      exact has
    obtain ⟨same, next⟩ := ih (orderly.add parent) (Store.has_add _)
    exact ⟨orderly.places_close same, Nat.le_trans (Nat.le_succ _) next⟩

private theorem standing (standing : w.Standing) : w'.Standing := by
  obtain ⟨same, next⟩ := h.places standing.orderly standing.has
  refine ⟨.of_places same standing.orderly next, ?_⟩
  rw [Store.isWhole_of_places same, h.active]
  exact standing.whole

/-- All commands that are carried out have the scopes around them. -/
theorem journal (standing : w.Standing) : ∀ e ∈ w'.journal, e ∈ w.journal ∨ e.Standing := by
  induction h with
  | refl | note | rebind | write | enterTrace => exact fun e inside => .inl inside
  | trans lead _ first second =>
    intro e inside
    rcases second (lead.standing standing) e inside with earlier | done
    · exact first standing e earlier
    · exact .inr done
  | @record w after c lead ih =>
    intro e inside
    rcases List.mem_append.mp inside with earlier | last
    · exact ih standing e earlier
    · rw [List.mem_singleton.mp last]
      have behind := (lead.standing standing).whole
      rw [lead.active] at behind
      exact .inr ⟨standing.whole, behind⟩
  | block _ ih => exact ih standing.enter

end World.Leads

/-! ### What is carried out -/

/-- An outcome that a world leads to. A scope is found to be gone only if one was. -/
inductive World.Reaches (w : World) {α : Type} : EStateM.Result Failure World α → Prop
  | ok (value : α) {after : World} (leads : w.Leads after) : Reaches w (.ok value after)
  | error {failure : Failure} {after : World} (leads : w.Leads after)
    (kept : w.Standing → failure ≠ .lostScope) : Reaches w (.error failure after)

private theorem World.Reaches.after {w v : World} {α : Type}
    {result : EStateM.Result Failure World α} (leads : w.Leads v) (h : v.Reaches result) :
    w.Reaches result := by
  cases h with
  | ok value leads' => exact .ok value (leads.trans leads')
  | error leads' kept =>
    exact .error (leads.trans leads') fun standing => kept (leads.standing standing)

/-- What is carried out takes its course in every world. -/
def Live.Courses {α : Type} (act : Live α) : Prop := ∀ w : World, w.Reaches (act w)

theorem Failure.mapDiagnostic_ne_lostScope {failure : Failure} (h : failure ≠ .lostScope)
    (f : Diagnostic → Diagnostic) : failure.mapDiagnostic f ≠ .lostScope := by
  cases failure with
  | lostScope => exact absurd rfl h
  | _ => simp [mapDiagnostic]

namespace Live.Courses

variable {α β : Type} {x : Live α}

private theorem pure (value : α) : Courses (pure value : Live α) := fun w => .ok value (.refl w)

private theorem throw {failure : Failure} (other : failure ≠ .lostScope) :
    Courses (throw failure : Live α) := fun w => .error (.refl w) fun _ => other

private theorem ofExcept {e : Except Failure α} (other : e ≠ .error .lostScope) :
    Courses (ofExcept e) := by
  cases e with
  | ok value => exact .pure value
  | error failure => exact .throw fun same => other (congrArg _ same)

private theorem modify {f : World → World} (leads : ∀ w : World, w.Leads (f w)) :
    Courses (modify f : Live Unit) := fun w => .ok () (leads w)

private theorem bind {f : α → Live β} (h : Courses x) (next : ∀ value, Courses (f value)) :
    Courses (x >>= f) := by
  intro w
  have first := h w
  change w.Reaches (EStateM.bind x f w)
  unfold EStateM.bind
  generalize x w = result at first
  cases first with
  | ok value leads => exact (next value _).after leads
  | error leads kept => exact .error leads kept

private theorem mapDiagnostic (f : Diagnostic → Diagnostic) (h : Courses x) :
    Courses (mapDiagnostic f x) := by
  intro w
  have first := h w
  unfold Live.mapDiagnostic
  generalize x w = result at first
  cases first with
  | ok value leads => exact .ok value leads
  | error leads kept => exact .error leads fun standing =>
      Failure.mapDiagnostic_ne_lostScope (kept standing) f

end Live.Courses

namespace Live

variable {α β : Type}

/-- What was read in a world decides how things go on in a later one. -/
theorem reaches_ofExcept {w later : World} (leads : w.Leads later) {e : Except Failure α}
    (kept : w.Standing → e ≠ .error .lostScope) {next : α → Live β}
    (courses : ∀ value, (next value).Courses) : w.Reaches ((ofExcept e >>= next) later) := by
  cases e with
  | ok value => exact (courses value later).after leads
  | error failure => exact .error leads fun standing same => kept standing (congrArg _ same)

private theorem courses_note (e : Event) : (note e).Courses := .modify fun w => .note w [e]

private theorem courses_lookup (name : Text) : (lookup name).Courses := by
  intro w
  change w.Reaches (ofExcept ((w.store.chain w.active).lookup name) w)
  cases found : (w.store.chain w.active).lookup name with
  | ok value => exact .ok value (.refl w)
  | error failure =>
    refine .error (.refl w) fun standing same => ?_
    exact Chain.lookup_ne_lostScope standing.whole name (found.trans (congrArg _ same))

private theorem courses_rebind (change : Bindings → Bindings) :
    (modify fun w => w.rebind change : Live Unit).Courses := .modify fun w => .rebind w change

private theorem courses_define (name : Text) (value : Value) : (define name value).Courses :=
  (courses_rebind (·.insert name value)).bind fun _ => .pure value

private theorem courses_remove (name : Text) : (remove name).Courses := by
  intro w
  change w.Reaches ((if (w.store.bindings w.active).contains name then _ else _ : Live Unit) w)
  split
  · exact reaches_ofExcept (.rebind w (·.erase name))
      (fun standing => Chain.depth_ne_lostScope standing.around)
      fun depth => courses_note (.removed name depth)
  · exact .ok () (.refl w)

private theorem courses_write (t : Text) : (write t).Courses := .modify fun w => .write w t

theorem courses_inChild {x : Live α} (h : x.Courses) : (inChild x).Courses := by
  intro w
  have done := h (enter w)
  unfold inChild
  generalize x (enter w) = result at done
  cases done with
  | ok value leads => exact .ok value (.block leads)
  | error leads kept => exact .error (.block leads) fun standing => kept standing.enter

private theorem courses_record (c : Command) {x : Live Value} (h : x.Courses) :
    (record c x).Courses := by
  intro w
  have done := h w
  unfold record
  generalize x w = result at done
  cases done with
  | ok value leads => exact .ok value (.record c leads)
  | error leads kept => exact .error (.record c leads) kept

private theorem courses_carryOut (c : Command) {x : Live Value} (h : x.Courses) :
    (carryOut c x).Courses := by
  have recorded := (courses_record c h).mapDiagnostic (Eval.locate c)
  intro w
  change w.Reaches ((if w.interpreter.tracing then _ else _ : Live Value) w)
  split
  · refine reaches_ofExcept (.refl w) (fun standing => Chain.depth_ne_lostScope standing.around)
      fun depth => (courses_note _).bind fun _ => recorded.bind fun value => ?_
    have entered : Courses _ := .modify fun w =>
      .enterTrace w ⟨c.position.line, c.name, value.text, depth⟩
    exact entered.bind fun _ => .pure value
  · exact recorded w

end Live

/-! ### Values know nothing of scopes -/

private theorem bind_ne_lostScope {α β : Type} {e : Except Failure α} {f : α → Except Failure β}
    (h : e ≠ .error .lostScope) (next : ∀ a, f a ≠ .error .lostScope) :
    (e >>= f) ≠ .error .lostScope := by
  cases e with
  | ok a => exact next a
  | error failure => exact fun same => h (congrArg _ (Except.error.inj same))

theorem map_ne_lostScope {α β : Type} {e : Except Failure α} (f : α → β)
    (h : e ≠ .error .lostScope) : e.map f ≠ .error .lostScope := by
  cases e with
  | ok a => exact nofun
  | error failure => exact fun same => h (congrArg _ (Except.error.inj same))

private theorem Number.ofInt_ne_lostScope (n : Int) (place : Place) :
    ofInt n place ≠ .error .lostScope := by
  unfold ofInt
  split
  · exact nofun
  · split <;> exact nofun

private theorem Number.ofText?_ne_lostScope (t : Text) : ofText? t ≠ .error .lostScope := by
  unfold ofText?
  split
  · exact nofun
  · next numeral _ =>
    apply map_ne_lostScope
    cases numeral with
    | integer negative digits =>
      rw [Numeral.toNumber]
      split
      · exact nofun
      · exact ofInt_ne_lostScope _ _
    | real => exact nofun

private theorem Number.apply_ne_lostScope (operator : Operator) (a b : Number) (place : Place) :
    a.apply operator b place ≠ .error .lostScope := by
  unfold Number.apply
  split
  · exact nofun
  · split
    · exact ofInt_ne_lostScope _ _
    · exact nofun

namespace Value

private theorem toNumber_ne_lostScope (v : Value) (place : Place) :
    v.toNumber place ≠ .error .lostScope := by
  unfold toNumber
  split
  · exact nofun
  · next t =>
    split
    · exact nofun
    · exact nofun
    · next failure read =>
      intro same
      have kept : failure ≠ .lostScope := fun lost => Number.ofText?_ne_lostScope t (lost ▸ read)
      exact Failure.mapDiagnostic_ne_lostScope kept _ (Except.error.inj same)

private theorem toNumberValue_ne_lostScope (v : Value) (place : Place) :
    v.toNumberValue place ≠ .error .lostScope :=
  map_ne_lostScope number (v.toNumber_ne_lostScope place)

private theorem withSign_ne_lostScope (sign : Sign) (v : Value) (place : Place) :
    v.withSign sign place ≠ .error .lostScope := by
  cases sign with
  | positive => exact v.toNumberValue_ne_lostScope place
  | negative =>
    refine bind_ne_lostScope (v.toNumber_ne_lostScope place) fun n => ?_
    refine bind_ne_lostScope ?_ fun _ => nofun
    cases n with
    | integer n => exact Number.ofInt_ne_lostScope _ _
    | real x => exact nofun

private theorem apply_ne_lostScope (operator : Operator) (v w : Value) (place : Place) :
    Value.apply operator v w place ≠ .error .lostScope := by
  refine bind_ne_lostScope (v.toNumber_ne_lostScope place) fun m => ?_
  refine bind_ne_lostScope (w.toNumber_ne_lostScope place) fun n => ?_
  exact bind_ne_lostScope (m.apply_ne_lostScope operator n place) fun _ => nofun

end Value

/-! ### Along the trees -/

/-- A passage that a world leads to. A scope is found to be gone only if one was. -/
structure World.Passes (w : World) (p : Passage) : Prop where
  leads : w.Leads p.world
  kept : w.Standing → p.failure ≠ some .lostScope

theorem World.Passes.result {w : World} {p : Passage} (h : w.Passes p) : w.Reaches p.result := by
  obtain ⟨failure, value, after⟩ := p
  cases failure with
  | none => exact .ok value h.leads
  | some failure => exact .error h.leads fun standing same => h.kept standing (congrArg _ same)

mutual

/-- Operands take their course. -/
theorem Expr.courses_live : (e : Expr) → e.live.Courses
  | .number _ _ | .word _ _ => by
    unfold Expr.live
    exact .pure _
  | .reference name _ => by
    unfold Expr.live
    exact (Live.courses_lookup name).mapDiagnostic _
  | .quoted parts _ => by
    unfold Expr.live
    exact (Expr.courses_liveJoin parts).bind fun _ => .pure _
  | .substitution commands _ => by
    unfold Expr.live
    exact Command.courses_liveSequence .empty commands
  | .signed sign _ operand => by
    unfold Expr.live
    exact operand.courses_live.bind fun v => .ofExcept (v.withSign_ne_lostScope sign _)
  | .binary left operator _ right => by
    unfold Expr.live
    exact left.courses_live.bind fun v => right.courses_live.bind fun w =>
      .ofExcept (v.apply_ne_lostScope operator w _)
  | .group inner => by
    unfold Expr.live
    exact inner.courses_live

theorem Expr.courses_liveJoin : (es : List Expr) → (Expr.liveJoin es).Courses
  | [] => by
    unfold Expr.liveJoin
    exact .pure _
  | first :: rest => by
    unfold Expr.liveJoin
    exact first.courses_live.bind fun _ => (Expr.courses_liveJoin rest).bind fun _ => .pure _

/-- Commands take their course. -/
theorem Command.courses_live : (c : Command) → c.live.Courses
  | .set _ target value => by
    unfold Command.live
    exact value.courses_live.bind fun _ => Live.courses_define target _
  | .unset _ target => by
    unfold Command.live
    exact (Live.courses_remove target).bind fun _ => .pure _
  | .puts _ value => by
    unfold Command.live
    exact value.courses_live.bind fun _ => (Live.courses_write _).bind fun _ => .pure _
  | .expr _ operand => by
    unfold Command.live
    exact operand.courses_live.bind fun v => .ofExcept (v.toNumberValue_ne_lostScope _)
  | .block _ _ program => by
    unfold Command.live
    exact Live.courses_inChild fun w => (program.passes_live .empty w).result
  | .invoke _ _ _ => by
    unfold Command.live
    exact .throw nofun

theorem Command.courses_liveSequence (last : Value) : (cs : List Command) →
    (Command.liveSequence last cs).Courses
  | [] => by
    unfold Command.liveSequence
    exact .pure _
  | first :: rest => by
    unfold Command.liveSequence
    exact (Live.courses_carryOut first first.courses_live).bind fun value =>
      Command.courses_liveSequence value rest

/-- A text takes its course, as far as it gets. -/
theorem Program.passes_live (last : Value) : (p : Program) → (w : World) → w.Passes (p.live last w)
  | .finish notes, w => by
    unfold Program.live
    exact ⟨.note w notes, fun _ => nofun⟩
  | .fault notes _, w => by
    unfold Program.live
    exact ⟨.note w notes, fun _ => nofun⟩
  | .step notes command rest, w => by
    have first := (Live.courses_carryOut command command.courses_live (w.note notes)).after
      (.note w notes)
    simp only [Program.live]
    generalize Live.carryOut command command.live (w.note notes) = result at first
    cases first with
    | @ok value after leads =>
      have later := rest.passes_live value after
      exact ⟨leads.trans later.leads, fun standing => later.kept (leads.standing standing)⟩
    | error leads kept =>
      exact ⟨leads, fun standing same => kept standing (Option.some.inj same)⟩

end

end TinyTcl
