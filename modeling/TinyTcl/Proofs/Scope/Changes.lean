import Mathlib.Data.List.Induction
import TinyTcl.Scope.Chain

/-! The order of definition. Which names a scope binds, and in which order it lists them, is told by
the steps that have changed its bindings: a name is bound if the last step on it binds it
(`Change.mem_names_replay`), and it stands where it came in, which is with the first step that binds
it behind all that unbind it (`Change.pairwise_names_replay`). -/
namespace TinyTcl

/-- A step that changes what a scope binds. -/
inductive Change where
  | bind (name : Text) (value : Value)
  | unbind (name : Text)

namespace Change

/-- The name that a step is about. -/
def name : Change → Text
  | bind name _ | unbind name => name

/-- The value of the name behind a step. -/
def value? : Change → Option Value
  | bind _ value => some value
  | unbind _ => none

/-- The bindings of a scope behind a step. -/
def apply (b : Bindings) : Change → Bindings
  | bind name value => b.insert name value
  | unbind name => b.erase name

/-- The bindings of a scope behind several steps. -/
def replay (changes : List Change) (b : Bindings) : Bindings := changes.foldl apply b

/-- The last of the steps on a name. -/
def last? (changes : List Change) (name : Text) : Option Change :=
  (changes.filter (·.name = name)).getLast?

/-- With the step at this place a name came in: a step binds it there that was not bound before, and
none unbinds it later. -/
def Enters (changes : List Change) (name : Text) (place : Nat) : Prop :=
  ∃ before value after, changes = before ++ bind name value :: after ∧ before.length = place ∧
    (last? before name).bind value? = none ∧ unbind name ∉ after

variable {changes : List Change} {c : Change} {name other : Text} {value : Value} {place : Nat}

@[simp] theorem replay_nil (b : Bindings) : replay [] b = b := rfl

@[simp] theorem replay_append (changes later : List Change) (b : Bindings) :
    replay (changes ++ later) b = replay later (replay changes b) := List.foldl_append

theorem replay_concat (changes : List Change) (c : Change) (b : Bindings) :
    replay (changes ++ [c]) b = c.apply (replay changes b) := replay_append changes [c] b

private theorem last?_concat (changes : List Change) (c : Change) (name : Text) :
    last? (changes ++ [c]) name = if c.name = name then some c else last? changes name := by
  unfold last?
  rw [List.filter_append]
  by_cases same : c.name = name <;> simp [same]

private theorem name_of_last? (last : last? changes name = some c) : c.name = name := by
  have inside := List.mem_of_getLast? last
  simpa using (List.mem_filter.mp inside).2

private theorem find?_apply (b : Bindings) (c : Change) (name : Text) :
    (c.apply b).find? name = if name = c.name then c.value? else b.find? name := by
  cases c with
  | bind other value => exact Table.find?_insert b other name value
  | unbind other => exact Table.find?_erase b other name

/-- A name stands for what the last step on it says. -/
theorem find?_replay (changes : List Change) (name : Text) :
    (replay changes .empty).find? name = (last? changes name).bind value? := by
  induction changes using List.reverseRecOn with
  | nil => rfl
  | append_singleton changes c ih =>
    rw [replay_concat, last?_concat, find?_apply]
    by_cases same : c.name = name
    · rw [if_pos same.symm, if_pos same]
      rfl
    · rw [if_neg (Ne.symm same), if_neg same, ih]

/-- A name is listed if the last step on it binds it. -/
theorem mem_names_replay : name ∈ (replay changes .empty).names ↔
    ∃ value, last? changes name = some (bind name value) := by
  rw [Table.mem_names_iff, Table.contains, find?_replay, Option.isSome_iff_exists]
  constructor
  · rintro ⟨value, found⟩
    obtain ⟨c, last, gives⟩ := Option.bind_eq_some_iff.mp found
    cases c with
    | bind other v =>
      cases name_of_last? last
      exact ⟨v, last⟩
    | unbind other => cases gives
  · rintro ⟨value, last⟩
    exact ⟨value, by rw [last]; rfl⟩

private theorem not_mem_names_replay : name ∉ (replay changes .empty).names ↔
    (last? changes name).bind value? = none := by
  rw [Table.mem_names_iff, Table.contains, find?_replay]
  simp

/-! ### Where names come in -/

/-- A name that came in before one more step came in earlier, and is not unbound by that step, or it
comes in with the step. -/
theorem enters_concat : Enters (changes ++ [c]) name place ↔
    Enters changes name place ∧ c ≠ unbind name ∨
      name ∉ (replay changes .empty).names ∧ place = changes.length ∧ c.name = name ∧
        c.value? ≠ none := by
  rw [not_mem_names_replay]
  constructor
  · rintro ⟨before, value, after, whole, length, fresh, stays⟩
    rcases after.eq_nil_or_concat with rfl | ⟨earlier, last, rfl⟩
    · obtain ⟨rfl, same⟩ := List.append_inj' whole rfl
      cases same
      exact .inr ⟨fresh, length.symm, rfl, nofun⟩
    · rw [List.concat_eq_append] at whole stays
      have split : changes ++ [c] = (before ++ bind name value :: earlier) ++ [last] := by
        simpa using whole
      obtain ⟨rfl, same⟩ := List.append_inj' split rfl
      cases same
      rw [List.mem_append, not_or] at stays
      exact .inl ⟨⟨before, value, earlier, rfl, length, fresh, stays.1⟩, by
        simpa [eq_comm] using stays.2⟩
  · rintro (⟨⟨before, value, after, rfl, length, fresh, stays⟩, kept⟩ | ⟨fresh, rfl, rfl, binds⟩)
    · refine ⟨before, value, after ++ [c], by simp, length, fresh, ?_⟩
      rw [List.mem_append, not_or]
      exact ⟨stays, by simpa [eq_comm] using kept⟩
    · cases c with
      | bind other value => exact ⟨changes, value, [], rfl, rfl, fresh, nofun⟩
      | unbind other => cases binds rfl

private theorem Enters.lt_length (h : Enters changes name place) : place < changes.length := by
  obtain ⟨before, value, after, rfl, rfl, -⟩ := h
  simp

/-- A name that has come in is listed. -/
theorem Enters.mem_names (h : Enters changes name place) :
    name ∈ (replay changes .empty).names := by
  induction changes using List.reverseRecOn with
  | nil => exact absurd h.lt_length (Nat.not_lt_zero _)
  | append_singleton changes c ih =>
    rw [replay_concat, Table.mem_names_iff, Table.contains, find?_apply]
    rcases enters_concat.mp h with ⟨earlier, kept⟩ | ⟨-, -, same, binds⟩
    · split
      · next same =>
        cases c with
        | bind other value => rfl
        | unbind other => exact absurd (congrArg unbind same.symm) kept
      · exact Table.mem_names_iff.mp (ih earlier)
    · rw [if_pos same.symm]
      exact Option.isSome_iff_ne_none.mpr binds

/-- Each name that is listed has come in somewhere. -/
theorem exists_enters (listed : name ∈ (replay changes .empty).names) :
    ∃ place, Enters changes name place := by
  induction changes using List.reverseRecOn with
  | nil => cases listed
  | append_singleton changes c ih =>
    obtain ⟨value, last⟩ := mem_names_replay.mp listed
    rw [last?_concat] at last
    have kept : c ≠ unbind name := by
      rintro rfl
      cases (if_pos rfl).symm.trans last
    by_cases earlier : name ∈ (replay changes .empty).names
    · obtain ⟨place, enters⟩ := ih earlier
      exact ⟨place, enters_concat.mpr (.inl ⟨enters, kept⟩)⟩
    · split at last
      · next same =>
        cases last
        exact ⟨_, enters_concat.mpr (.inr ⟨earlier, rfl, same, nofun⟩)⟩
      · exact absurd (mem_names_replay.mpr ⟨value, last⟩) earlier

/-- Of two names that are listed, the one that came in first stands first. -/
theorem pairwise_names_replay (changes : List Change) :
    (replay changes .empty).names.Pairwise fun name other =>
      ∀ j k, Enters changes name j → Enters changes other k → j < k := by
  induction changes using List.reverseRecOn with
  | nil => exact .nil
  | append_singleton changes c ih =>
    have before {name : Text} (listed : name ∈ (replay changes .empty).names) {place : Nat}
        (enters : Enters (changes ++ [c]) name place) : Enters changes name place := by
      rcases enters_concat.mp enters with ⟨earlier, -⟩ | ⟨fresh, -⟩
      · exact earlier
      · exact absurd listed fresh
    have kept : (replay changes .empty).names.Pairwise fun name other =>
        ∀ j k, Enters (changes ++ [c]) name j → Enters (changes ++ [c]) other k → j < k :=
      ih.imp_of_mem fun first second ordered j k enters enters' =>
        ordered j k (before first enters) (before second enters')
    rw [replay_concat]
    cases c with
    | bind name value =>
      change ((replay changes .empty).insert name value).names.Pairwise _
      rw [Table.names_insert]
      split
      · exact kept
      · next fresh =>
        -- the name comes in behind all others
        refine List.pairwise_append.mpr ⟨kept, List.pairwise_singleton _ _, ?_⟩
        rintro other listed _ newest j k enters enters'
        cases List.mem_singleton.mp newest
        rcases enters_concat.mp enters' with ⟨earlier, -⟩ | ⟨-, rfl, -⟩
        · exact absurd earlier.mem_names fresh
        · exact (before listed enters).lt_length
    | unbind name =>
      change ((replay changes .empty).erase name).names.Pairwise _
      rw [Table.names_erase]
      exact kept.filter _

end Change
end TinyTcl
