import TinyTcl.Text.Basic

/-! Tables: names with an entry each, in the order in which the names came in. No name stands twice.
A new entry for a name that is there takes the place of the old one; a name that was erased comes in
again at the end. -/
namespace TinyTcl

/-- Names with their entries. -/
structure Table (α : Type) where
  entries : List (Text × α)
  distinct : (entries.map Prod.fst).Nodup

namespace Table

variable {α : Type}

/-- The table without names. -/
def empty : Table α := ⟨[], List.nodup_nil⟩

theorem ext {t u : Table α} (h : t.entries = u.entries) : t = u := by
  cases t
  cases u
  cases h
  rfl

/-- The names, oldest first. -/
def names (t : Table α) : List Text := t.entries.map Prod.fst

/-- The entry of a name. -/
def find? (t : Table α) (name : Text) : Option α := t.entries.lookup name

/-- Whether a name stands in the table. -/
def contains (t : Table α) (name : Text) : Bool := (t.find? name).isSome

/-- Gives an entry to a name that is there, or adds the name. -/
private def put (name : Text) (entry : α) : List (Text × α) → List (Text × α)
  | [] => [(name, entry)]
  | (other, old) :: rest =>
    if other = name then (name, entry) :: rest else (other, old) :: put name entry rest

private theorem names_put (name : Text) (entry : α) (entries : List (Text × α)) :
    (put name entry entries).map Prod.fst =
      if name ∈ entries.map Prod.fst then entries.map Prod.fst
      else entries.map Prod.fst ++ [name] := by
  induction entries with
  | nil => rfl
  | cons first rest ih =>
    obtain ⟨other, old⟩ := first
    by_cases same : other = name
    · simp [put, same]
    · have apart : name ≠ other := fun h => same h.symm
      simp only [put, same, if_false, List.map_cons, ih, List.mem_cons, apart, false_or]
      split <;> simp

private theorem lookup_pair (name key : Text) (entry : α) (rest : List (Text × α)) :
    ((key, entry) :: rest).lookup name = if name = key then some entry else rest.lookup name := by
  by_cases same : name = key
  · simp [same]
  · simp [List.lookup_cons, beq_eq_false_iff_ne.mpr same, same]

private theorem lookup_put (name other : Text) (entry : α) (entries : List (Text × α)) :
    (put name entry entries).lookup other =
      if other = name then some entry else entries.lookup other := by
  induction entries with
  | nil => simp [put, lookup_pair]
  | cons first rest ih =>
    obtain ⟨key, old⟩ := first
    by_cases here : key = name
    · subst here
      by_cases same : other = key <;> simp [put, lookup_pair, same]
    · by_cases found : other = key
      · subst found
        simp [put, here]
      · simp [put, here, lookup_pair, found, ih]

private theorem put_eq (name : Text) (entry : α) {entries : List (Text × α)}
    (distinct : (entries.map Prod.fst).Nodup) :
    put name entry entries = if name ∈ entries.map Prod.fst then
        entries.map fun e => if e.1 = name then (name, entry) else e
      else entries ++ [(name, entry)] := by
  induction entries with
  | nil => rfl
  | cons first rest ih =>
    obtain ⟨other, old⟩ := first
    obtain ⟨fresh, distinct⟩ := List.nodup_cons.mp distinct
    by_cases same : other = name
    · subst same
      have others : (rest.map fun e => if e.1 = other then (other, entry) else e) = rest := by
        refine (List.map_congr_left fun e inside => ?_).trans rest.map_id
        have apart : e.1 ≠ other := fun h => fresh (List.mem_map.mpr ⟨e, inside, h⟩)
        rw [if_neg apart]
        rfl
      simp [put, others]
    · have apart : name ≠ other := fun h => same h.symm
      simp only [put, same, if_false, List.map_cons, List.mem_cons, apart, false_or, ih distinct]
      split <;> simp

/-- The table with a name bound to an entry. -/
def insert (t : Table α) (name : Text) (entry : α) : Table α where
  entries := put name entry t.entries
  distinct := by
    rw [names_put]
    split
    · exact t.distinct
    · next fresh =>
      refine List.nodup_append.mpr ⟨t.distinct, by simp, ?_⟩
      intro a old b new same
      simp only [List.mem_singleton] at new
      exact fresh (new ▸ same ▸ old)

/-- The table without a name. -/
def erase (t : Table α) (name : Text) : Table α where
  entries := t.entries.filter fun e => e.1 != name
  distinct := t.distinct.sublist (List.filter_sublist.map _)

/-- The entries in the order of their names. -/
def sorted (t : Table α) : List (Text × α) := t.entries.mergeSort fun a b => a.1.isAtMost b.1

@[simp] theorem find?_empty (name : Text) : (empty : Table α).find? name = none := rfl

@[simp] theorem names_empty : (empty : Table α).names = [] := rfl

theorem find?_insert (t : Table α) (name other : Text) (entry : α) :
    (t.insert name entry).find? other = if other = name then some entry else t.find? other :=
  lookup_put name other entry t.entries

theorem names_insert (t : Table α) (name : Text) (entry : α) :
    (t.insert name entry).names = if name ∈ t.names then t.names else t.names ++ [name] :=
  names_put name entry t.entries

/-- A name that is there keeps its place. -/
theorem entries_insert (t : Table α) (name : Text) (entry : α) :
    (t.insert name entry).entries = if name ∈ t.names then
        t.entries.map fun e => if e.1 = name then (name, entry) else e
      else t.entries ++ [(name, entry)] :=
  put_eq name entry t.distinct

theorem find?_erase (t : Table α) (name other : Text) :
    (t.erase name).find? other = if other = name then none else t.find? other := by
  simp only [find?, erase]
  induction t.entries with
  | nil => simp
  | cons first rest ih =>
    obtain ⟨key, entry⟩ := first
    by_cases here : key = name
    · subst here
      rw [List.filter_cons_of_neg (by simp), ih]
      by_cases same : other = key <;> simp [same, lookup_pair]
    · rw [List.filter_cons_of_pos (by simpa using here)]
      by_cases found : other = key
      · subst found
        simp [here]
      · simp [lookup_pair, found, ih]

/-- What holds of all entries and of a new one holds of all entries behind it. -/
theorem forall_insert {t : Table α} {p : α → Prop}
    (each : ∀ name entry, t.find? name = some entry → p entry) {name : Text} {new : α} (h : p new) :
    ∀ other entry, (t.insert name new).find? other = some entry → p entry := by
  intro other entry found
  rw [find?_insert] at found
  split at found
  · exact Option.some.inj found ▸ h
  · exact each other entry found

theorem forall_erase {t : Table α} {p : α → Prop}
    (each : ∀ name entry, t.find? name = some entry → p entry) {name : Text} :
    ∀ other entry, (t.erase name).find? other = some entry → p entry := by
  intro other entry found
  rw [find?_erase] at found
  split at found
  · cases found
  · exact each other entry found

theorem names_erase (t : Table α) (name : Text) :
    (t.erase name).names = t.names.filter (· != name) := by
  simp only [names, erase, List.filter_map]
  rfl

theorem mem_names_iff {t : Table α} {name : Text} : name ∈ t.names ↔ t.contains name = true := by
  unfold contains find? names
  induction t.entries with
  | nil => simp
  | cons first rest ih =>
    obtain ⟨key, entry⟩ := first
    by_cases same : name = key
    · simp [same]
    · simp only [List.map_cons, List.mem_cons, same, false_or, lookup_pair, if_false, ih]

/-- Erasing a name that is not there changes nothing. -/
theorem erase_of_unbound {t : Table α} {name : Text} (unbound : t.contains name = false) :
    t.erase name = t := by
  have missing : name ∉ t.names := fun h => by simp [mem_names_iff.mp h] at unbound
  apply ext
  apply List.filter_eq_self.mpr
  intro e inside
  have apart : e.1 ≠ name := fun h => missing (List.mem_map.mpr ⟨e, inside, h⟩)
  simpa using apart

/-- A name that comes in and goes again leaves no mark. -/
theorem erase_insert_self {t : Table α} {name : Text} (fresh : t.contains name = false)
    (entry : α) : (t.insert name entry).erase name = t := by
  have missing : name ∉ t.names := fun h => by simp [mem_names_iff.mp h] at fresh
  have others : t.entries.filter (fun e => e.1 != name) = t.entries :=
    congrArg entries (erase_of_unbound fresh)
  apply ext
  change (t.insert name entry).entries.filter _ = _
  rw [entries_insert, if_neg missing, List.filter_append, others]
  simp

/-- Changes of two names do not get into each other's way. -/
theorem erase_insert_of_ne (t : Table α) {name other : Text} (apart : other ≠ name) (entry : α) :
    (t.insert other entry).erase name = (t.erase name).insert other entry := by
  have present : other ∈ (t.erase name).names ↔ other ∈ t.names := by
    simp [names_erase, apart]
  apply ext
  change (t.insert other entry).entries.filter _ = _
  rw [entries_insert, entries_insert]
  by_cases inside : other ∈ t.names
  · rw [if_pos inside, if_pos (present.mpr inside), List.filter_map]
    congr 1
    apply List.filter_congr
    intro e _
    by_cases same : e.1 = other <;> simp [same]
  · rw [if_neg inside, if_neg (fun h => inside (present.mp h)), List.filter_append]
    simp [erase, apart]

theorem erase_comm (t : Table α) (name other : Text) :
    (t.erase other).erase name = (t.erase name).erase other := by
  apply ext
  simp only [erase, List.filter_filter, Bool.and_comm]

/-- Replacing an entry by itself changes nothing. -/
theorem insert_of_find? {t : Table α} {name : Text} {entry : α}
    (found : t.find? name = some entry) : t.insert name entry = t := by
  apply ext
  change put name entry t.entries = t.entries
  rw [find?] at found
  generalize t.entries = entries at found
  induction entries with
  | nil => cases found
  | cons first rest ih =>
    obtain ⟨key, old⟩ := first
    rw [lookup_pair] at found
    by_cases same : name = key
    · rw [if_pos same] at found
      cases found
      rw [put, if_pos same.symm, same]
    · rw [if_neg same] at found
      rw [put, if_neg fun h => same h.symm, ih found]

section Map

variable {β : Type} (f : α → β) (t : Table α)

/-- The table with other entries for the same names. -/
def map : Table β where
  entries := t.entries.map fun e => (e.1, f e.2)
  distinct := by
    rw [List.map_map]
    exact t.distinct

theorem names_map : (t.map f).names = t.names := by
  simp only [names, map, List.map_map]
  rfl

theorem find?_map (name : Text) : (t.map f).find? name = (t.find? name).map f := by
  simp only [find?, map]
  induction t.entries with
  | nil => rfl
  | cons first rest ih =>
    obtain ⟨key, entry⟩ := first
    by_cases same : name = key <;> simp [lookup_pair, same, ih]

theorem contains_map (name : Text) : (t.map f).contains name = t.contains name := by
  rw [contains, find?_map, Option.isSome_map]
  rfl

theorem map_insert (name : Text) (entry : α) :
    (t.insert name entry).map f = (t.map f).insert name (f entry) := by
  apply ext
  change (t.insert name entry).entries.map _ = _
  rw [entries_insert, entries_insert, names_map]
  split
  · simp only [map, List.map_map]
    apply List.map_congr_left
    intro e _
    by_cases same : e.1 = name <;> simp [same]
  · simp [map]

theorem map_erase (name : Text) : (t.erase name).map f = (t.map f).erase name := by
  apply ext
  simp only [map, erase, List.filter_map]
  rfl

end Map

end Table
end TinyTcl
