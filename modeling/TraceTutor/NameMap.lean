/-!
# Ordered maps from names

A `NameMap` binds names to things and remembers the order of first binding. It is a list of entries
in which no name occurs twice: `set` overwrites in place or appends, `modify` changes in place, and
`erase` removes, so that a later `set` appends again.
-/

namespace TraceTutor

/-- An ordered map from names. -/
structure NameMap (α : Type) where
  entries : List (String × α)
  nodup_names : (entries.map Prod.fst).Nodup
deriving Repr

namespace NameMap

variable {α : Type}

/-! ## Entries -/

/-- Overwrites the entry of a name in place, or appends one. -/
def setEntry (name : String) (x : α) : List (String × α) → List (String × α)
  | [] => [(name, x)]
  | (key, y) :: rest =>
    if key = name then (key, x) :: rest else (key, y) :: setEntry name x rest

/-- Changes what stands under a name. -/
def modifyEntry (name : String) (f : α → α) (entries : List (String × α)) : List (String × α) :=
  entries.map fun (key, x) => (key, if key = name then f x else x)

/-- Removes the entries of a name. -/
def eraseEntry (name : String) (entries : List (String × α)) : List (String × α) :=
  entries.filter fun entry => entry.1 ≠ name

theorem mem_names_setEntry {name key : String} {x : α} {entries : List (String × α)} :
    key ∈ (setEntry name x entries).map Prod.fst ↔ key = name ∨ key ∈ entries.map Prod.fst := by
  induction entries with
  | nil => simp [setEntry]
  | cons entry rest ih =>
    obtain ⟨k, y⟩ := entry
    by_cases h : k = name
    · subst h
      simp [setEntry]
    · simp only [setEntry, if_neg h, List.map_cons, List.mem_cons, ih]
      constructor
      · rintro (h | h | h)
        · exact .inr (.inl h)
        · exact .inl h
        · exact .inr (.inr h)
      · rintro (h | h | h)
        · exact .inr (.inl h)
        · exact .inl h
        · exact .inr (.inr h)

theorem nodup_names_setEntry {name : String} {x : α} {entries : List (String × α)}
    (h : (entries.map Prod.fst).Nodup) : ((setEntry name x entries).map Prod.fst).Nodup := by
  induction entries with
  | nil => simp [setEntry]
  | cons entry rest ih =>
    obtain ⟨k, y⟩ := entry
    simp only [List.map_cons, List.nodup_cons] at h
    by_cases hk : k = name
    · subst hk
      simpa [setEntry] using h
    · simp only [setEntry, if_neg hk, List.map_cons, List.nodup_cons, mem_names_setEntry]
      exact ⟨fun hmem => hmem.elim hk h.1, ih h.2⟩

theorem map_fst_modifyEntry (name : String) (f : α → α) (entries : List (String × α)) :
    (modifyEntry name f entries).map Prod.fst = entries.map Prod.fst := by
  simp [modifyEntry]

theorem nodup_names_eraseEntry {name : String} {entries : List (String × α)}
    (h : (entries.map Prod.fst).Nodup) : ((eraseEntry name entries).map Prod.fst).Nodup :=
  h.sublist (List.filter_sublist.map Prod.fst)

/-! ## Operations -/

def empty : NameMap α :=
  ⟨[], List.nodup_nil⟩

instance : Inhabited (NameMap α) := ⟨empty⟩

/-- Binds a name. A name that is bound keeps its place. -/
def set (m : NameMap α) (name : String) (x : α) : NameMap α :=
  ⟨setEntry name x m.entries, nodup_names_setEntry m.nodup_names⟩

/-- Changes what a name is bound to. A name that is not bound stays so. -/
def modify (m : NameMap α) (name : String) (f : α → α) : NameMap α :=
  ⟨modifyEntry name f m.entries, (map_fst_modifyEntry name f m.entries).symm ▸ m.nodup_names⟩

/-- Unbinds a name. -/
def erase (m : NameMap α) (name : String) : NameMap α :=
  ⟨eraseEntry name m.entries, nodup_names_eraseEntry m.nodup_names⟩

def get? (m : NameMap α) (name : String) : Option α :=
  m.entries.lookup name

def contains (m : NameMap α) (name : String) : Bool :=
  (m.get? name).isSome

/-- The bound names, in order. -/
def names (m : NameMap α) : List String :=
  m.entries.map Prod.fst

def size (m : NameMap α) : Nat :=
  m.entries.length

def isEmpty (m : NameMap α) : Bool :=
  m.entries.isEmpty

/-- Binds every name of a list in turn. -/
def setAll (m : NameMap α) (entries : List (String × α)) : NameMap α :=
  entries.foldl (fun m (name, x) => m.set name x) m

def ofList (entries : List (String × α)) : NameMap α :=
  empty.setAll entries

/-- Lays another map over this one. -/
def extend (m other : NameMap α) : NameMap α :=
  m.setAll other.entries

/-! ## The map as a list of entries -/

@[simp] theorem entries_empty : (empty : NameMap α).entries = [] := rfl

@[simp] theorem entries_set (m : NameMap α) (name : String) (x : α) :
    (m.set name x).entries = setEntry name x m.entries := rfl

@[simp] theorem entries_modify (m : NameMap α) (name : String) (f : α → α) :
    (m.modify name f).entries = modifyEntry name f m.entries := rfl

@[simp] theorem entries_erase (m : NameMap α) (name : String) :
    (m.erase name).entries = eraseEntry name m.entries := rfl

@[ext] theorem ext {m n : NameMap α} (h : m.entries = n.entries) : m = n := by
  cases m
  cases n
  cases h
  rfl

end NameMap

end TraceTutor
