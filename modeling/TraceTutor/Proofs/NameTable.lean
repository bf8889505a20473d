import TraceTutor.Proofs.Bindings
import TraceTutor.Proofs.Value.Equality

/-!
# Ordered maps as tables

A `NameTable` is an ordered map in two parts: a hash table of what is bound to each name, and a list
of the names in order. Every operation has to keep the two in step. Whatever changes are made, the
table agrees with the ordered map after the same changes (`represents_built`): its list has each
name of the hash table once, and what it shows is what the list of entries shows
(`table_agrees_with_map`).
-/

namespace TraceTutor

/-! ## Tables -/

/-- A hash table beside the list of its names. -/
structure NameTable (α : Type) where
  values : Std.HashMap String α
  order : List String

namespace NameTable

variable {α : Type}

def empty : NameTable α := ⟨∅, []⟩

def get? (t : NameTable α) (name : String) : Option α :=
  t.values[name]?

def contains (t : NameTable α) (name : String) : Bool :=
  t.values.contains name

/-- Binds a name. A name that is bound keeps its place. -/
def set (t : NameTable α) (name : String) (x : α) : NameTable α :=
  ⟨t.values.insert name x, if t.contains name then t.order else t.order ++ [name]⟩

/-- Changes what a name is bound to, if it is bound. -/
def modify (t : NameTable α) (name : String) (f : α → α) : NameTable α :=
  { t with values := t.values.modify name f }

/-- Unbinds a name, if it is bound. -/
def erase (t : NameTable α) (name : String) : NameTable α :=
  if t.contains name then ⟨t.values.erase name, t.order.filter (· ≠ name)⟩ else t

def size (t : NameTable α) : Nat :=
  t.order.length

/-- The names in order, each with what is bound to it. A name that is not in the hash table is left
out. -/
def entries (t : NameTable α) : List (String × α) :=
  t.order.filterMap fun name => (t.get? name).map (name, ·)

/-- Lays another table over this one. -/
def extend (t other : NameTable α) : NameTable α :=
  other.entries.foldl (fun t (name, x) => t.set name x) t

/-- Whether two tables bind the same names to the same values. The order does not count. -/
def identical (t other : NameTable Value) : Bool :=
  t.values.size == other.values.size &&
    t.values.all fun name v => (other.get? name).any v.identical

end NameTable

/-! ## Changes -/

/-- A change to an ordered map. The map that is laid over it has been made by changes as well. -/
inductive Change (α : Type) where
  | set (name : String) (x : α)
  | modify (name : String) (f : α → α)
  | erase (name : String)
  | extend (changes : List (Change α))
  | clear

section

variable {α : Type}

mutual

def NameTable.change (t : NameTable α) : Change α → NameTable α
  | .set name x => t.set name x
  | .modify name f => t.modify name f
  | .erase name => t.erase name
  | .extend changes => t.extend (NameTable.empty.changeAll changes)
  | .clear => .empty

def NameTable.changeAll (t : NameTable α) : List (Change α) → NameTable α
  | [] => t
  | c :: rest => (t.change c).changeAll rest

end

mutual

def NameMap.change (m : NameMap α) : Change α → NameMap α
  | .set name x => m.set name x
  | .modify name f => m.modify name f
  | .erase name => m.erase name
  | .extend changes => m.extend (NameMap.empty.changeAll changes)
  | .clear => .empty

def NameMap.changeAll (m : NameMap α) : List (Change α) → NameMap α
  | [] => m
  | c :: rest => (m.change c).changeAll rest

end

/-- The table that the changes make of an empty one. -/
def NameTable.built (changes : List (Change α)) : NameTable α :=
  NameTable.empty.changeAll changes

/-- The map that the changes make of an empty one. -/
def NameMap.built (changes : List (Change α)) : NameMap α :=
  NameMap.empty.changeAll changes

end

namespace NameTable

variable {α : Type}

/-! ## Tables that represent maps -/

/-- The table has the names of the map in their order, and binds to each what the map does. -/
structure Represents (t : NameTable α) (m : NameMap α) : Prop where
  order : t.order = m.names
  get? : ∀ name, t.get? name = m.get? name

namespace Represents

variable {t u : NameTable α} {m n : NameMap α}

theorem empty : Represents (.empty : NameTable α) .empty :=
  ⟨rfl, fun _ => Std.HashMap.getElem?_empty⟩

theorem contains (h : t.Represents m) (name : String) : t.contains name = m.contains name := by
  rw [NameTable.contains, Std.HashMap.contains_eq_isSome_getElem?]
  exact congrArg Option.isSome (h.get? name)

theorem set (h : t.Represents m) (name : String) (x : α) :
    (t.set name x).Represents (m.set name x) where
  order := by
    show (if t.contains name then t.order else t.order ++ [name]) = (m.set name x).names
    rw [h.contains, h.order]
    by_cases hname : name ∈ m.names
    · rw [if_pos ((m.contains_iff_mem_names name).2 hname)]
      exact (NameMap.map_fst_setEntry_of_mem hname).symm
    · rw [if_neg (mt (m.contains_iff_mem_names name).1 hname), NameMap.names, NameMap.names,
        NameMap.entries_set, NameMap.setEntry_of_not_mem hname, List.map_append]
      rfl
  get? key := by
    show (t.values.insert name x)[key]? = _
    rw [Std.HashMap.getElem?_insert, NameMap.get?_set]
    by_cases hkey : key = name
    · rw [if_pos hkey, if_pos (beq_iff_eq.2 hkey.symm)]
    · rw [if_neg hkey, if_neg (mt beq_iff_eq.1 (Ne.symm hkey))]
      exact h.get? key

theorem modify (h : t.Represents m) (name : String) (f : α → α) :
    (t.modify name f).Represents (m.modify name f) where
  order := h.order.trans (NameMap.map_fst_modifyEntry name f m.entries).symm
  get? key := by
    show (t.values.modify name f)[key]? = _
    rw [Std.HashMap.getElem?_modify, NameMap.get?_modify]
    by_cases hkey : key = name
    · subst hkey
      rw [if_pos rfl, if_pos (beq_self_eq_true key)]
      exact congrArg (Option.map f) (h.get? key)
    · rw [if_neg hkey, if_neg (mt beq_iff_eq.1 (Ne.symm hkey))]
      exact h.get? key

theorem erase (h : t.Represents m) (name : String) :
    (t.erase name).Represents (m.erase name) := by
  unfold NameTable.erase
  rw [h.contains]
  by_cases hname : m.contains name = true
  · rw [if_pos hname]
    refine ⟨?_, fun key => ?_⟩
    · show t.order.filter (· ≠ name) = _
      rw [h.order]
      exact List.filter_map
    · show (t.values.erase name)[key]? = _
      rw [Std.HashMap.getElem?_erase, NameMap.get?_erase]
      by_cases hkey : key = name
      · rw [if_pos hkey, if_pos (beq_iff_eq.2 hkey.symm)]
      · rw [if_neg hkey, if_neg (mt beq_iff_eq.1 (Ne.symm hkey))]
        exact h.get? key
  · rw [if_neg hname, NameMap.erase_of_not_mem (mt (m.contains_iff_mem_names name).2 hname)]
    exact h

theorem entries (h : t.Represents m) : t.entries = m.entries := by
  unfold NameTable.entries
  rw [h.order, NameMap.names, List.filterMap_map]
  refine (List.filterMap_congr fun entry hentry => ?_).trans List.filterMap_some
  have hget : m.get? entry.1 = some entry.2 :=
    (NameMap.lookup_eq_some_iff_mem m.nodup_names).2 hentry
  show (t.get? entry.1).map _ = _
  rw [h.get?, hget]
  rfl

theorem setAll (h : t.Represents m) (more : List (String × α)) :
    (more.foldl (fun t (name, x) => t.set name x) t).Represents (m.setAll more) := by
  induction more generalizing t m with
  | nil => exact h
  | cons entry more ih => exact ih (h.set entry.1 entry.2)

theorem extend (h : t.Represents m) (h' : u.Represents n) :
    (t.extend u).Represents (m.extend n) := by
  unfold NameTable.extend
  rw [h'.entries]
  exact h.setAll n.entries

mutual

theorem change {t : NameTable α} {m : NameMap α} (h : t.Represents m) :
    ∀ c : Change α, (t.change c).Represents (m.change c)
  | .set name x => h.set name x
  | .modify name f => h.modify name f
  | .erase name => h.erase name
  | .extend changes => h.extend (empty.changeAll changes)
  | .clear => empty

theorem changeAll {t : NameTable α} {m : NameMap α} (h : t.Represents m) :
    ∀ changes : List (Change α), (t.changeAll changes).Represents (m.changeAll changes)
  | [] => h
  | c :: rest => (h.change c).changeAll rest

end

end Represents

theorem represents_built (changes : List (Change α)) :
    (built changes).Represents (NameMap.built changes) :=
  Represents.empty.changeAll changes

end NameTable

/-! ## Equality -/

/-- The same pairs stand in both lists, whatever their order. -/
structure SamePairs (xs ys : List (String × Value)) : Prop where
  left : ∀ p ∈ xs, ∃ q ∈ ys, p.1 = q.1 ∧ p.2.identical q.2 = true
  right : ∀ q ∈ ys, ∃ p ∈ xs, p.1 = q.1 ∧ p.2.identical q.2 = true

section

variable {xs ys : List (String × Value)} (hx : (xs.map Prod.fst).Nodup)
  (hy : (ys.map Prod.fst).Nodup)
include hx hy

theorem SamePairs.length_eq (h : SamePairs xs ys) : xs.length = ys.length := by
  have hperm : (xs.map Prod.fst).Perm (ys.map Prod.fst) := by
    refine (List.perm_ext_iff_of_nodup hx hy).2 fun name => ⟨fun hname => ?_, fun hname => ?_⟩
    · obtain ⟨p, hp, rfl⟩ := List.mem_map.1 hname
      obtain ⟨q, hq, heq, -⟩ := h.left p hp
      exact List.mem_map.2 ⟨q, hq, heq.symm⟩
    · obtain ⟨q, hq, rfl⟩ := List.mem_map.1 hname
      obtain ⟨p, hp, heq, -⟩ := h.right q hq
      exact List.mem_map.2 ⟨p, hp, heq⟩
  simpa using hperm.length_eq

/-- Of lists without a name that occurs twice, it is enough to look up the pairs of one in the other
if they are equally long. -/
theorem samePairs_iff : SamePairs xs ys ↔ xs.length = ys.length ∧
    ∀ p ∈ xs, ∃ v, ys.lookup p.1 = some v ∧ p.2.identical v = true := by
  constructor
  · intro h
    refine ⟨h.length_eq hx hy, fun p hp => ?_⟩
    obtain ⟨⟨name, v⟩, hq, rfl, hv⟩ := h.left p hp
    exact ⟨v, (NameMap.lookup_eq_some_iff_mem hy).2 hq, hv⟩
  · rintro ⟨hlength, hlookup⟩
    refine ⟨fun p hp => ?_, fun q hq => ?_⟩
    · obtain ⟨v, hv, hsame⟩ := hlookup p hp
      exact ⟨(p.1, v), NameMap.mem_of_lookup hv, rfl, hsame⟩
    · obtain ⟨name, v⟩ := q
      have hwithin : Value.fieldsWithinBy Number.identical xs ys = true :=
        Value.fieldsWithinBy_iff.2 hlookup
      obtain ⟨w, hw⟩ := Value.exists_field_of_within hx hlength hwithin hq
      obtain ⟨v', hv', hsame⟩ := hlookup (name, w) hw
      obtain rfl : v = v' := Option.some.inj
        (((NameMap.lookup_eq_some_iff_mem hy).2 hq).symm.trans hv')
      exact ⟨(name, w), hw, rfl, hsame⟩

end

theorem Bindings.identical_iff (b c : Bindings) :
    b.identical c = true ↔ SamePairs b.entries c.entries := by
  rw [samePairs_iff b.nodup_names c.nodup_names, identical, Bool.and_eq_true, beq_iff_eq,
    List.all_eq_true]
  refine and_congr_right fun _ => forall₂_congr fun p _ => ?_
  dsimp only
  change _ ↔ ∃ v, c.get? p.1 = some v ∧ p.2.identical v = true
  cases c.get? p.1 with
  | none => simp
  | some w => simp

namespace NameTable

theorem Represents.mem_values_iff {α : Type} {t : NameTable α} {m : NameMap α}
    (h : t.Represents m) (name : String) : name ∈ t.values ↔ name ∈ m.names := by
  rw [← m.contains_iff_mem_names, ← h.contains]
  exact Std.HashMap.mem_iff_contains

theorem Represents.size_values {α : Type} {t : NameTable α} {m : NameMap α}
    (h : t.Represents m) : t.values.size = m.entries.length := by
  have hperm : t.values.keys.Perm m.names := by
    refine (List.perm_ext_iff_of_nodup Std.HashMap.nodup_keys m.nodup_names).2 fun name => ?_
    rw [Std.HashMap.mem_keys]
    exact h.mem_values_iff name
  rw [← Std.HashMap.length_keys, hperm.length_eq, NameMap.names, List.length_map]

theorem Represents.identical_iff {t u : NameTable Value} {b c : Bindings} (h : t.Represents b)
    (h' : u.Represents c) : t.identical u = true ↔ SamePairs b.entries c.entries := by
  rw [samePairs_iff b.nodup_names c.nodup_names, identical, Bool.and_eq_true, beq_iff_eq,
    h.size_values, h'.size_values, ← Std.HashMap.all_toList, List.all_eq_true]
  refine and_congr_right fun _ => forall_congr' fun p => ?_
  obtain ⟨name, v⟩ := p
  have hmem : (name, v) ∈ t.values.toList ↔ (name, v) ∈ b.entries := by
    rw [Std.HashMap.mem_toList_iff_getElem?_eq_some]
    exact (h.get? name).congr_left.trans (NameMap.lookup_eq_some_iff_mem b.nodup_names)
  rw [hmem, h'.get?, Option.any_eq_true]
  exact Iff.rfl

/-- Whatever changes are made, a table has each name of its hash table once in its order, and shows
the same as the list of entries after these changes. Two tables are identical if and only if their
lists have the same pairs. -/
theorem table_agrees_with_map (changes others : List (Change Value)) :
    let t := built changes
    let m := NameMap.built changes
    let u := built others
    let n := NameMap.built others
    t.order.Nodup ∧ (∀ name, name ∈ t.order ↔ name ∈ t.values) ∧
    (∀ name, t.get? name = m.entries.lookup name) ∧
    (∀ name, t.contains name = (m.entries.lookup name).isSome) ∧
    t.size = m.entries.length ∧ t.order = m.entries.map Prod.fst ∧ t.entries = m.entries ∧
    (t.identical u = true ↔ SamePairs m.entries n.entries) ∧
    t.identical u = Bindings.identical m n := by
  intro t m u n
  have h : t.Represents m := represents_built changes
  have h' : u.Represents n := represents_built others
  refine ⟨h.order ▸ m.nodup_names, fun name => ?_, h.get?, h.contains, ?_, h.order, h.entries,
    h.identical_iff h', ?_⟩
  · rw [h.order, h.mem_values_iff]
  · rw [size, h.order, NameMap.names, List.length_map]
  · rw [Bool.eq_iff_iff, h.identical_iff h', Bindings.identical_iff]

/-- A name that is bound again keeps its place, unless it was unbound in between. -/
example : (NameMap.built [.set "a" 1, .set "b" 2, .set "a" 3, .erase "b", .set "b" 4,
    .extend [.set "c" 5, .set "a" 6]]).entries = [("a", 6), ("b", 4), ("c", 5)] := by
  rfl

end NameTable

end TraceTutor
