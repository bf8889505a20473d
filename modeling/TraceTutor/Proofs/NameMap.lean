import TraceTutor.NameMap

/-!
# Laws of ordered maps

What is bound after a name is set: that name to the new thing, and all other names as before. The
names of a map are those that it binds, each once, so that looking a name up finds its one entry.
-/

namespace TraceTutor

namespace NameMap

variable {α : Type}

theorem lookup_cons_ite (key k : String) (y : α) (rest : List (String × α)) :
    ((k, y) :: rest).lookup key = if key = k then some y else rest.lookup key := by
  by_cases h : key = k
  · subst h
    simp
  · have hkey : (key == k) = false := by simpa using h
    rw [List.lookup_cons, hkey, if_neg h]

theorem lookup_setEntry (name key : String) (x : α) (entries : List (String × α)) :
    (setEntry name x entries).lookup key =
      if key = name then some x else entries.lookup key := by
  induction entries with
  | nil =>
    unfold setEntry
    rw [lookup_cons_ite]
  | cons entry rest ih =>
    obtain ⟨k, y⟩ := entry
    unfold setEntry
    by_cases hk : k = name
    · subst hk
      rw [if_pos rfl, lookup_cons_ite, lookup_cons_ite]
      by_cases h : key = k
      · rw [if_pos h, if_pos h]
      · rw [if_neg h, if_neg h, if_neg h]
    · rw [if_neg hk, lookup_cons_ite, lookup_cons_ite, ih]
      by_cases h : key = k
      · subst h
        rw [if_pos rfl, if_neg hk, if_pos rfl]
      · rw [if_neg h, if_neg h]

theorem get?_set (m : NameMap α) (name key : String) (x : α) :
    (m.set name x).get? key = if key = name then some x else m.get? key :=
  lookup_setEntry name key x m.entries

theorem get?_modify (m : NameMap α) (name key : String) (f : α → α) :
    (m.modify name f).get? key = if key = name then (m.get? key).map f else m.get? key := by
  show (modifyEntry name f m.entries).lookup key = _
  unfold get? modifyEntry
  induction m.entries with
  | nil => simp
  | cons entry rest ih =>
    obtain ⟨k, y⟩ := entry
    rw [List.map_cons, lookup_cons_ite, lookup_cons_ite, ih]
    by_cases hk : key = k
    · subst hk
      by_cases h : key = name <;> simp [h]
    · simp only [if_neg hk]

theorem lookup_eraseEntry (name key : String) (entries : List (String × α)) :
    (eraseEntry name entries).lookup key = if key = name then none else entries.lookup key := by
  induction entries with
  | nil => simp [eraseEntry]
  | cons entry rest ih =>
    obtain ⟨k, y⟩ := entry
    rw [eraseEntry, List.filter_cons] at *
    by_cases hk : k = name
    · subst hk
      rw [if_neg (by simp), ih, lookup_cons_ite]
      split <;> rfl
    · rw [if_pos (by simpa using hk), lookup_cons_ite, ih, lookup_cons_ite]
      split
      next hkey => rw [if_neg (hkey ▸ hk)]
      next => rfl

theorem get?_erase (m : NameMap α) (name key : String) :
    (m.erase name).get? key = if key = name then none else m.get? key :=
  lookup_eraseEntry name key m.entries

theorem get?_eraseAll (m : NameMap α) (names : List String) (key : String) :
    (names.foldl erase m).get? key = if key ∈ names then none else m.get? key := by
  induction names generalizing m with
  | nil => simp
  | cons name rest ih =>
    rw [List.foldl_cons, ih, get?_erase]
    by_cases hrest : key ∈ rest <;> by_cases hname : key = name <;> simp [hrest, hname]

/-- A map that lies over another one hides the bindings of its names. -/
theorem get?_extend (m n : NameMap α) (key : String) :
    (m.extend n).get? key = (n.get? key).or (m.get? key) := by
  have hsetAll (entries : List (String × α)) (h : (entries.map Prod.fst).Nodup) (m : NameMap α) :
      (m.setAll entries).get? key = (entries.lookup key).or (m.get? key) := by
    induction entries generalizing m with
    | nil => rfl
    | cons entry rest ih =>
      obtain ⟨k, y⟩ := entry
      obtain ⟨hk, hrest⟩ := List.nodup_cons.1 h
      rw [setAll, List.foldl_cons]
      refine (ih hrest (m.set k y)).trans ?_
      rw [get?_set, lookup_cons_ite]
      by_cases hkey : key = k
      · subst hkey
        have hnone : rest.lookup key = none := by
          rw [List.lookup_eq_none_iff]
          intro entry hentry
          have hne : key ≠ entry.1 := fun h => hk (List.mem_map.2 ⟨entry, hentry, h.symm⟩)
          simpa using hne
        simp [hnone]
      · simp [hkey]
  exact hsetAll n.entries n.nodup_names m

/-! ## Names and entries -/

theorem lookup_eq_some_iff_mem {name : String} {x : α} {entries : List (String × α)}
    (h : (entries.map Prod.fst).Nodup) : entries.lookup name = some x ↔ (name, x) ∈ entries := by
  induction entries with
  | nil => simp
  | cons entry rest ih =>
    obtain ⟨k, y⟩ := entry
    obtain ⟨hk, hrest⟩ := List.nodup_cons.1 h
    rw [lookup_cons_ite, List.mem_cons, Prod.mk.injEq]
    by_cases hname : name = k
    · subst hname
      have hmem : (name, x) ∉ rest := fun hx => hk (List.mem_map.2 ⟨_, hx, rfl⟩)
      rw [if_pos rfl, Option.some.injEq]
      exact ⟨fun hy => .inl ⟨rfl, hy.symm⟩, fun hor => (hor.resolve_right hmem).2.symm⟩
    · rw [if_neg hname, ih hrest]
      exact ⟨.inr, fun hor => hor.resolve_left fun hx => hname hx.1⟩

theorem mem_of_lookup {name : String} {x : α} {entries : List (String × α)}
    (h : entries.lookup name = some x) : (name, x) ∈ entries := by
  obtain ⟨before, after, rfl, -⟩ := List.lookup_eq_some_iff.1 h
  simp

theorem contains_iff_mem_names (m : NameMap α) (name : String) :
    m.contains name = true ↔ name ∈ m.names := by
  unfold contains get? names
  rw [List.lookup_isSome_iff, List.mem_map]
  refine exists_congr fun entry => and_congr_right fun _ => ?_
  rw [beq_iff_eq, eq_comm]

theorem not_contains_iff_not_mem_names (m : NameMap α) (name : String) :
    (!m.contains name) = true ↔ name ∉ m.names := by
  rw [← contains_iff_mem_names, Bool.not_eq_true', Bool.not_eq_true]

/-- Maps with the same entries bind names alike, whatever the order of the entries. -/
theorem get?_eq_of_perm {m n : NameMap α} (h : m.entries.Perm n.entries) (name : String) :
    m.get? name = n.get? name := by
  refine Option.ext fun x => ?_
  unfold get?
  rw [lookup_eq_some_iff_mem m.nodup_names, lookup_eq_some_iff_mem n.nodup_names]
  exact h.mem_iff

theorem erase_of_not_mem {m : NameMap α} {name : String} (h : name ∉ m.names) :
    m.erase name = m := by
  refine NameMap.ext (List.filter_eq_self.2 fun entry hentry => decide_eq_true ?_)
  rintro rfl
  exact h (List.mem_map_of_mem hentry)

/-! ## Maps from lists -/

theorem mem_setEntry {name : String} {x : α} {entries : List (String × α)} {entry : String × α}
    (h : entry ∈ setEntry name x entries) : entry = (name, x) ∨ entry ∈ entries := by
  induction entries with
  | nil => exact .inl (List.mem_singleton.1 h)
  | cons first rest ih =>
    obtain ⟨k, y⟩ := first
    unfold setEntry at h
    split at h
    next heq =>
      subst heq
      exact (List.mem_cons.1 h).imp_right (List.mem_cons_of_mem _)
    next =>
      rcases List.mem_cons.1 h with rfl | h
      · exact .inr List.mem_cons_self
      · exact (ih h).imp_right (List.mem_cons_of_mem _)

theorem mem_entries_setAll {m : NameMap α} {entries : List (String × α)} {entry : String × α}
    (h : entry ∈ (m.setAll entries).entries) : entry ∈ entries ∨ entry ∈ m.entries := by
  induction entries generalizing m with
  | nil => exact .inr h
  | cons first rest ih =>
    rcases ih h with h | h
    · exact .inl (List.mem_cons_of_mem _ h)
    · rcases mem_setEntry h with rfl | h
      · exact .inl List.mem_cons_self
      · exact .inr h

theorem mem_of_mem_ofList {entries : List (String × α)} {entry : String × α}
    (h : entry ∈ (ofList entries).entries) : entry ∈ entries :=
  (mem_entries_setAll h).resolve_right List.not_mem_nil

theorem setEntry_of_not_mem {name : String} {x : α} {entries : List (String × α)}
    (h : name ∉ entries.map Prod.fst) : setEntry name x entries = entries ++ [(name, x)] := by
  induction entries with
  | nil => rfl
  | cons entry rest ih =>
    obtain ⟨k, y⟩ := entry
    rw [List.map_cons, List.mem_cons, not_or] at h
    unfold setEntry
    rw [if_neg (Ne.symm h.1), ih h.2, List.cons_append]

theorem map_fst_setEntry_of_mem {name : String} {x : α} {entries : List (String × α)}
    (h : name ∈ entries.map Prod.fst) :
    (setEntry name x entries).map Prod.fst = entries.map Prod.fst := by
  induction entries with
  | nil => exact absurd h List.not_mem_nil
  | cons entry rest ih =>
    obtain ⟨k, y⟩ := entry
    unfold setEntry
    split
    next => rfl
    next hk =>
      have hrest := (List.mem_cons.1 h).resolve_left (Ne.symm hk)
      rw [List.map_cons, List.map_cons, ih hrest]

/-- A name that is not bound yet comes last. -/
theorem names_set (m : NameMap α) (name : String) (x : α) :
    (m.set name x).names = m.names ∨ (m.set name x).names = m.names ++ [name] := by
  by_cases h : name ∈ m.names
  · exact .inl (map_fst_setEntry_of_mem h)
  · refine .inr ?_
    rw [names, entries_set, setEntry_of_not_mem h, List.map_append]
    rfl

theorem entries_setAll (m : NameMap α) {entries : List (String × α)}
    (h : ((m.entries ++ entries).map Prod.fst).Nodup) :
    (m.setAll entries).entries = m.entries ++ entries := by
  induction entries generalizing m with
  | nil => exact (List.append_nil _).symm
  | cons entry rest ih =>
    have hfresh : entry.1 ∉ m.entries.map Prod.fst := by
      rw [List.map_append, List.nodup_append] at h
      exact fun hmem => h.2.2 _ hmem _ List.mem_cons_self rfl
    have hset : (m.set entry.1 entry.2).entries = m.entries ++ [entry] :=
      setEntry_of_not_mem hfresh
    have hassoc : m.entries ++ entry :: rest = m.entries ++ [entry] ++ rest := by
      rw [List.append_assoc, List.singleton_append]
    have hrest := ih (m.set entry.1 entry.2) (by rwa [hset, ← hassoc])
    rw [hset, ← hassoc] at hrest
    exact hrest

/-- Entries in which no name occurs twice are those of their map, in their order. -/
theorem entries_ofList {entries : List (String × α)} (h : (entries.map Prod.fst).Nodup) :
    (ofList entries).entries = entries :=
  entries_setAll empty h

theorem ofList_entries (m : NameMap α) : ofList m.entries = m :=
  ext (entries_ofList m.nodup_names)

end NameMap

end TraceTutor
