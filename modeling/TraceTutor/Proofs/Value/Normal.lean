import Mathlib.Data.String.Basic
import TraceTutor.Proofs.NameMap
import TraceTutor.Trace.Snapshot

/-!
# Values in normal form

An object holds its fields sorted by key, and no key twice. `Value.IsNormal` says so of a value and
of every value inside it, and `Trace.IsNormal` of the bindings that a trace shows. Objects are made
by `Value.ofFields` alone, which keeps to that form (`isNormal_ofFields`).
-/

namespace TraceTutor

namespace Value

/-! ## Normal form -/

mutual

/-- The keys of every object in the value are sorted, and none occurs twice. -/
def IsNormal : Value → Prop
  | array items => ItemsNormal items
  | object fields => (fields.map Prod.fst).Pairwise (· < ·) ∧ FieldsNormal fields
  | _ => True

def ItemsNormal : List Value → Prop
  | [] => True
  | v :: items => v.IsNormal ∧ ItemsNormal items

def FieldsNormal : List (String × Value) → Prop
  | [] => True
  | (_, v) :: fields => v.IsNormal ∧ FieldsNormal fields

end

theorem itemsNormal_iff {items : List Value} : ItemsNormal items ↔ ∀ v ∈ items, v.IsNormal := by
  induction items with
  | nil => simp [ItemsNormal]
  | cons v items ih => simp [ItemsNormal, ih]

theorem fieldsNormal_iff {fields : List (String × Value)} :
    FieldsNormal fields ↔ ∀ field ∈ fields, field.2.IsNormal := by
  induction fields with
  | nil => simp [FieldsNormal]
  | cons field fields ih => simp [FieldsNormal, ih]

theorem nodup_of_pairwise_lt {keys : List String} (h : keys.Pairwise (· < ·)) : keys.Nodup :=
  h.imp ne_of_lt

/-! ## Making objects -/

variable {key : String} {v : Value} {fields : List (String × Value)}

theorem mem_insertField {field : String × Value} (h : field ∈ insertField key v fields) :
    field = (key, v) ∨ field ∈ fields := by
  induction fields with
  | nil => exact .inl (List.mem_singleton.1 h)
  | cons entry rest ih =>
    obtain ⟨k, w⟩ := entry
    unfold insertField at h
    split at h
    next heq =>
      subst heq
      exact (List.mem_cons.1 h).imp_right (List.mem_cons_of_mem _)
    next =>
      split at h
      next => exact List.mem_cons.1 h
      next =>
        rcases List.mem_cons.1 h with h | h
        · exact .inr (h ▸ List.mem_cons_self)
        · exact (ih h).imp_right (List.mem_cons_of_mem _)

theorem pairwise_insertField (h : (fields.map Prod.fst).Pairwise (· < ·)) :
    ((insertField key v fields).map Prod.fst).Pairwise (· < ·) := by
  induction fields with
  | nil => exact List.pairwise_singleton _ _
  | cons entry rest ih =>
    obtain ⟨k, w⟩ := entry
    obtain ⟨hk, hrest⟩ := List.pairwise_cons.1 h
    unfold insertField
    by_cases heq : key = k
    · subst heq
      rw [if_pos rfl]
      exact h
    rw [if_neg heq]
    by_cases hlt : key < k
    · rw [if_pos hlt]
      refine List.pairwise_cons.2 ⟨fun name hname => ?_, h⟩
      rcases List.mem_cons.1 hname with rfl | hname
      · exact hlt
      · exact hlt.trans (hk name hname)
    · rw [if_neg hlt]
      refine List.pairwise_cons.2 ⟨fun name hname => ?_, ih hrest⟩
      obtain ⟨field, hfield, rfl⟩ := List.mem_map.1 hname
      rcases mem_insertField hfield with rfl | hfield
      · exact lt_of_le_of_ne (not_lt.1 hlt) (Ne.symm heq)
      · exact hk _ (List.mem_map_of_mem hfield)

/-- The object of a list of fields holds some of them, sorted. -/
theorem exists_ofFields (fields : List (String × Value)) :
    ∃ sorted, ofFields fields = object sorted ∧ (sorted.map Prod.fst).Pairwise (· < ·) ∧
      sorted ⊆ fields := by
  have hfold : ∀ rest acc : List (String × Value), (acc.map Prod.fst).Pairwise (· < ·) →
      ∃ sorted, rest.foldl (fun acc field => insertField field.1 field.2 acc) acc = sorted ∧
        (sorted.map Prod.fst).Pairwise (· < ·) ∧ sorted ⊆ acc ++ rest := by
    intro rest
    induction rest with
    | nil => exact fun acc hacc => ⟨acc, rfl, hacc, List.subset_append_left _ _⟩
    | cons field rest ih =>
      intro acc hacc
      obtain ⟨sorted, hsorted, hpairwise, hsubset⟩ :=
        ih (insertField field.1 field.2 acc) (pairwise_insertField hacc)
      refine ⟨sorted, hsorted, hpairwise, fun entry hentry => ?_⟩
      rcases List.mem_append.1 (hsubset hentry) with hentry | hentry
      · rcases mem_insertField hentry with rfl | hentry
        · exact List.mem_append_right _ List.mem_cons_self
        · exact List.mem_append_left _ hentry
      · exact List.mem_append_right _ (List.mem_cons_of_mem _ hentry)
  obtain ⟨sorted, hsorted, hpairwise, hsubset⟩ := hfold fields [] .nil
  exact ⟨sorted, congrArg object hsorted, hpairwise, hsubset⟩

theorem isNormal_ofFields (h : ∀ field ∈ fields, field.2.IsNormal) :
    (ofFields fields).IsNormal := by
  obtain ⟨sorted, hsorted, hpairwise, hsubset⟩ := exists_ofFields fields
  rw [hsorted]
  exact ⟨hpairwise, fieldsNormal_iff.2 fun field hfield => h field (hsubset hfield)⟩

end Value

/-! ## Traces -/

/-- All values bound are in normal form. -/
def Bindings.IsNormal (b : Bindings) : Prop :=
  ∀ name v, b.get? name = some v → v.IsNormal

namespace Bindings

theorem isNormal_empty : IsNormal .empty := by
  intro name v h
  cases h

theorem IsNormal.set {b : Bindings} (h : b.IsNormal) {v : Value} (hv : v.IsNormal)
    (name : String) : IsNormal (NameMap.set b name v) := by
  intro key w hw
  rw [NameMap.get?_set] at hw
  split at hw
  · cases hw
    exact hv
  · exact h key w hw

theorem IsNormal.setAll {b : Bindings} (h : b.IsNormal) {entries : List (String × Value)}
    (hentries : ∀ entry ∈ entries, entry.2.IsNormal) : IsNormal (NameMap.setAll b entries) := by
  induction entries generalizing b with
  | nil => exact h
  | cons entry rest ih =>
    obtain ⟨hentry, hrest⟩ := List.forall_mem_cons.1 hentries
    exact ih (h.set hentry entry.1) hrest

end Bindings

/-- All values that the variables of a trace have are in normal form. -/
def Trace.IsNormal (t : Trace) : Prop :=
  ∀ s ∈ t, s.bindings.IsNormal

end TraceTutor
