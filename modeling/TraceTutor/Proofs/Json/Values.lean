import Mathlib.Data.List.Forall2
import Mathlib.Data.List.Perm.Basic
import TraceTutor.Proofs.Json.Reading
import TraceTutor.Proofs.Value.Normal
import TraceTutor.Proofs.Value.Numbers

/-!
# Values as documents

A value in normal form is what its document denotes (`toValue?_ofValue`). A document without doubles
is left as it is by writing and reading (`reread_eq_self`). Where an object is turned into a value,
its fields are sorted, which is a permutation as long as no key occurs twice
(`exists_perm_ofFields`).
-/

namespace TraceTutor

/-! ## Making objects -/

namespace Value

variable {key : String} {v : Value} {fields : List (String × Value)}

theorem perm_insertField (h : key ∉ fields.map Prod.fst) :
    (insertField key v fields).Perm ((key, v) :: fields) := by
  induction fields with
  | nil => exact .refl _
  | cons entry rest ih =>
    obtain ⟨k, w⟩ := entry
    obtain ⟨hne, hrest⟩ := not_or.1 (mt List.mem_cons.2 h)
    unfold insertField
    rw [if_neg hne]
    split
    · exact .refl _
    · exact ((ih hrest).cons (k, w)).trans (.swap ..)

/-- The fields of an object are the given ones, sorted. -/
theorem exists_perm_ofFields (h : (fields.map Prod.fst).Nodup) :
    ∃ sorted, ofFields fields = .object sorted ∧ sorted.Perm fields := by
  have hfold : ∀ (rest acc : List (String × Value)), ((rest ++ acc).map Prod.fst).Nodup →
      (rest.foldl (fun acc field => insertField field.1 field.2 acc) acc).Perm (rest ++ acc) := by
    intro rest
    induction rest with
    | nil => exact fun acc _ => .refl acc
    | cons field rest ih =>
      intro acc hnodup
      have hfresh : field.1 ∉ acc.map Prod.fst := by
        rw [List.cons_append, List.map_cons, List.nodup_cons, List.map_append] at hnodup
        exact fun hmem => hnodup.1 (List.mem_append_right _ hmem)
      have hperm : (rest ++ insertField field.1 field.2 acc).Perm (field :: rest ++ acc) :=
        ((perm_insertField hfresh).append_left rest).trans List.perm_middle
      exact (ih _ ((hperm.map Prod.fst).nodup_iff.2 hnodup)).trans hperm
  have hperm := hfold fields [] (by rwa [List.append_nil])
  rw [List.append_nil] at hperm
  exact ⟨_, rfl, hperm⟩

theorem mem_of_ofFields {sorted : List (String × Value)} (h : ofFields fields = .object sorted)
    {field : String × Value} (hfield : field ∈ sorted) : field ∈ fields := by
  have hfold : ∀ (rest acc : List (String × Value)),
      field ∈ rest.foldl (fun acc field => insertField field.1 field.2 acc) acc →
      field ∈ rest ∨ field ∈ acc := by
    intro rest
    induction rest with
    | nil => exact fun acc => .inr
    | cons entry rest ih =>
      intro acc hmem
      rcases ih _ hmem with hmem | hmem
      · exact .inl (List.mem_cons_of_mem _ hmem)
      · rcases mem_insertField hmem with rfl | hmem
        · exact .inl List.mem_cons_self
        · exact .inr hmem
  cases h
  exact (hfold fields [] hfield).resolve_right List.not_mem_nil

theorem insertField_of_forall_lt (h : ∀ k ∈ fields.map Prod.fst, k < key) :
    insertField key v fields = fields ++ [(key, v)] := by
  induction fields with
  | nil => rfl
  | cons entry rest ih =>
    obtain ⟨k, w⟩ := entry
    obtain ⟨hk, hrest⟩ := List.forall_mem_cons.1 h
    unfold insertField
    rw [if_neg (ne_of_gt hk), if_neg (lt_asymm hk), ih hrest, List.cons_append]

/-- Fields that are sorted stay as they are. -/
theorem ofFields_of_pairwise (h : (fields.map Prod.fst).Pairwise (· < ·)) :
    ofFields fields = .object fields := by
  have hfold : ∀ (rest acc : List (String × Value)), ((acc ++ rest).map Prod.fst).Pairwise (· < ·) →
      rest.foldl (fun acc field => insertField field.1 field.2 acc) acc = acc ++ rest := by
    intro rest
    induction rest with
    | nil => exact fun acc _ => (List.append_nil acc).symm
    | cons field rest ih =>
      intro acc hsorted
      have hless : ∀ k ∈ acc.map Prod.fst, k < field.1 := by
        rw [List.map_append, List.pairwise_append] at hsorted
        exact fun k hk => hsorted.2.2 k hk field.1 List.mem_cons_self
      have hassoc : acc ++ field :: rest = acc ++ [field] ++ rest := by
        rw [List.append_assoc, List.singleton_append]
      rw [List.foldl_cons, insertField_of_forall_lt hless, ih _ (hassoc ▸ hsorted), ← hassoc]
  exact congrArg Value.object (hfold fields [] h)

end Value

namespace Document

open Value

/-! ## Values and their documents -/

theorem map_fst_of_toValueFields? : ∀ {fields : List (String × Document)}
    {values : List (String × Value)}, toValueFields? fields = some values →
    values.map Prod.fst = fields.map Prod.fst
  | [], _, h => by
    cases h
    rfl
  | (key, d) :: fields, _, h => by
    unfold toValueFields? at h
    split at h
    next v values hv hvalues =>
      cases h
      rw [List.map_cons, List.map_cons, map_fst_of_toValueFields? hvalues]
    next => cases h

mutual

theorem toValue?_ofValue : ∀ {v : Value}, v.IsNormal → (ofValue v).toValue? = some v
  | .null, _ | .bool _, _ | .number _, _ | .string _, _ => rfl
  | .array items, h => by
    unfold ofValue toValue?
    rw [toValues?_ofValues h, Option.map_some]
  | .object fields, h => by
    unfold ofValue toValue?
    rw [toValueFields?_ofValueFields h.2, Option.map_some, ofFields_of_pairwise h.1]

theorem toValues?_ofValues : ∀ {items : List Value}, ItemsNormal items →
    toValues? (ofValues items) = some items
  | [], _ => rfl
  | v :: items, h => by
    unfold ofValues toValues?
    rw [toValue?_ofValue h.1, toValues?_ofValues h.2]

theorem toValueFields?_ofValueFields : ∀ {fields : List (String × Value)}, FieldsNormal fields →
    toValueFields? (ofValueFields fields) = some fields
  | [], _ => rfl
  | (key, v) :: fields, h => by
    unfold ofValueFields toValueFields?
    rw [toValue?_ofValue h.1, toValueFields?_ofValueFields h.2]

end

theorem ofValueFields_eq_map : ∀ fields : List (String × Value),
    ofValueFields fields = fields.map fun field => (field.1, ofValue field.2)
  | [] => rfl
  | (key, v) :: fields => by rw [ofValueFields, ofValueFields_eq_map fields, List.map_cons]

theorem ofValues_eq_map : ∀ items : List Value, ofValues items = items.map ofValue
  | [] => rfl
  | v :: items => by rw [ofValues, ofValues_eq_map items, List.map_cons]

/-! ## What is readable -/

mutual

/-- The property holds of every part of the document that is neither an array nor an object. -/
def EveryLeaf (p : Document → Prop) : Document → Prop
  | array items => EveryItemLeaf p items
  | object fields => EveryFieldLeaf p fields
  | d => p d

def EveryItemLeaf (p : Document → Prop) : List Document → Prop
  | [] => True
  | item :: items => item.EveryLeaf p ∧ EveryItemLeaf p items

def EveryFieldLeaf (p : Document → Prop) : List (String × Document) → Prop
  | [] => True
  | (_, item) :: fields => item.EveryLeaf p ∧ EveryFieldLeaf p fields

end

theorem everyItemLeaf_iff {p : Document → Prop} {items : List Document} :
    EveryItemLeaf p items ↔ ∀ item ∈ items, item.EveryLeaf p := by
  induction items with
  | nil => simp [EveryItemLeaf]
  | cons item items ih => simp [EveryItemLeaf, ih]

theorem everyFieldLeaf_iff {p : Document → Prop} {fields : List (String × Document)} :
    EveryFieldLeaf p fields ↔ ∀ field ∈ fields, field.2.EveryLeaf p := by
  induction fields with
  | nil => simp [EveryFieldLeaf]
  | cons field fields ih => simp [EveryFieldLeaf, ih]

/-- If the document is a number, it has the property. -/
def IfNumber (p : Number → Prop) : Document → Prop
  | number n => p n
  | _ => True

/-- The document denotes something, and if it is a number, it has the property. -/
def IsReadable (p : Number → Prop) : Document → Prop
  | number n => p n
  | unreadable => False
  | _ => True

mutual

theorem everyLeaf_ofValue {p : Number → Prop} : ∀ {v : Value}, v.NumbersIn p →
    (ofValue v).EveryLeaf (IsReadable p)
  | .number _, h => h
  | .array _, h => everyItemLeaf_ofValues h
  | .object _, h => everyFieldLeaf_ofValueFields h
  | .null, _ | .bool _, _ | .string _, _ => trivial

theorem everyItemLeaf_ofValues {p : Number → Prop} : ∀ {items : List Value},
    ItemNumbersIn p items → EveryItemLeaf (IsReadable p) (ofValues items)
  | [], _ => trivial
  | _ :: _, h => ⟨everyLeaf_ofValue h.1, everyItemLeaf_ofValues h.2⟩

theorem everyFieldLeaf_ofValueFields {p : Number → Prop} : ∀ {fields : List (String × Value)},
    FieldNumbersIn p fields → EveryFieldLeaf (IsReadable p) (ofValueFields fields)
  | [], _ => trivial
  | _ :: _, h => ⟨everyLeaf_ofValue h.1, everyFieldLeaf_ofValueFields h.2⟩

end

/-! ## Writing and reading -/

theorem rereadNumber_int {n : Int} (hlow : -wordBound ≤ n) (hhigh : n < wordCount) :
    rereadNumber (.int n) = number (.int n) := by
  have hread := readNumeral?_text (Numeral.isWellFormed_ofInt n) endsNumeral_nil
  rw [List.append_nil, Numeral.text_ofInt] at hread
  unfold rereadNumber writeNumber
  rw [hread]
  exact Numeral.toDocument_ofInt hlow hhigh

theorem rereadNumber_of_isInt {n : Number} (hfits : n.FitsWord) (hint : n.IsInt) :
    rereadNumber n = number n := by
  cases n with
  | int n => exact rereadNumber_int hfits.1 hfits.2
  | float x => exact absurd hint id

mutual

/-- A document whose numbers are integers is not changed by writing and reading. -/
theorem reread_eq_self : ∀ {d : Document},
    d.EveryLeaf (IsReadable fun n => n.FitsWord ∧ n.IsInt) → d.reread = d
  | number _, h => rereadNumber_of_isInt h.1 h.2
  | array _, h => congrArg array (rereadItems_eq_self h)
  | object _, h => congrArg object (rereadFields_eq_self h)
  | null, _ | bool _, _ | string _, _ => rfl

theorem rereadItems_eq_self : ∀ {items : List Document},
    EveryItemLeaf (IsReadable fun n => n.FitsWord ∧ n.IsInt) items → rereadItems items = items
  | [], _ => rfl
  | item :: items, h => by rw [rereadItems, reread_eq_self h.1, rereadItems_eq_self h.2]

theorem rereadFields_eq_self : ∀ {fields : List (String × Document)},
    EveryFieldLeaf (IsReadable fun n => n.FitsWord ∧ n.IsInt) fields → rereadFields fields = fields
  | [], _ => rfl
  | (key, item) :: fields, h => by rw [rereadFields, reread_eq_self h.1, rereadFields_eq_self h.2]

end

end Document

end TraceTutor
