import Mathlib.Data.List.Perm.Subperm
import TraceTutor.Proofs.NameMap
import TraceTutor.Proofs.Value.Normal

/-!
# Laws of equality

Equality of values in normal form is symmetric (`Value.equalBy_comm`), although the equality of
objects looks up the fields of one side in the other: two objects with equally many fields have the
same keys as soon as one has all keys of the other, since no key occurs twice.
-/

namespace TraceTutor

/-! ## Numbers -/

theorem Binary64.same_comm (a b : Binary64) : a.same b = b.same a := by
  unfold same compare?
  cases a.rank? with
  | none => cases b.rank? <;> rfl
  | some x =>
    cases b.rank? with
    | none => rfl
    | some y =>
      rw [Bool.eq_iff_iff, beq_iff_eq, beq_iff_eq, Option.some.injEq, Option.some.injEq,
        compare_eq_iff_eq, compare_eq_iff_eq, eq_comm]

theorem Number.same_comm (a b : Number) : a.same b = b.same a :=
  Binary64.same_comm _ _

namespace Value

variable {numbers : Number → Number → Bool}

/-! ## Objects -/

theorem fieldsWithinBy_iff {xs ys : List (String × Value)} :
    fieldsWithinBy numbers xs ys = true ↔
      ∀ field ∈ xs, ∃ y, ys.lookup field.1 = some y ∧ equalBy numbers field.2 y = true := by
  induction xs with
  | nil => simp [fieldsWithinBy]
  | cons field xs ih =>
    obtain ⟨key, x⟩ := field
    unfold fieldsWithinBy
    rw [Bool.and_eq_true, ih, List.forall_mem_cons]
    refine and_congr_left fun _ => ?_
    cases ys.lookup key with
    | none => simp
    | some y => simp

/-- Where one object has all keys of another one and no more fields, it is the other way round. -/
theorem exists_field_of_within {xs ys : List (String × Value)} (hx : (xs.map Prod.fst).Nodup)
    (hlength : xs.length = ys.length) (h : fieldsWithinBy numbers xs ys = true) {key : String}
    {y : Value} (hy : (key, y) ∈ ys) : ∃ x, (key, x) ∈ xs := by
  have hsubset : xs.map Prod.fst ⊆ ys.map Prod.fst := by
    intro name hname
    obtain ⟨field, hfield, rfl⟩ := List.mem_map.1 hname
    obtain ⟨x, hlookup, -⟩ := fieldsWithinBy_iff.1 h field hfield
    obtain ⟨before, after, rfl, -⟩ := List.lookup_eq_some_iff.1 hlookup
    exact List.mem_map.2 ⟨(field.1, x), by simp, rfl⟩
  have hperm : (xs.map Prod.fst).Perm (ys.map Prod.fst) :=
    (hx.subperm hsubset).perm_of_length_le (by simp [hlength])
  obtain ⟨⟨name, x⟩, hfield, rfl⟩ := List.mem_map.1 (hperm.mem_iff.2 (List.mem_map_of_mem hy))
  exact ⟨x, hfield⟩

/-! ## Symmetry -/

mutual

theorem equalBy_symm (h : ∀ m n, numbers m n = true → numbers n m = true) :
    ∀ {a b : Value}, a.IsNormal → b.IsNormal →
      equalBy numbers a b = true → equalBy numbers b a = true
  | null, b, _, _, hab => by
    cases b with
    | null => rfl
    | _ => cases hab
  | bool x, b, _, _, hab => by
    cases b with
    | bool y => exact beq_iff_eq.2 (beq_iff_eq.1 hab).symm
    | _ => cases hab
  | number m, b, _, _, hab => by
    cases b with
    | number n => exact h m n hab
    | _ => cases hab
  | string s, b, _, _, hab => by
    cases b with
    | string t => exact beq_iff_eq.2 (beq_iff_eq.1 hab).symm
    | _ => cases hab
  | array xs, b, ha, hb, hab => by
    cases b with
    | array ys => exact itemsEqualBy_symm h ha hb hab
    | _ => cases hab
  | object xs, b, ha, hb, hab => by
    cases b with
    | object ys =>
      unfold equalBy at hab ⊢
      obtain ⟨hlength, hwithin⟩ := Bool.and_eq_true _ _ ▸ hab
      have hlength := beq_iff_eq.1 hlength
      have hx := nodup_of_pairwise_lt ha.1
      have hy := nodup_of_pairwise_lt hb.1
      rw [Bool.and_eq_true, beq_iff_eq, fieldsWithinBy_iff]
      refine ⟨hlength.symm, fun ⟨key, y⟩ hfield => ?_⟩
      obtain ⟨x, hxs⟩ := exists_field_of_within hx hlength hwithin hfield
      refine ⟨x, (NameMap.lookup_eq_some_iff_mem hx).2 hxs, ?_⟩
      -- What the first object's field equals is the field we started from.
      obtain ⟨y', hlookup, hequal⟩ := fieldsWithinBy_iff.1 hwithin _ hxs
      rw [(NameMap.lookup_eq_some_iff_mem hy).2 hfield] at hlookup
      cases hlookup
      exact equalBy_symm_of_mem h ha.2 hxs (fieldsNormal_iff.1 hb.2 _ hfield) hequal
    | _ => cases hab

theorem itemsEqualBy_symm (h : ∀ m n, numbers m n = true → numbers n m = true) :
    ∀ {xs ys : List Value}, ItemsNormal xs → ItemsNormal ys →
      itemsEqualBy numbers xs ys = true → itemsEqualBy numbers ys xs = true
  | [], [], _, _, _ => rfl
  | [], _ :: _, _, _, hxy => by cases hxy
  | _ :: _, [], _, _, hxy => by cases hxy
  | x :: xs, y :: ys, hx, hy, hxy => by
    unfold itemsEqualBy at hxy ⊢
    rw [Bool.and_eq_true] at hxy ⊢
    exact ⟨equalBy_symm h hx.1 hy.1 hxy.1, itemsEqualBy_symm h hx.2 hy.2 hxy.2⟩

theorem equalBy_symm_of_mem (h : ∀ m n, numbers m n = true → numbers n m = true) :
    ∀ {fields : List (String × Value)}, FieldsNormal fields →
      ∀ {key : String} {x y : Value}, (key, x) ∈ fields → y.IsNormal →
        equalBy numbers x y = true → equalBy numbers y x = true
  | (_, v) :: fields, hfields, key, x, y, hmem, hy, hxy => by
    rcases List.mem_cons.1 hmem with heq | hmem
    · obtain rfl : v = x := (congrArg Prod.snd heq).symm
      exact equalBy_symm h hfields.1 hy hxy
    · exact equalBy_symm_of_mem h hfields.2 hmem hy hxy

end

/-- Equality of values in normal form is symmetric if equality of numbers is. -/
theorem equalBy_comm (h : ∀ m n, numbers m n = numbers n m) {a b : Value} (ha : a.IsNormal)
    (hb : b.IsNormal) : equalBy numbers a b = equalBy numbers b a := by
  have hsymm : ∀ m n, numbers m n = true → numbers n m = true := fun m n hmn => h m n ▸ hmn
  exact Bool.eq_iff_iff.2 ⟨equalBy_symm hsymm ha hb, equalBy_symm hsymm hb ha⟩

theorem same_comm {a b : Value} (ha : a.IsNormal) (hb : b.IsNormal) : a.same b = b.same a :=
  equalBy_comm Number.same_comm ha hb

/-! ## Reflexivity -/

mutual

theorem equalBy_refl (h : ∀ n, numbers n n = true) :
    ∀ {v : Value}, v.IsNormal → equalBy numbers v v = true
  | null, _ => rfl
  | bool _, _ => beq_self_eq_true _
  | number n, _ => h n
  | string _, _ => beq_self_eq_true _
  | array _, hv => itemsEqualBy_refl h hv
  | object fields, hv => by
    have hnodup := nodup_of_pairwise_lt hv.1
    unfold equalBy
    rw [Bool.and_eq_true, beq_iff_eq, fieldsWithinBy_iff]
    refine ⟨rfl, fun field hfield => ⟨field.2, ?_, equalBy_refl_of_mem h hv.2 hfield⟩⟩
    exact (NameMap.lookup_eq_some_iff_mem hnodup).2 hfield

theorem itemsEqualBy_refl (h : ∀ n, numbers n n = true) :
    ∀ {items : List Value}, ItemsNormal items → itemsEqualBy numbers items items = true
  | [], _ => rfl
  | v :: items, hitems => by
    unfold itemsEqualBy
    rw [equalBy_refl h hitems.1, itemsEqualBy_refl h hitems.2]
    rfl

theorem equalBy_refl_of_mem (h : ∀ n, numbers n n = true) :
    ∀ {fields : List (String × Value)}, FieldsNormal fields →
      ∀ {field : String × Value}, field ∈ fields → equalBy numbers field.2 field.2 = true
  | (_, v) :: fields, hfields, field, hmem => by
    rcases List.mem_cons.1 hmem with rfl | hmem
    · exact equalBy_refl h hfields.1
    · exact equalBy_refl_of_mem h hfields.2 hmem

end

end Value

/-- No number that a value holds is `nan`. -/
theorem Number.same_refl (n : Number) : n.same n = true := by
  have hrank : ∃ rank, n.toBinary64.rank? = some rank := by
    cases n with
    | int n =>
      unfold toBinary64 Binary64.ofInt Binary64.ofRatio
      dsimp only
      split
      · exact ⟨_, rfl⟩
      · exact ⟨_, rfl⟩
    | float x => exact ⟨_, rfl⟩
  obtain ⟨rank, hrank⟩ := hrank
  unfold same Binary64.same Binary64.compare?
  rw [hrank]
  simp

theorem Value.same_refl {v : Value} (h : v.IsNormal) : v.same v = true :=
  equalBy_refl Number.same_refl h

/-- A missing value is equal to a missing one alone, from either side. -/
theorem Slot.same_comm {p a : Slot} (hp : ∀ v, p = some v → v.IsNormal)
    (ha : ∀ v, a = some v → v.IsNormal) : Slot.same p a = Slot.same a p := by
  cases p with
  | none => cases a <;> rfl
  | some v =>
    cases a with
    | none => rfl
    | some w => exact Value.same_comm (hp v rfl) (ha w rfl)

end TraceTutor
