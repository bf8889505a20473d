import TraceTutor.Proofs.Value.Exact

/-!
# Equality as a congruence

The comparison of values that may be missing is an equivalence relation. That it is transitive is
shown of structural equality (`EqualUpTo.trans`): numbers are compared by their places on the line,
and two objects with the same keys as a third one have the same keys. Containers respect it: an
array or object in which a part is replaced by an equal one equals the old one
(`same_array_set`, `same_object_insertField`).
-/

namespace TraceTutor

/-! ## Numbers -/

theorem Binary64.same_iff {a b : Binary64} :
    a.same b = true ↔ ∃ x, a.rank? = some x ∧ b.rank? = some x := by
  unfold same compare?
  cases a.rank? with
  | none => simp
  | some x =>
    cases b.rank? with
    | none => simp
    | some y =>
      rw [beq_iff_eq, Option.some.injEq, compare_eq_iff_eq]
      constructor
      · rintro rfl
        exact ⟨x, rfl, rfl⟩
      · rintro ⟨z, hx, hy⟩
        cases hx
        cases hy
        rfl

theorem Number.same_trans {l m n : Number} (hlm : l.same m = true) (hmn : m.same n = true) :
    l.same n = true := by
  obtain ⟨x, hl, hm⟩ := Binary64.same_iff.1 hlm
  obtain ⟨y, hm', hn⟩ := Binary64.same_iff.1 hmn
  obtain rfl : x = y := Option.some.inj (hm.symm.trans hm')
  exact Binary64.same_iff.2 ⟨x, hl, hn⟩

namespace Value

/-! ## Transitivity -/

/-- By induction on the first equality. What the middle value holds at a place is equal to what both
others hold there. -/
theorem EqualUpTo.trans {r : Number → Number → Prop} (hr : ∀ l m n, r l m → r m n → r l n)
    {a b c : Value} (hab : EqualUpTo r a b) (hbc : EqualUpTo r b c) : EqualUpTo r a c := by
  induction hab generalizing c with
  | null => exact hbc
  | bool => exact hbc
  | string => exact hbc
  | number hlm =>
    cases hbc with
    | number hmn => exact .number (hr _ _ _ hlm hmn)
  | @array xs ys hlength _ ih =>
    cases hbc with
    | array hlength' hitems =>
      apply EqualUpTo.array (hlength.trans hlength')
      intro i x z hx hz
      obtain ⟨hi, -⟩ := List.getElem?_eq_some_iff.1 hx
      have hi : i < ys.length := hlength ▸ hi
      have hy : ys[i]? = some ys[i] := List.getElem?_eq_getElem hi
      exact ih i x _ hx hy (hitems i _ z hy hz)
  | @object xs ys hkeys _ ih =>
    cases hbc with
    | object hkeys' hfields =>
      apply EqualUpTo.object fun key => (hkeys key).trans (hkeys' key)
      intro key x z hx hz
      have hsome : (ys.lookup key).isSome = true := by
        rw [← hkeys, hx]
        rfl
      obtain ⟨y, hy⟩ := Option.isSome_iff_exists.1 hsome
      exact ih key x y hx hy (hfields key y z hy hz)

theorem same_trans {a b c : Value} (ha : a.IsNormal) (hb : b.IsNormal) (hc : c.IsNormal)
    (hab : a.same b = true) (hbc : b.same c = true) : a.same c = true := by
  apply (equalBy_iff_equalUpTo ha hc).2
  refine EqualUpTo.trans ?_ ((equalBy_iff_equalUpTo ha hb).1 hab)
    ((equalBy_iff_equalUpTo hb hc).1 hbc)
  intro l m n hlm hmn
  exact Number.same_trans hlm hmn

/-! ## Replacing a part -/

theorem same_array_iff {xs ys : List Value} (hx : (array xs).IsNormal) (hy : (array ys).IsNormal) :
    (array xs).same (array ys) = true ↔ xs.length = ys.length ∧
      ∀ (i : Nat) (x y : Value), xs[i]? = some x → ys[i]? = some y → x.same y = true := by
  refine (itemsEqualBy_iff hx hy).trans (and_congr_right fun _ => ?_)
  refine forall_congr' fun i => forall_congr' fun x => forall_congr' fun y => ?_
  refine forall_congr' fun hxs => forall_congr' fun hys => ?_
  have hxnormal : x.IsNormal := itemsNormal_iff.1 hx x (List.mem_of_getElem? hxs)
  have hynormal : y.IsNormal := itemsNormal_iff.1 hy y (List.mem_of_getElem? hys)
  exact (equalBy_iff_equalUpTo hxnormal hynormal).symm

theorem isNormal_array_set {items : List Value} {y : Value} (h : (array items).IsNormal)
    (hy : y.IsNormal) (i : Nat) : (array (items.set i y)).IsNormal := by
  apply itemsNormal_iff.2
  intro v hv
  rcases List.mem_or_eq_of_mem_set hv with hv | rfl
  · exact itemsNormal_iff.1 h v hv
  · exact hy

/-- An array in which an item is replaced by an equal one equals the old array. -/
theorem same_array_set {items : List Value} {i : Nat} {x y : Value} (h : (array items).IsNormal)
    (hy : y.IsNormal) (hx : items[i]? = some x) (hxy : x.same y = true) :
    (array items).same (array (items.set i y)) = true := by
  apply (same_array_iff h (isNormal_array_set h hy i)).2
  refine ⟨List.length_set.symm, ?_⟩
  intro j v w hv hw
  rw [List.getElem?_set] at hw
  by_cases hij : i = j
  · subst hij
    obtain rfl : x = v := Option.some.inj (hx.symm.trans hv)
    have hi : i < items.length := (List.getElem?_eq_some_iff.1 hv).1
    rw [if_pos rfl, if_pos hi] at hw
    cases hw
    exact hxy
  · rw [if_neg hij, hv] at hw
    cases hw
    exact same_refl (itemsNormal_iff.1 h v (List.mem_of_getElem? hv))

theorem lookup_insertField {α : Type} (key : String) (v : α) (fields : List (String × α))
    (name : String) : (insertField key v fields).lookup name =
      if name = key then some v else fields.lookup name := by
  induction fields with
  | nil => rw [insertField, NameMap.lookup_cons_ite]
  | cons field rest ih =>
    obtain ⟨k, w⟩ := field
    unfold insertField
    by_cases heq : key = k
    · subst heq
      rw [if_pos rfl, NameMap.lookup_cons_ite, NameMap.lookup_cons_ite]
      split <;> rfl
    rw [if_neg heq]
    by_cases hlt : key < k
    · rw [if_pos hlt, NameMap.lookup_cons_ite]
    · rw [if_neg hlt, NameMap.lookup_cons_ite, NameMap.lookup_cons_ite, ih]
      by_cases hname : name = k
      · subst hname
        rw [if_pos rfl, if_pos rfl, if_neg (Ne.symm heq)]
      · rw [if_neg hname, if_neg hname]

theorem isNormal_object_insertField {fields : List (String × Value)} {y : Value}
    (h : (object fields).IsNormal) (hy : y.IsNormal) (key : String) :
    (object (insertField key y fields)).IsNormal := by
  refine ⟨pairwise_insertField h.1, fieldsNormal_iff.2 ?_⟩
  intro field hfield
  rcases mem_insertField hfield with rfl | hfield
  · exact hy
  · exact fieldsNormal_iff.1 h.2 field hfield

/-- An object in which a field is replaced by an equal one equals the old object. -/
theorem same_object_insertField {fields : List (String × Value)} {key : String} {x y : Value}
    (h : (object fields).IsNormal) (hy : y.IsNormal) (hx : fields.lookup key = some x)
    (hxy : x.same y = true) : (object fields).same (object (insertField key y fields)) = true := by
  have hnew := isNormal_object_insertField h hy key
  apply (equalBy_object_iff (nodup_of_pairwise_lt h.1) (nodup_of_pairwise_lt hnew.1)).2
  constructor
  · intro name
    rw [lookup_insertField]
    split
    next heq => rw [heq, hx]; rfl
    next => rfl
  · intro name v w hv hw
    rw [lookup_insertField] at hw
    by_cases hname : name = key
    · subst hname
      obtain rfl : x = v := Option.some.inj (hx.symm.trans hv)
      rw [if_pos rfl] at hw
      cases hw
      exact hxy
    · rw [if_neg hname, hv] at hw
      cases hw
      exact same_refl (fieldsNormal_iff.1 h.2 _ (NameMap.mem_of_lookup hv))

end Value

/-! ## Values that may be missing -/

namespace Slot

/-- A value in normal form, or none. -/
def IsNormal (s : Slot) : Prop :=
  ∀ v, s = some v → v.IsNormal

variable {a b c : Slot}

theorem same_refl (h : a.IsNormal) : Slot.same a a = true := by
  cases a with
  | none => rfl
  | some v => exact Value.same_refl (h v rfl)

theorem same_trans (ha : a.IsNormal) (hb : b.IsNormal) (hc : c.IsNormal)
    (hab : Slot.same a b = true) (hbc : Slot.same b c = true) : Slot.same a c = true := by
  cases a with
  | none =>
    cases b with
    | none => exact hbc
    | some => cases hab
  | some u =>
    cases b with
    | none => cases hab
    | some v =>
      cases c with
      | none => cases hbc
      | some w => exact Value.same_trans (ha u rfl) (hb v rfl) (hc w rfl) hab hbc

/-- Equality of values that may be missing is an equivalence relation, and arrays and objects
respect it. -/
theorem same_congruence :
    Equivalence (fun s t : { s : Slot // s.IsNormal } => Slot.same s.1 t.1 = true) ∧
    (∀ (items : List Value) (i : Nat) (x y : Value), (Value.array items).IsNormal → y.IsNormal →
      items[i]? = some x → Slot.same x y = true →
      Slot.same (some (.array items)) (some (.array (items.set i y))) = true) ∧
    ∀ (fields : List (String × Value)) (key : String) (x y : Value),
      (Value.object fields).IsNormal → y.IsNormal → fields.lookup key = some x →
      Slot.same x y = true →
      Slot.same (some (.object fields)) (some (.object (Value.insertField key y fields))) =
        true := by
  refine ⟨⟨?_, ?_, ?_⟩, ?_, ?_⟩
  · intro s
    exact same_refl s.2
  · intro s t h
    rw [Slot.same_comm t.2 s.2]
    exact h
  · intro s t u hst htu
    exact same_trans s.2 t.2 u.2 hst htu
  · intro items i x y h hy hx hxy
    exact Value.same_array_set h hy hx hxy
  · intro fields key x y h hy hx hxy
    exact Value.same_object_insertField h hy hx hxy

/-- An integer and the double of the same value may stand for each other in containers. -/
theorem same_congruence_one :
    let whole : Value := .int 1
    let double : Value := .number (.float ⟨false, Finite64.one⟩)
    Slot.same (some (.array [.null, whole])) (some (.array [.null, double])) = true ∧
      Slot.same (some (.object [("a", .null), ("b", whole)]))
        (some (.object [("a", .null), ("b", double)])) = true := by
  intro whole double
  have hequal : Slot.same whole double = true := by decide +kernel
  have hfields : (Value.object [("a", .null), ("b", whole)]).IsNormal := by
    refine ⟨?_, trivial, trivial, trivial⟩
    show ["a", "b"].Pairwise (· < ·)
    decide
  obtain ⟨-, harray, hobject⟩ := same_congruence
  constructor
  · exact harray [.null, whole] 1 whole double ⟨trivial, trivial, trivial⟩ trivial rfl hequal
  · have hset : Value.insertField "b" double [("a", .null), ("b", whole)] =
        [("a", .null), ("b", double)] := by
      rfl
    rw [← hset]
    exact hobject _ "b" whole double hfields trivial rfl hequal

end Slot

end TraceTutor
