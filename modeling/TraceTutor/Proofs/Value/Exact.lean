import TraceTutor.Proofs.Discrepancy
import TraceTutor.Proofs.Number.Place

/-!
# Exact equality

`Value.EqualUpTo` is structural equality for a given relation of numbers: arrays of equally many
items that are equal in turn, and objects with the same keys and equal values under each. The
comparison of values is this relation for the closest doubles of numbers (`same_iff_equalUpTo`). It
is also the relation for exact values where doubles hold all numbers that take part, or where all
numbers of one side are below the fifty-third power of two (`same_iff_exact`).
-/

namespace TraceTutor

open Finite64

namespace Value

/-! ## Structural equality -/

/-- Structural equality, for a given relation of numbers. -/
inductive EqualUpTo (r : Number → Number → Prop) : Value → Value → Prop
  | null : EqualUpTo r null null
  | bool (b : Bool) : EqualUpTo r (bool b) (bool b)
  | number {m n : Number} : r m n → EqualUpTo r (number m) (number n)
  | string (s : String) : EqualUpTo r (string s) (string s)
  | array {xs ys : List Value} : xs.length = ys.length →
      (∀ (i : Nat) (x y : Value), xs[i]? = some x → ys[i]? = some y → EqualUpTo r x y) →
      EqualUpTo r (array xs) (array ys)
  | object {xs ys : List (String × Value)} :
      (∀ key, (xs.lookup key).isSome = (ys.lookup key).isSome) →
      (∀ (key : String) (x y : Value), xs.lookup key = some x → ys.lookup key = some y →
        EqualUpTo r x y) →
      EqualUpTo r (object xs) (object ys)

/-- A relation of numbers may be exchanged for one that agrees with it on the numbers of both
sides. -/
theorem EqualUpTo.imp {r s : Number → Number → Prop} {p q : Number → Prop}
    (h : ∀ m n, p m → q n → r m n → s m n) {a b : Value} (hab : EqualUpTo r a b)
    (ha : a.NumbersIn p) (hb : b.NumbersIn q) : EqualUpTo s a b := by
  induction hab with
  | null => exact .null
  | bool b => exact .bool b
  | number hr => exact .number (h _ _ ha hb hr)
  | string s => exact .string s
  | array hlength _ ih =>
    refine .array hlength fun i x y hx hy => ih i x y hx hy ?_ ?_
    · exact itemNumbersIn_iff.1 ha x (List.mem_of_getElem? hx)
    · exact itemNumbersIn_iff.1 hb y (List.mem_of_getElem? hy)
  | object hkeys _ ih =>
    refine .object hkeys fun key x y hx hy => ih key x y hx hy ?_ ?_
    · exact fieldNumbersIn_iff.1 ha _ (NameMap.mem_of_lookup hx)
    · exact fieldNumbersIn_iff.1 hb _ (NameMap.mem_of_lookup hy)

/-! ## The comparison of values -/

section

variable {numbers : Number → Number → Bool}

/-- Objects with the same keys have equally many fields. -/
theorem length_eq_of_keys {xs ys : List (String × Value)} (hx : (xs.map Prod.fst).Nodup)
    (hy : (ys.map Prod.fst).Nodup)
    (h : ∀ key, (xs.lookup key).isSome = (ys.lookup key).isSome) : xs.length = ys.length := by
  have hmem : ∀ (fields : List (String × Value)) (key : String),
      (fields.lookup key).isSome = true ↔ key ∈ fields.map Prod.fst := by
    intro fields key
    rw [List.lookup_isSome_iff, List.mem_map]
    refine exists_congr fun field => and_congr_right fun _ => ?_
    rw [beq_iff_eq, eq_comm]
  have hperm : (xs.map Prod.fst).Perm (ys.map Prod.fst) := by
    refine (List.perm_ext_iff_of_nodup hx hy).2 fun key => ?_
    rw [← hmem, ← hmem, h]
  simpa using hperm.length_eq

theorem equalBy_object_iff {xs ys : List (String × Value)} (hx : (xs.map Prod.fst).Nodup)
    (hy : (ys.map Prod.fst).Nodup) :
    equalBy numbers (object xs) (object ys) = true ↔
      (∀ key, (xs.lookup key).isSome = (ys.lookup key).isSome) ∧
      ∀ (key : String) (x y : Value), xs.lookup key = some x → ys.lookup key = some y →
        equalBy numbers x y = true := by
  have hunfold : equalBy numbers (object xs) (object ys) =
      (xs.length == ys.length && fieldsWithinBy numbers xs ys) := by
    rw [equalBy]
  rw [hunfold, Bool.and_eq_true, beq_iff_eq]
  constructor
  · rintro ⟨hlength, hwithin⟩
    have hfields := fieldsWithinBy_iff.1 hwithin
    refine ⟨fun key => Bool.eq_iff_iff.2 ⟨fun hsome => ?_, fun hsome => ?_⟩, ?_⟩
    · obtain ⟨x, hlookup⟩ := Option.isSome_iff_exists.1 hsome
      obtain ⟨y, hlookup', -⟩ := hfields _ (NameMap.mem_of_lookup hlookup)
      exact Option.isSome_of_eq_some hlookup'
    · obtain ⟨y, hlookup⟩ := Option.isSome_iff_exists.1 hsome
      obtain ⟨x, hmem⟩ := exists_field_of_within hx hlength hwithin (NameMap.mem_of_lookup hlookup)
      exact Option.isSome_of_eq_some ((NameMap.lookup_eq_some_iff_mem hx).2 hmem)
    · intro key x y hlookup hlookup'
      obtain ⟨y', hy', hequal⟩ := hfields _ (NameMap.mem_of_lookup hlookup)
      obtain rfl : y' = y := Option.some.inj (hy'.symm.trans hlookup')
      exact hequal
  · rintro ⟨hkeys, hfields⟩
    refine ⟨length_eq_of_keys hx hy hkeys, fieldsWithinBy_iff.2 fun field hmem => ?_⟩
    obtain ⟨key, x⟩ := field
    have hlookup := (NameMap.lookup_eq_some_iff_mem hx).2 hmem
    obtain ⟨y, hlookup'⟩ := Option.isSome_iff_exists.1
      ((hkeys key).symm.trans (Option.isSome_of_eq_some hlookup))
    exact ⟨y, hlookup', hfields key x y hlookup hlookup'⟩

mutual

/-- The comparison of values in normal form is structural equality. -/
theorem equalBy_iff_equalUpTo : ∀ {a b : Value}, a.IsNormal → b.IsNormal →
    (equalBy numbers a b = true ↔ EqualUpTo (fun m n => numbers m n = true) a b)
  | null, b, _, _ => by
    cases b with
    | null => exact iff_of_true rfl .null
    | _ => exact iff_of_false Bool.false_ne_true nofun
  | bool x, b, _, _ => by
    cases b with
    | bool y =>
      unfold equalBy
      rw [beq_iff_eq]
      exact ⟨fun h => h ▸ .bool x, fun h => by cases h; rfl⟩
    | _ => exact iff_of_false Bool.false_ne_true nofun
  | number m, b, _, _ => by
    cases b with
    | number n => exact ⟨fun h => .number h, fun h => by cases h with | number h => exact h⟩
    | _ => exact iff_of_false Bool.false_ne_true nofun
  | string s, b, _, _ => by
    cases b with
    | string t =>
      unfold equalBy
      rw [beq_iff_eq]
      exact ⟨fun h => h ▸ .string s, fun h => by cases h; rfl⟩
    | _ => exact iff_of_false Bool.false_ne_true nofun
  | array xs, b, ha, hb => by
    cases b with
    | array ys =>
      refine (itemsEqualBy_iff ha hb).trans ⟨fun h => .array h.1 h.2, fun h => ?_⟩
      cases h with
      | array hlength hitems => exact ⟨hlength, hitems⟩
    | _ => exact iff_of_false Bool.false_ne_true nofun
  | object xs, b, ha, hb => by
    cases b with
    | object ys =>
      have hfield : ∀ {key x y}, xs.lookup key = some x → ys.lookup key = some y →
          (equalBy numbers x y = true ↔ EqualUpTo (fun m n => numbers m n = true) x y) := by
        intro key x y hx hy
        have hnormal := fieldsNormal_iff.1 hb.2 _ (NameMap.mem_of_lookup hy)
        exact equalBy_iff_of_mem ha.2 (NameMap.mem_of_lookup hx) hnormal
      rw [equalBy_object_iff (nodup_of_pairwise_lt ha.1) (nodup_of_pairwise_lt hb.1)]
      constructor
      · rintro ⟨hkeys, hfields⟩
        exact .object hkeys fun key x y hx hy => (hfield hx hy).1 (hfields key x y hx hy)
      · intro h
        cases h with
        | object hkeys hfields =>
          exact ⟨hkeys, fun key x y hx hy => (hfield hx hy).2 (hfields key x y hx hy)⟩
    | _ => exact iff_of_false Bool.false_ne_true nofun

theorem itemsEqualBy_iff : ∀ {xs ys : List Value}, ItemsNormal xs → ItemsNormal ys →
    (itemsEqualBy numbers xs ys = true ↔ xs.length = ys.length ∧
      ∀ (i : Nat) (x y : Value), xs[i]? = some x → ys[i]? = some y →
        EqualUpTo (fun m n => numbers m n = true) x y)
  | [], [], _, _ => by simp [itemsEqualBy]
  | [], _ :: _, _, _ => by simp [itemsEqualBy]
  | _ :: _, [], _, _ => by simp [itemsEqualBy]
  | x :: xs, y :: ys, hx, hy => by
    unfold itemsEqualBy
    rw [Bool.and_eq_true, equalBy_iff_equalUpTo hx.1 hy.1, itemsEqualBy_iff hx.2 hy.2]
    constructor
    · rintro ⟨hhead, hlength, hitems⟩
      refine ⟨congrArg Nat.succ hlength, fun i v w hv hw => ?_⟩
      cases i with
      | zero =>
        cases hv
        cases hw
        exact hhead
      | succ i => exact hitems i v w hv hw
    · rintro ⟨hlength, hitems⟩
      exact ⟨hitems 0 x y rfl rfl, Nat.succ.inj hlength, fun i => hitems (i + 1)⟩

theorem equalBy_iff_of_mem : ∀ {fields : List (String × Value)}, FieldsNormal fields →
    ∀ {key : String} {x y : Value}, (key, x) ∈ fields → y.IsNormal →
      (equalBy numbers x y = true ↔ EqualUpTo (fun m n => numbers m n = true) x y)
  | (_, v) :: fields, hfields, key, x, y, hmem, hy => by
    rcases List.mem_cons.1 hmem with heq | hmem
    · obtain rfl : v = x := (congrArg Prod.snd heq).symm
      exact equalBy_iff_equalUpTo hfields.1 hy
    · exact equalBy_iff_of_mem hfields.2 hmem hy

end

end

end Value

/-! ## Exact values -/

namespace Number

/-- The two numbers have the same closest double. -/
def SameDouble (m n : Number) : Prop :=
  rounded m.units = rounded n.units

/-- The two numbers have the same exact value. -/
def SameValue (m n : Number) : Prop :=
  m.units = n.units

/-- A double holds the number. -/
def IsDouble (n : Number) : Prop :=
  rounded n.units = n.units

/-- The number is below the fifty-third power of two in magnitude. -/
def IsSmall (n : Number) : Prop :=
  n.units.natAbs < 2 ^ 53 * one

variable {m n : Number}

theorem SameValue.sameDouble (h : SameValue m n) : SameDouble m n :=
  congrArg rounded h

theorem IsMachine.same_iff (hm : m.IsMachine) (hn : n.IsMachine) :
    m.same n = true ↔ SameDouble m n := by
  unfold same Binary64.same Binary64.compare?
  rw [hm.rank?_eq, hn.rank?_eq, beq_iff_eq, Option.some.injEq, compare_eq_iff_eq]
  rfl

theorem SameDouble.sameValue_of_isDouble (hm : m.IsDouble) (hn : n.IsDouble)
    (h : SameDouble m n) : SameValue m n :=
  hm.symm.trans (h.trans hn)

theorem SameDouble.sameValue_of_isSmall (hm : m.IsMachine) (hn : n.IsMachine)
    (hsmall : m.IsSmall ∨ n.IsSmall) (h : SameDouble m n) : SameValue m n := by
  rcases hsmall with hsmall | hsmall
  · exact eq_of_rounded_eq hm.isFine_units hn.isFine_units hsmall h
  · exact (eq_of_rounded_eq hn.isFine_units hm.isFine_units hsmall h.symm).symm

end Number

/-- A variable that both traces bind at a position is reported there precisely if the values
differ. -/
theorem reported_iff {a b : Value} {learner generated : Trace} {position : Nat}
    {p q : Snapshot} {name : String} (hp : learner[position]? = some p)
    (hq : generated[position]? = some q) (ha : p.bindings.get? name = some a)
    (hb : q.bindings.get? name = some b) :
    (∃ d ∈ discrepancies learner generated, d.step = position + 1 ∧ d.name = name) ↔
      a.same b = false := by
  obtain ⟨hlearner, rfl⟩ := List.getElem?_eq_some_iff.1 hp
  obtain ⟨hgenerated, rfl⟩ := List.getElem?_eq_some_iff.1 hq
  constructor
  · rintro ⟨d, hd, hstep, rfl⟩
    obtain ⟨position', hl, hg, hstep', hbetween⟩ := mem_discrepancies.1 hd
    obtain rfl : position' = position := by omega
    have hdiffer := hbetween.differ
    rwa [ha, hb] at hdiffer
  · intro hdiffer
    refine ⟨⟨position + 1, name, some a, some b⟩, mem_discrepancies.2 ?_, rfl, rfl⟩
    refine ⟨position, hlearner, hgenerated, rfl, ?_, ha.symm, hb.symm, ?_⟩
    · exact .inl (Option.isSome_of_eq_some ha)
    · have hslots : Slot.same (learner[position].bindings.get? name)
          (generated[position].bindings.get? name) = false := by
        rw [ha, hb]
        exact hdiffer
      exact hslots

namespace Value

variable {a b : Value}

/-- Values are compared by the closest doubles of the numbers in them. -/
theorem same_iff_equalUpTo (ha : a.IsNormal) (hb : b.IsNormal) (hma : a.NumbersIn Number.IsMachine)
    (hmb : b.NumbersIn Number.IsMachine) :
    a.same b = true ↔ EqualUpTo Number.SameDouble a b := by
  refine (equalBy_iff_equalUpTo ha hb).trans ⟨fun h => ?_, fun h => ?_⟩
  · exact h.imp (fun m n hm hn hmn => (hm.same_iff hn).1 hmn) hma hmb
  · exact h.imp (fun m n hm hn hmn => (hm.same_iff hn).2 hmn) hma hmb

theorem same_of_exact (ha : a.IsNormal) (hb : b.IsNormal) (hma : a.NumbersIn Number.IsMachine)
    (hmb : b.NumbersIn Number.IsMachine) (h : EqualUpTo Number.SameValue a b) :
    a.same b = true :=
  (same_iff_equalUpTo ha hb hma hmb).2
    (h.imp (fun _ _ _ _ hmn => Number.SameValue.sameDouble hmn) hma hmb)

/-- Equality up to rounding is exact where doubles hold all numbers of both sides, or where all
numbers of one side are small. -/
theorem EqualUpTo.exact (hma : a.NumbersIn Number.IsMachine) (hmb : b.NumbersIn Number.IsMachine)
    (hexact : a.NumbersIn Number.IsDouble ∧ b.NumbersIn Number.IsDouble ∨
      a.NumbersIn Number.IsSmall ∨ b.NumbersIn Number.IsSmall)
    (h : EqualUpTo Number.SameDouble a b) : EqualUpTo Number.SameValue a b := by
  rcases hexact with ⟨hda, hdb⟩ | hsmall | hsmall
  · exact h.imp (fun m n hm hn hmn => hmn.sameValue_of_isDouble hm hn) hda hdb
  · exact h.imp (fun m n hm hn hmn => hmn.sameValue_of_isSmall hm.1 hn (.inl hm.2))
      (hma.and hsmall) hmb
  · exact h.imp (fun m n hm hn hmn => hmn.sameValue_of_isSmall hm hn.1 (.inr hn.2))
      hma (hmb.and hsmall)

/-- Values are equal precisely if they are structurally equal up to the rounding of numbers. Values
that are exactly equal are equal, and the converse holds where doubles hold all numbers of both
values, or where all numbers of one are small. A variable with two values is reported precisely if
these are not equal up to rounding. -/
theorem same_iff_exact (ha : a.IsNormal) (hb : b.IsNormal) (hma : a.NumbersIn Number.IsMachine)
    (hmb : b.NumbersIn Number.IsMachine) :
    (a.same b = true ↔ EqualUpTo Number.SameDouble a b) ∧
    (EqualUpTo Number.SameValue a b → a.same b = true) ∧
    (a.NumbersIn Number.IsDouble ∧ b.NumbersIn Number.IsDouble ∨
        a.NumbersIn Number.IsSmall ∨ b.NumbersIn Number.IsSmall →
      (a.same b = true ↔ EqualUpTo Number.SameValue a b)) ∧
    ∀ (learner generated : Trace) (position : Nat) (p q : Snapshot) (name : String),
      learner[position]? = some p → generated[position]? = some q →
      p.bindings.get? name = some a → q.bindings.get? name = some b →
      ((∃ d ∈ discrepancies learner generated, d.step = position + 1 ∧ d.name = name) ↔
        ¬ EqualUpTo Number.SameDouble a b) := by
  have hsame := same_iff_equalUpTo ha hb hma hmb
  have hexact := same_of_exact ha hb hma hmb
  refine ⟨hsame, hexact, fun h => ⟨fun hab => (hsame.1 hab).exact hma hmb h, hexact⟩, ?_⟩
  intro learner generated position p q name hp hq hpa hqb
  rw [reported_iff hp hq hpa hqb, ← hsame, Bool.not_eq_true]

/-- The number one half as a value. -/
def oneHalf : Value :=
  .number (.float ⟨false, one / 2⟩)

/-- A trace of one snapshot that binds one variable. -/
def bindingTrace (v : Value) : Trace :=
  [⟨1, 1, .ofList [("v", v)], [], [], none, none⟩]

/-- An integer is exactly equal to the double of the same value. -/
theorem same_iff_exact_one :
    let a := array [int 1, oneHalf]
    let b := array [.number (.float ⟨false, one⟩), oneHalf]
    a.IsNormal ∧ b.IsNormal ∧ a.NumbersIn Number.IsMachine ∧ b.NumbersIn Number.IsMachine ∧
      a.NumbersIn Number.IsSmall ∧ EqualUpTo Number.SameValue a b ∧
      ¬ ∃ d ∈ discrepancies (bindingTrace a) (bindingTrace b), d.step = 1 ∧ d.name = "v" := by
  intro a b
  have hone : (Number.int 1).IsMachine := ⟨by decide, by decide⟩
  have hhalf : (Number.float ⟨false, one / 2⟩).IsMachine := by
    exact ⟨by decide +kernel, by decide +kernel⟩
  have hfloat : (Number.float ⟨false, one⟩).IsMachine := by
    exact ⟨by decide +kernel, by decide +kernel⟩
  have hsmall : (Number.int 1).IsSmall ∧ (Number.float ⟨false, one / 2⟩).IsSmall := by
    exact ⟨by unfold Number.IsSmall; decide +kernel, by unfold Number.IsSmall; decide +kernel⟩
  have ha : a.IsNormal := ⟨trivial, trivial, trivial⟩
  have hb : b.IsNormal := ⟨trivial, trivial, trivial⟩
  have hma : a.NumbersIn Number.IsMachine := ⟨hone, hhalf, trivial⟩
  have hmb : b.NumbersIn Number.IsMachine := ⟨hfloat, hhalf, trivial⟩
  have hsa : a.NumbersIn Number.IsSmall := ⟨hsmall.1, hsmall.2, trivial⟩
  obtain ⟨hsame, -, hexact, hreported⟩ := same_iff_exact ha hb hma hmb
  have hequal : a.same b = true := by decide +kernel
  refine ⟨ha, hb, hma, hmb, hsa, (hexact (.inr (.inl hsa))).1 hequal, ?_⟩
  rw [hreported _ _ 0 _ _ "v" rfl rfl rfl rfl, not_not]
  exact hsame.1 hequal

/-- An integer may be equal to its predecessor, and then no discrepancy is reported. -/
theorem same_predecessor :
    (int 9007199254740993).same (int 9007199254740992) = true ∧
    ¬ EqualUpTo Number.SameValue (int 9007199254740993) (int 9007199254740992) ∧
    discrepancies (bindingTrace (int 9007199254740993)) (bindingTrace (int 9007199254740992)) =
      [] := by
  refine ⟨by decide +kernel, fun h => ?_, List.eq_nil_of_length_eq_zero (by decide +kernel)⟩
  cases h with
  | number hunits =>
    have hne : ¬ (9007199254740993 * one : Int) = 9007199254740992 * one := by decide +kernel
    exact hne hunits

end Value

end TraceTutor
