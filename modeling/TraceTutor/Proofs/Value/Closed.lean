import TraceTutor.Proofs.Except
import TraceTutor.Proofs.NameMap
import TraceTutor.Script.Access
import TraceTutor.Script.Builtin

/-!
# Properties that operators keep

Values are made in few ways: numbers by `Value.ofBinary64` and as signed words, containers of values
that are there already. A property that holds of all that is made so (`Value.IsClosed`) holds of
every result of an operator or a built-in function, whatever the operands, and of every part of a
value that has it.
-/

namespace TraceTutor

/-- The property holds of all values that are made without parts, and passes between containers and
their parts. -/
structure Value.IsClosed (P : Value → Prop) : Prop where
  null : P .null
  bool (b : Bool) : P (.bool b)
  int {n : Int} : isWord n = true → P (.int n)
  ofBinary64 (x : Binary64) : P (.ofBinary64 x)
  string (s : String) : P (.string s)
  array_iff {items : List Value} : P (.array items) ↔ ∀ v ∈ items, P v
  ofFields {fields : List (String × Value)} : (∀ field ∈ fields, P field.2) → P (.ofFields fields)
  of_object {fields : List (String × Value)} : P (.object fields) → ∀ field ∈ fields, P field.2

/-- The property holds of the value, if there is one. -/
def Slot.Holds (P : Value → Prop) (slot : Slot) : Prop :=
  ∀ v ∈ slot, P v

namespace Slot

variable {P : Value → Prop} {v : Value}

theorem holds_none : Holds P none :=
  nofun

theorem holds_some : Holds P (some v) ↔ P v := by
  simp [Holds]

end Slot

theorem isWord_bmod (n : Int) : isWord (n.bmod wordCount) = true := by
  have hlower : -((wordCount : Int) / 2) ≤ n.bmod wordCount := Int.le_bmod (by decide)
  have hupper : n.bmod wordCount < ((wordCount : Int) + 1) / 2 := Int.bmod_lt (by decide)
  unfold isWord
  rw [Bool.and_eq_true, decide_eq_true_eq, decide_eq_true_eq]
  unfold wordBound
  unfold wordCount at *
  omega

namespace Value.IsClosed

variable {P : Value → Prop} (h : IsClosed P)

include h

theorem orNull {slot : Slot} (hslot : slot.Holds P) : P slot.orNull := by
  cases slot with
  | none => exact h.null
  | some v => exact hslot v rfl

theorem map_orNull {slots : List Slot} (hslots : ∀ slot ∈ slots, slot.Holds P) :
    ∀ v ∈ slots.map Slot.orNull, P v := by
  intro v hv
  obtain ⟨slot, hslot, rfl⟩ := List.mem_map.1 hv
  exact h.orNull (hslots slot hslot)

/-! ## Operators -/

theorem arithmetic (op : BinaryOp) (left right : Value) : P (Value.arithmetic op left right) := by
  unfold Value.arithmetic
  dsimp only
  split
  next n hn =>
    obtain ⟨a, -, hn⟩ := Option.bind_eq_some_iff.1 hn
    obtain ⟨b, -, hn⟩ := Option.bind_eq_some_iff.1 hn
    obtain ⟨m, -, hn⟩ := Option.bind_eq_some_iff.1 hn
    split at hn
    next hword =>
      cases hn
      exact h.int hword
    next => cases hn
  next => exact h.ofBinary64 _

theorem add (left right : Value) : P (left.add right) := by
  unfold Value.add
  split
  · exact h.string _
  · exact h.arithmetic _ _ _

/-- The operands need not have the property. -/
theorem binary {op : BinaryOp} {left right v : Value} (hv : op.apply? left right = some v) :
    P v := by
  cases op <;> cases hv
  case add => exact h.add left right
  case sub | mul | mod => exact h.arithmetic _ left right
  case div => exact h.ofBinary64 _
  all_goals exact h.bool _

theorem combine {op : BinaryOp} {left right : Slot} {v : Value}
    (hv : op.combine left right = .ok v) : P v := by
  unfold BinaryOp.combine at hv
  split at hv
  · cases hv
    exact h.string _
  · cases hv
    exact h.string _
  · split at hv
    next w hw =>
      cases hv
      exact h.binary hw
    next => cases hv

theorem unary (op : UnaryOp) (operand : Value) : P (op.apply operand) := by
  unfold UnaryOp.apply
  split
  · exact h.bool _
  · exact h.ofBinary64 _
  · split
    · split
      next hword => exact h.int (Bool.and_eq_true_iff.1 hword).2
      next => exact h.ofBinary64 _
    · exact h.ofBinary64 _

/-! ## Built-in functions -/

theorem mathCall {name : String} {args : List Value} {v : Value}
    (hv : mathCall? name args = some v) : P v := by
  obtain ⟨x, -, rfl⟩ := Option.map_eq_some_iff.1 hv
  exact h.ofBinary64 x

omit h in
/-- An exact product is a word. -/
theorem isWord_timesUpTo {last : Int} {fuel k : Nat} {p : Product}
    (hp : ∀ n, p = .exact n → isWord n = true) :
    ∀ n, p.timesUpTo last fuel k = .exact n → isWord n = true := by
  induction fuel generalizing k p with
  | zero => exact hp
  | succ fuel ih =>
    unfold Product.timesUpTo
    split
    · exact hp
    · refine ih fun n hn => ?_
      unfold Product.times at hn
      split at hn
      · split at hn
        next hword =>
          cases hn
          exact hword
        next => cases hn
      · cases hn

theorem factorial (n : Int) : P (TraceTutor.factorial n) := by
  unfold TraceTutor.factorial Product.toValue
  split
  next m hm =>
    refine h.int (isWord_timesUpTo (fun k hk => ?_) m hm)
    cases hk
    decide
  next x _ => exact h.ofBinary64 x

/-! ## Parts of values -/

theorem ofCount (n : Nat) : P (.ofCount n) :=
  h.int (isWord_bmod n)

theorem length {v length : Value} (hlength : v.length? = some length) : P length := by
  cases v <;> cases hlength
  case string | array => exact h.ofCount _

theorem push {target array length : Value} {items : List Value} (htarget : P target)
    (hitems : ∀ v ∈ items, P v) (hpush : target.push? items = some (array, length)) :
    P array ∧ P length := by
  cases target <;> cases hpush
  case array old =>
    refine ⟨h.array_iff.2 fun v hv => ?_, h.ofCount _⟩
    rcases List.mem_append.1 hv with hv | hv
    · exact h.array_iff.1 htarget v hv
    · exact hitems v hv

theorem field {fields : List (String × Value)} (hfields : P (.object fields)) (name : String) :
    P (Value.field fields name) := by
  unfold Value.field
  cases hlookup : fields.lookup name with
  | none => exact h.null
  | some v => exact h.of_object hfields _ (NameMap.mem_of_lookup hlookup)

theorem property {target v : Value} {name : String} (htarget : P target)
    (hv : target.property name = .ok v) : P v := by
  unfold Value.property at hv
  split at hv
  next length hlength =>
    cases hv
    split at hlength
    · exact h.length hlength
    · cases hlength
  next fields =>
    cases hv
    exact h.field htarget name
  next => cases hv
  next =>
    cases hv
    exact h.null

theorem item {target index v : Value} (htarget : P target) (hv : target.item index = .ok v) :
    P v := by
  unfold Value.item at hv
  split at hv
  next items =>
    cases hv
    cases hitem : index.asIndex?.bind (items[·]?) with
    | none => exact h.null
    | some w =>
      obtain ⟨i, -, hw⟩ := Option.bind_eq_some_iff.1 hitem
      exact h.array_iff.1 htarget w (List.mem_of_getElem? hw)
  next s =>
    cases hv
    cases index.asIndex?.bind (s.toList[·]?) with
    | none => exact h.null
    | some c => exact h.string _
  next fields =>
    cases hv
    exact h.field htarget _
  next => cases hv
  next =>
    cases hv
    exact h.null

end Value.IsClosed

end TraceTutor
