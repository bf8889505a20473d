import Mathlib.Order.Basic
import TraceTutor.Value.Basic

/-!
# Numbers in values

An integer is kept as one if it is a signed or an unsigned word of sixty-four bits, and a double is
a number that sixty-four bits can hold. `Value.NumbersIn` says of a value that all numbers in it
have a property.
-/

namespace TraceTutor

/-- A multiple of the distance between representable counts, below the first one that is not
finite. -/
def Finite64.IsRepresentable (x : Finite64) : Prop :=
  x.units < limit ∧ Binary64.spacing x.units ∣ x.units

namespace Number

/-- The number is an integer. -/
def IsInt : Number → Prop
  | int _ => True
  | float _ => False

/-- The number, if it is an integer, is a signed or an unsigned word. -/
def FitsWord : Number → Prop
  | int n => -wordBound ≤ n ∧ n < wordCount
  | float _ => True

/-- The number is a word or a representable double. -/
def IsMachine : Number → Prop
  | int n => -wordBound ≤ n ∧ n < wordCount
  | float x => x.IsRepresentable

end Number

namespace Value

mutual

/-- All numbers in the value have the property. -/
def NumbersIn (p : Number → Prop) : Value → Prop
  | number n => p n
  | array items => ItemNumbersIn p items
  | object fields => FieldNumbersIn p fields
  | _ => True

def ItemNumbersIn (p : Number → Prop) : List Value → Prop
  | [] => True
  | v :: items => v.NumbersIn p ∧ ItemNumbersIn p items

def FieldNumbersIn (p : Number → Prop) : List (String × Value) → Prop
  | [] => True
  | (_, v) :: fields => v.NumbersIn p ∧ FieldNumbersIn p fields

end

theorem itemNumbersIn_iff {p : Number → Prop} {items : List Value} :
    ItemNumbersIn p items ↔ ∀ v ∈ items, v.NumbersIn p := by
  induction items with
  | nil => simp [ItemNumbersIn]
  | cons v items ih => simp [ItemNumbersIn, ih]

theorem fieldNumbersIn_iff {p : Number → Prop} {fields : List (String × Value)} :
    FieldNumbersIn p fields ↔ ∀ field ∈ fields, field.2.NumbersIn p := by
  induction fields with
  | nil => simp [FieldNumbersIn]
  | cons field fields ih => simp [FieldNumbersIn, ih]

mutual

theorem NumbersIn.and {p q : Number → Prop} : ∀ {v : Value}, v.NumbersIn p → v.NumbersIn q →
    v.NumbersIn fun n => p n ∧ q n
  | .number _, hp, hq => ⟨hp, hq⟩
  | .array _, hp, hq => ItemNumbersIn.and hp hq
  | .object _, hp, hq => FieldNumbersIn.and hp hq
  | .null, _, _ | .bool _, _, _ | .string _, _, _ => trivial

theorem ItemNumbersIn.and {p q : Number → Prop} : ∀ {items : List Value}, ItemNumbersIn p items →
    ItemNumbersIn q items → ItemNumbersIn (fun n => p n ∧ q n) items
  | [], _, _ => trivial
  | _ :: _, hp, hq => ⟨hp.1.and hq.1, ItemNumbersIn.and hp.2 hq.2⟩

theorem FieldNumbersIn.and {p q : Number → Prop} : ∀ {fields : List (String × Value)},
    FieldNumbersIn p fields → FieldNumbersIn q fields → FieldNumbersIn (fun n => p n ∧ q n) fields
  | [], _, _ => trivial
  | _ :: _, hp, hq => ⟨hp.1.and hq.1, FieldNumbersIn.and hp.2 hq.2⟩

end

end Value

end TraceTutor
