import TraceTutor.Bindings
import TraceTutor.Proofs.NameMap

/-!
# Properties of bound values

`Bindings.AllValues` says of all values that are bound that they have a property, and every
operation on bindings keeps it.
-/

namespace TraceTutor

/-- The property holds of all values that are bound. -/
def Bindings.AllValues (p : Value → Prop) (b : Bindings) : Prop :=
  ∀ entry ∈ b.entries, p entry.2

namespace Bindings

variable {p : Value → Prop} {b outer : Bindings}

theorem allValues_ofList {p : Value → Prop} {entries : List (String × Value)}
    (h : ∀ entry ∈ entries, p entry.2) : AllValues p (.ofList entries) :=
  fun entry hentry => h entry (NameMap.mem_of_mem_ofList hentry)

theorem allValues_empty (p : Value → Prop) : AllValues p .empty :=
  fun _ hentry => absurd hentry List.not_mem_nil

namespace AllValues

theorem of_get? {name : String} {v : Value} (h : b.AllValues p) (hv : b.get? name = some v) :
    p v :=
  h _ (NameMap.mem_of_lookup hv)

theorem set {v : Value} (h : b.AllValues p) (hv : p v) (name : String) :
    AllValues p (NameMap.set b name v) := by
  intro entry hentry
  rcases NameMap.mem_setEntry hentry with rfl | hentry
  · exact hv
  · exact h entry hentry

theorem erase (h : b.AllValues p) (name : String) : AllValues p (NameMap.erase b name) :=
  fun entry hentry => h entry (List.mem_filter.1 hentry).1

theorem eraseAll (h : b.AllValues p) (names : List String) :
    AllValues p (names.foldl NameMap.erase b) := by
  induction names generalizing b with
  | nil => exact h
  | cons name rest ih => exact ih (h.erase name)

theorem extend (h : outer.AllValues p) (hb : b.AllValues p) :
    AllValues p (NameMap.extend outer b) := by
  intro entry hentry
  rcases NameMap.mem_entries_setAll hentry with hentry | hentry
  · exact hb entry hentry
  · exact h entry hentry

end AllValues

end Bindings

end TraceTutor
