import TraceTutor.Bindings
import TraceTutor.Script.Program

/-!
# Scopes

The variables of one call, or the global ones. A declared name is bound to a value or is unset,
which is how it holds `undefined`; it is never both. Some names are constant.
-/

namespace TraceTutor

/-- The variables of one call, or the global ones. -/
structure Scope where
  locals : Bindings
  /-- The names that may not be assigned. -/
  consts : List String
  /-- The declared names that hold `undefined`. -/
  unset : List String
deriving Repr

namespace Scope

def empty : Scope := ⟨.empty, [], []⟩

instance : Inhabited Scope := ⟨empty⟩

def declares (s : Scope) (name : String) : Bool :=
  s.locals.contains name || s.unset.contains name

/-- A list of names without one of them. -/
def without (name : String) (names : List String) : List String :=
  names.filter (· ≠ name)

/-- Binds a name to a value, or unsets it. -/
def store (s : Scope) (name : String) : Slot → Scope
  | some v => { s with locals := s.locals.set name v, unset := without name s.unset }
  | none => { s with locals := s.locals.erase name, unset := name :: without name s.unset }

/-- Declares a name, anew if it was declared before. -/
def declare (s : Scope) (kind : DeclarationKind) (name : String) (initial : Slot) : Scope :=
  let s := s.store name initial
  { s with consts := if kind = .constKind then name :: without name s.consts
                     else without name s.consts }

/-- The scope of a call: parameters are bound to arguments, and a parameter without one is unset. -/
def ofCall : List String → List Slot → Scope
  | params, args => go .empty params args
where
  go (s : Scope) : List String → List Slot → Scope
    | [], _ => s
    | p :: ps, args => go (s.store p args.head?.join) ps args.tail

/-- What shows of an outer scope's bindings under this one: its own bindings lie over them, and its
unset names hide them. -/
def overlay (s : Scope) (outer : Bindings) : Bindings :=
  (s.unset.foldl NameMap.erase outer).extend s.locals

end Scope

end TraceTutor
