import TraceTutor.Proofs.Except
import TraceTutor.Proofs.Script.Congruence
import TraceTutor.Proofs.Trace.Recording

/-!
# Invariants of the machine

A property of the machine that every single change keeps is an invariant of all actions of the
evaluator (`IsInvariant.isCongruence`), and so of whole runs. That a recorder only grows is one
(`isInvariant_grows`).
-/

namespace TraceTutor

/-! ## Sequences of actions -/

namespace Exec

variable {α β : Type} {a : Exec α} {f : α → Exec β} {m m' : Machine} {visits : Nat}

theorem bind_of_ok {x : α} (h : a m = ⟨.ok x, m', visits⟩) :
    (a >>= f) m = ⟨(f x m').result, (f x m').machine, visits + (f x m').visits⟩ := by
  change Exec.bind a f m = _
  rw [Exec.bind, h]

theorem bind_of_error {i : Interrupt} (h : a m = ⟨.error i, m', visits⟩) :
    (a >>= f) m = ⟨.error i, m', visits⟩ := by
  change Exec.bind a f m = _
  rw [Exec.bind, h]

/-- A function of what an action yields changes nothing else. -/
theorem bind_pure_eq (a : Exec α) (f : α → β) (m : Machine) :
    (do return f (← a) : Exec β) m = ⟨(a m).result.map f, (a m).machine, (a m).visits⟩ := by
  cases h : a m with
  | mk result m' visits =>
    cases result with
    | ok x => rw [bind_of_ok h]; rfl
    | error i => rw [bind_of_error h]; rfl

theorem tick_of_lt {budget : Nat} (h : m.steps < budget) :
    Exec.tick budget m = ⟨.ok (), { m with steps := m.steps + 1 }, 0⟩ :=
  if_neg (Nat.not_lt.2 h)

theorem tick_of_le {budget : Nat} (h : budget ≤ m.steps) :
    Exec.tick budget m = ⟨.error .budget, { m with steps := m.steps + 1 }, 0⟩ :=
  if_pos (Nat.lt_succ_of_le h)

end Exec

/-! ## What changes of variables leave alone -/

namespace Machine

variable {m m' : Machine}

@[simp] theorem recorder_updateScopeOf (m : Machine) (name : String) (change : Scope → Scope) :
    (m.updateScopeOf name change).recorder = m.recorder := by
  unfold updateScopeOf
  split
  · rfl
  · split <;> rfl

@[simp] theorem procedures_updateScopeOf (m : Machine) (name : String) (change : Scope → Scope) :
    (m.updateScopeOf name change).procedures = m.procedures := by
  unfold updateScopeOf
  split
  · rfl
  · split <;> rfl

@[simp] theorem recorder_declare (m : Machine) (kind : DeclarationKind) (name : String)
    (initial : Slot) : (m.declare kind name initial).recorder = m.recorder := by
  unfold declare
  split <;> rfl

@[simp] theorem procedures_declare (m : Machine) (kind : DeclarationKind) (name : String)
    (initial : Slot) : (m.declare kind name initial).procedures = m.procedures := by
  unfold declare
  split <;> rfl

/-- An assignment changes one scope. -/
theorem exists_of_assign {name : String} {v : Slot} (h : m.assign name v = .ok m') :
    ∃ change, m' = m.updateScopeOf name change := by
  unfold assign at h
  split at h
  · cases h
  · cases h
    exact ⟨_, rfl⟩

theorem exists_of_push {name : String} {items : List Value} {length : Value}
    (h : m.push name items = .ok (length, m')) : ∃ change, m' = m.updateScopeOf name change := by
  unfold push at h
  split at h
  · cases h
  · split at h
    · cases h
    · cases h
      exact ⟨_, rfl⟩

theorem exists_of_map_assign {name : String} {v : Slot} {x : Unit}
    (h : (m.assign name v).map ((), ·) = .ok (x, m')) :
    ∃ change, m' = m.updateScopeOf name change := by
  obtain ⟨_, hassign, heq⟩ := except_map_eq_ok_iff.1 h
  cases heq
  exact exists_of_assign hassign

theorem exists_of_map_push {name : String} {items : List Value} {x : Slot}
    (h : ((m.push name items).map fun pushed => (some pushed.1, pushed.2)) = .ok (x, m')) :
    ∃ change, m' = m.updateScopeOf name change := by
  obtain ⟨_, hpush, heq⟩ := except_map_eq_ok_iff.1 h
  cases heq
  exact exists_of_push hpush

/-- What holds of a machine and is kept by the definition of a function holds after the functions of
a body were defined. -/
theorem hoist_induction {motive : Machine → Prop} (body : List Stmt) (h : motive m)
    (hdefine : ∀ m name p, motive m → motive (m.define name p)) : motive (m.hoist body) := by
  induction body generalizing m with
  | nil => exact h
  | cons s rest ih =>
    cases s with
    | function l name params body => exact ih (hdefine m name ⟨params, body⟩ h)
    | _ => exact ih h

/-- A change of machines that leaves alone how functions are defined may as well be made after the
functions of a body were defined. -/
theorem hoist_comm (change : Machine → Machine)
    (hdefine : ∀ m name p, (change m).define name p = change (m.define name p)) (m : Machine)
    (body : List Stmt) : (change m).hoist body = change (m.hoist body) := by
  induction body generalizing m with
  | nil => rfl
  | cons s rest ih =>
    cases s with
    | function l name params body =>
      show ((change m).define name ⟨params, body⟩).hoist rest = _
      rw [hdefine]
      exact ih (m.define name ⟨params, body⟩)
    | _ => exact ih m

@[simp] theorem recorder_hoist (m : Machine) (body : List Stmt) :
    (m.hoist body).recorder = m.recorder :=
  hoist_induction (motive := fun m' => m'.recorder = m.recorder) body rfl fun _ _ _ h => h

@[simp] theorem scopes_hoist (m : Machine) (body : List Stmt) :
    (m.hoist body).scopes = m.scopes :=
  hoist_induction (motive := fun m' => m'.scopes = m.scopes) body rfl fun _ _ _ h => h

@[simp] theorem globals_hoist (m : Machine) (body : List Stmt) :
    (m.hoist body).globals = m.globals :=
  hoist_induction (motive := fun m' => m'.globals = m.globals) body rfl fun _ _ _ h => h

end Machine

/-! ## Functions that are found -/

namespace Script

variable {m : Machine} {line : Nat} {name : String}

theorem find_of_get? {p : Procedure} (h : m.procedures.get? name = some p) :
    find line name m = ⟨.ok p, m, 0⟩ := by
  simp [find, Exec.update, findProcedure, h, Except.map]

theorem find_of_none (h : m.procedures.get? name = none) :
    ∃ cause, find line name m = ⟨.error (.fault (.runtime cause line)), m, 0⟩ := by
  simp [find, Exec.update, findProcedure, h, Except.map]

end Script

/-! ## Invariants -/

namespace Exec

variable {α β : Type} {Inv : Machine → Prop}

/-- Whatever holds before an action holds after it, however it ends. -/
def Preserves (Inv : Machine → Prop) (a : Exec α) : Prop :=
  ∀ m, Inv m → Inv (a m).machine

namespace Preserves

/-- What holds after the first action holds after both, if the second one preserves it. -/
theorem machine_bind (Inv : Machine → Prop) {a : Exec α} {f : α → Exec β} {m : Machine}
    (hm : Inv (a m).machine) (hf : ∀ x, (f x).Preserves Inv) : Inv ((a >>= f) m).machine := by
  cases h : a m with
  | mk result m' visits =>
    rw [h] at hm
    cases result with
    | ok x =>
      rw [bind_of_ok h]
      exact hf x m' hm
    | error i =>
      rw [bind_of_error h]
      exact hm

theorem bind {a : Exec α} {f : α → Exec β} (ha : a.Preserves Inv) (hf : ∀ x, (f x).Preserves Inv) :
    (a >>= f).Preserves Inv :=
  fun m hm => machine_bind Inv (ha m hm) hf

theorem update {line : Nat} {change : Machine → Except RuntimeCause (α × Machine)}
    (h : ∀ m x m', change m = .ok (x, m') → Inv m → Inv m') :
    (Exec.update line change).Preserves Inv := by
  intro m hm
  unfold Exec.update
  split
  next x m' hchange => exact h m x m' hchange hm
  next => exact hm

theorem ofExcept (line : Nat) (x : Except RuntimeCause α) :
    (Exec.ofExcept line x).Preserves Inv := by
  intro m hm
  cases x <;> exact hm

theorem within {a : Exec α} {enter : Machine → Machine} {leave : Machine → Machine → Machine}
    (ha : a.Preserves Inv) (henter : ∀ m, Inv m → Inv (enter m))
    (hleave : ∀ m m', Inv m' → Inv (leave m m')) : (Exec.within enter leave a).Preserves Inv :=
  fun m hm => hleave m _ (ha _ (henter m hm))

end Preserves

end Exec

namespace Script

open Exec

/-- A property of the machine that every change keeps. It may tell that the functions of the program
stand at certain lines. -/
structure IsInvariant (Inv : Machine → Prop) (Fits : Nat → Prop) : Prop where
  step {m : Machine} : Inv m → Inv { m with steps := m.steps + 1 }
  loopDepth {m : Machine} (n : Nat) : Inv m → Inv { m with loopDepth := n }
  declare {m : Machine} (kind : DeclarationKind) (name : String) (v : Slot) :
    Inv m → Inv (m.declare kind name v)
  assign {m m' : Machine} {name : String} {v : Slot} : m.assign name v = .ok m' → Inv m → Inv m'
  push {m m' : Machine} {name : String} {items : List Value} {length : Value} :
    m.push name items = .ok (length, m') → Inv m → Inv m'
  log {m : Machine} (args : List Slot) : Inv m → Inv (m.log args)
  capture {m : Machine} {line : Nat} (note : String) : Fits line → Inv m → Inv (m.capture line note)
  define {m : Machine} {p : Procedure} (name : String) :
    LinesIn Fits p.body → Inv m → Inv (m.define name p)
  linesIn {m : Machine} {name : String} {p : Procedure} :
    Inv m → m.procedures.get? name = some p → LinesIn Fits p.body
  enter {m : Machine} {line : Nat} (name : String) (scope : Scope) : Fits line → Inv m →
    Inv { m with
      scopes := scope :: m.scopes
      recorder := m.recorder.pushFrame ⟨name, scope.locals, line⟩
      loopDepth := 0 }
  leaveCall {m : Machine} (loopDepth : Nat) : Inv m → Inv (m.leaveCall loopDepth)

namespace IsInvariant

variable {Inv : Machine → Prop} {Fits : Nat → Prop}

theorem hoist (h : IsInvariant Inv Fits) {body : List Stmt} (hbody : LinesIn Fits body)
    {m : Machine} (hm : Inv m) : Inv (m.hoist body) := by
  induction body generalizing m with
  | nil => exact hm
  | cons s rest ih =>
    obtain ⟨hs, hrest⟩ := hbody
    cases s with
    | function l name params body => exact ih hrest (h.define name hs.2 hm)
    | _ => exact ih hrest hm

theorem tick (h : IsInvariant Inv Fits) (budget : Nat) : (Exec.tick budget).Preserves Inv := by
  intro m hm
  unfold Exec.tick
  dsimp only
  split <;> exact h.step hm

theorem rounds (h : IsInvariant Inv Fits) {budget : Nat} {round : Exec (Option Flow)}
    (hround : round.Preserves Inv) (fuel : Nat) : (rounds budget round fuel).Preserves Inv := by
  induction fuel with
  | zero => exact fun m hm => hm
  | succ fuel ih =>
    refine Preserves.bind ((h.tick budget).bind fun _ => hround) fun flow => ?_
    cases flow with
    | none => exact ih
    | some flow => exact fun m hm => hm

theorem leave (line : Nat) (misplaced : Machine → Bool) (cause : RuntimeCause) (flow : Flow) :
    (leave line misplaced cause flow).Preserves Inv := by
  refine .update fun m x m' hm' hm => ?_
  split at hm'
  · cases hm'
  · cases hm'
    exact hm

theorem find (line : Nat) (name : String) : (find line name).Preserves Inv := by
  intro m hm
  cases hget : m.procedures.get? name with
  | some p => rwa [find_of_get? hget]
  | none =>
    obtain ⟨cause, herror⟩ := find_of_none hget
    rwa [herror]

/-- An invariant holds after every action if it holds before. -/
theorem isCongruence (h : IsInvariant Inv Fits) (b b' : Nat) :
    IsCongruence (fun {α} (_ a : Exec α) => a.Preserves Inv) b b' Fits where
  rel_pure _ := fun m hm => hm
  rel_bind := Preserves.bind
  rel_visit ha := ha
  rel_tick := h.tick b'
  rel_ofExcept x _ := .ofExcept _ x
  rel_lookup name _ := fun m hm => Preserves.ofExcept _ _ m hm
  rel_assign name v _ := by
    refine .update fun m _ m' hm' hm => ?_
    obtain ⟨_, hassign, heq⟩ := except_map_eq_ok_iff.1 hm'
    cases heq
    exact h.assign hassign hm
  rel_declare kind name v := fun m hm => h.declare kind name v hm
  rel_push name items _ := by
    refine .update fun m _ m' hm' hm => ?_
    obtain ⟨⟨length, m''⟩, hpush, heq⟩ := except_map_eq_ok_iff.1 hm'
    cases heq
    exact h.push hpush hm
  rel_log args := fun m hm => h.log args hm
  rel_captureNote _ hline := fun m hm => h.capture _ hline hm
  rel_defineOnce name hp := by
    intro m hm
    unfold defineOnce Exec.modify
    dsimp only
    split
    · exact hm
    · exact h.define name hp hm
  rel_leaveCall _ := leave _ _ _ _
  rel_leaveLoop cause flow _ := leave _ _ cause flow
  rel_loop hround := .within (fun m hm => h.rounds hround _ m hm) (fun m hm => h.loopDepth _ hm)
    fun m m' hm' => h.loopDepth _ hm'
  rel_find name hline hf := by
    intro m hm
    cases hget : m.procedures.get? name with
    | some p =>
      rw [bind_of_ok (find_of_get? hget)]
      exact hf p (h.linesIn hm hget) m hm
    | none =>
      obtain ⟨cause, herror⟩ := find_of_none hget
      rw [bind_of_error herror]
      exact hm
  rel_inCall name args hline hp ha := .within ha (fun m hm => h.hoist hp (h.enter name _ hline hm))
    fun m m' hm' => h.leaveCall m.loopDepth hm'

end IsInvariant

/-- What is recorded stays recorded. -/
theorem isInvariant_grows (r : Recorder) :
    IsInvariant (fun m => r.Grows m.recorder) (fun _ => True) where
  step hm := hm
  loopDepth _ hm := hm
  declare kind name v hm := by rwa [Machine.recorder_declare]
  assign hm' hm := by
    obtain ⟨change, rfl⟩ := Machine.exists_of_assign hm'
    rwa [Machine.recorder_updateScopeOf]
  push hm' hm := by
    obtain ⟨change, rfl⟩ := Machine.exists_of_push hm'
    rwa [Machine.recorder_updateScopeOf]
  log args hm := hm.trans (Recorder.grows_emit _ _)
  capture note _ hm := hm.trans (Recorder.grows_commit _ _ _ _ _)
  define _ _ hm := hm
  linesIn _ _ := linesIn_of_forall (fun _ => trivial) _
  enter name scope _ hm := hm.trans (Recorder.grows_pushFrame _ _)
  leaveCall _ hm := hm.trans (Recorder.grows_popFrame _)

end Script

end TraceTutor
