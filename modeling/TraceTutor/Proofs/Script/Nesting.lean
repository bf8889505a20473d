import TraceTutor.Proofs.Script.Invariant

/-!
# Nesting of calls and loops

However a statement or an expression ends, the machine is afterwards in as many calls and loops as
before, and shows the same calls: every action of the evaluator is `Balanced`
(`isCongruence_balanced`). Calls and loops alone change the nesting, and each of them goes back on
every way out.
-/

namespace TraceTutor

/-! ## Machines of equal nesting -/

namespace Machine

/-- The second machine is in as many calls and loops as the first one and shows the same calls. -/
structure SameNesting (m m' : Machine) : Prop where
  scopes : m'.scopes.length = m.scopes.length
  loopDepth : m'.loopDepth = m.loopDepth
  stack : m'.recorder.stack = m.recorder.stack

namespace SameNesting

variable {m m' m'' : Machine}

theorem refl (m : Machine) : m.SameNesting m := ⟨rfl, rfl, rfl⟩

theorem trans (h : m.SameNesting m') (h' : m'.SameNesting m'') : m.SameNesting m'' :=
  ⟨h'.scopes.trans h.scopes, h'.loopDepth.trans h.loopDepth, h'.stack.trans h.stack⟩

theorem updateScopeOf (m : Machine) (name : String) (change : Scope → Scope) :
    m.SameNesting (m.updateScopeOf name change) := by
  cases hscopes : m.scopes with
  | nil =>
    simp only [Machine.updateScopeOf, hscopes]
    exact ⟨by rw [hscopes], rfl, rfl⟩
  | cons scope outer =>
    simp only [Machine.updateScopeOf, hscopes]
    split
    · exact ⟨by simp [hscopes], rfl, rfl⟩
    · exact ⟨by rw [hscopes], rfl, rfl⟩

theorem declare (m : Machine) (kind : DeclarationKind) (name : String) (initial : Slot) :
    m.SameNesting (m.declare kind name initial) := by
  cases hscopes : m.scopes with
  | nil =>
    simp only [Machine.declare, hscopes]
    exact ⟨by rw [hscopes], rfl, rfl⟩
  | cons scope outer =>
    simp only [Machine.declare, hscopes]
    exact ⟨by simp [hscopes], rfl, rfl⟩

theorem hoist (m : Machine) (body : List Stmt) : m.SameNesting (m.hoist body) :=
  hoist_induction body (.refl m) fun _ _ _ h => ⟨h.scopes, h.loopDepth, h.stack⟩

/-- A call goes back to the nesting outside of it. -/
theorem leaveCall {name : String} {p : Procedure} {args : List Slot} {line : Nat}
    (h : (m.enterCall name p args line).SameNesting m') :
    m.SameNesting (m'.leaveCall m.loopDepth) := by
  have hinside := (hoist _ p.body).trans h
  refine ⟨?_, rfl, ?_⟩
  · have hscopes := hinside.scopes
    simp only [List.length_cons] at hscopes
    simp only [Machine.leaveCall, List.length_tail]
    omega
  · have hstack := hinside.stack
    simp only [Recorder.stack_pushFrame] at hstack
    simp only [Machine.leaveCall, Recorder.stack_popFrame, hstack, CallStack.pop_push]

end SameNesting

end Machine

/-! ## Balanced actions -/

namespace Exec

variable {α β : Type}

/-- However the action ends, it leaves the nesting as it was. -/
def Balanced (a : Exec α) : Prop :=
  ∀ m : Machine, m.SameNesting (a m).machine

namespace Balanced

theorem preserves {a : Exec α} (h : a.Balanced) (m₀ : Machine) : a.Preserves m₀.SameNesting :=
  fun m hm => hm.trans (h m)

theorem of_preserves {a : Exec α} (h : ∀ m₀ : Machine, a.Preserves m₀.SameNesting) : a.Balanced :=
  fun m => h m m (.refl m)

theorem bind {a : Exec α} {f : α → Exec β} (ha : a.Balanced) (hf : ∀ x, (f x).Balanced) :
    (a >>= f).Balanced :=
  of_preserves fun m₀ => (ha.preserves m₀).bind fun x => (hf x).preserves m₀

theorem update {line : Nat} {change : Machine → Except RuntimeCause (α × Machine)}
    (h : ∀ m x m', change m = .ok (x, m') → m.SameNesting m') :
    (Exec.update line change).Balanced :=
  of_preserves fun _ => .update fun m x m' hchange hm => hm.trans (h m x m' hchange)

theorem tick (budget : Nat) : (Exec.tick budget).Balanced := by
  intro m
  unfold Exec.tick
  dsimp only
  split <;> exact ⟨rfl, rfl, rfl⟩

theorem rounds {round : Exec (Option Flow)} (h : round.Balanced) (budget fuel : Nat) :
    (Script.rounds budget round fuel).Balanced := by
  induction fuel with
  | zero => exact fun m => .refl m
  | succ fuel ih =>
    refine bind (a := Exec.visit _) ((tick budget).bind fun _ => h) fun flow => ?_
    cases flow with
    | none => exact ih
    | some flow => exact fun m => .refl m

/-- A loop counts itself among the loops around its body, and no longer when it ends. -/
theorem loop {budget : Nat} {round : Exec (Option Flow)} (h : round.Balanced) :
    (Script.loop budget round).Balanced := by
  intro m
  have hrounds := h.rounds budget (budget - m.steps + 1) { m with loopDepth := m.loopDepth + 1 }
  exact ⟨hrounds.scopes, congrArg (· - 1) hrounds.loopDepth, hrounds.stack⟩

theorem inCall {a : Exec α} (h : a.Balanced) (name : String) (p : Procedure) (args : List Slot)
    (line : Nat) : (Script.inCall name p args line a).Balanced :=
  fun m => .leaveCall (h (m.enterCall name p args line))

end Balanced

end Exec

namespace Script

open Exec

/-- All actions of the evaluator are balanced. -/
theorem isCongruence_balanced (b b' : Nat) :
    IsCongruence (fun {α} (_ a : Exec α) => a.Balanced) b b' (fun _ => True) where
  rel_pure _ := fun m => .refl m
  rel_bind := Balanced.bind
  rel_visit ha := ha
  rel_tick := .tick b'
  rel_ofExcept x _ := .of_preserves fun _ => .ofExcept _ x
  rel_lookup name _ := .of_preserves fun _ m hm => Preserves.ofExcept _ _ m hm
  rel_assign name v _ := by
    refine .update fun m _ m' hm' => ?_
    obtain ⟨change, rfl⟩ := Machine.exists_of_map_assign hm'
    exact .updateScopeOf m name change
  rel_declare kind name v := fun m => .declare m kind name v
  rel_push name items _ := by
    refine .update fun m _ m' hm' => ?_
    obtain ⟨change, rfl⟩ := Machine.exists_of_map_push hm'
    exact .updateScopeOf m name change
  rel_log _ := fun _ => ⟨rfl, rfl, rfl⟩
  rel_captureNote _ _ := fun _ => ⟨rfl, rfl, rfl⟩
  rel_defineOnce name _ := by
    intro m
    unfold defineOnce Exec.modify
    dsimp only
    split <;> exact ⟨rfl, rfl, rfl⟩
  rel_leaveCall _ := .of_preserves fun _ => IsInvariant.leave _ _ _ _
  rel_leaveLoop cause flow _ := .of_preserves fun _ => IsInvariant.leave _ _ cause flow
  rel_loop := Balanced.loop
  rel_find name _ hf := .bind (.of_preserves fun _ => IsInvariant.find _ name) fun p =>
    hf p (linesIn_of_forall (fun _ => trivial) _)
  rel_inCall name args _ _ ha := ha.inCall name _ args _

/-- All calls leave the nesting as it was. -/
def CallAction.Balanced (call : CallAction) : Prop :=
  ∀ name args line, (call name args line).Balanced

theorem CallAction.Balanced.related {call : CallAction} (h : CallAction.Balanced call) :
    CallAction.Related (fun {α} (_ a : Exec α) => a.Balanced) (fun _ => True) call call :=
  fun name args line _ => h name args line

theorem balanced_evaluate_of_call {call : CallAction} (hcall : CallAction.Balanced call)
    (line : Nat) (e : Expr) : (evaluate call line e).Balanced :=
  @IsLocalCongruence.evaluate _ 0 0 line _ call call
    (isCongruence_balanced 0 0).toIsLocalCongruence trivial hcall.related e

section

variable (limits : Limits) (levels : Nat)

theorem balanced_callWithin (name : String) (args : List Slot) (line : Nat) :
    (callWithin limits levels name args line).Balanced :=
  (isCongruence_balanced limits.stepBudget limits.stepBudget).callWithin rfl levels name args line
    trivial

theorem balanced_evaluate (line : Nat) (e : Expr) :
    (evaluate (callWithin limits levels) line e).Balanced :=
  balanced_evaluate_of_call (balanced_callWithin limits levels) line e

theorem balanced_exec (instrumented : Bool) (s : Stmt) :
    (exec limits.stepBudget (callWithin limits levels) instrumented s).Balanced :=
  @IsLocalCongruence.exec _ _ _ _ (callWithin limits levels) (callWithin limits levels)
    (isCongruence_balanced limits.stepBudget limits.stepBudget).toIsLocalCongruence
    (CallAction.Balanced.related (balanced_callWithin limits levels)) instrumented s
    (Stmt.linesIn_of_forall (fun _ => trivial) s)

end

end Script

end TraceTutor
