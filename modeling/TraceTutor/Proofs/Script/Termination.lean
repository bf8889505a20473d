import TraceTutor.Proofs.Script.Budget
import TraceTutor.Proofs.Script.Flow
import TraceTutor.Proofs.Script.Footprint

/-!
# The end of runs

Expressions and calls take no steps, but a run is in a statement or a round of a loop whenever it
evaluates something, and between two steps it visits the nodes of at most one of these. So the step
budget bounds what a run visits, however deep calls may be nested (`run_bounded`).

A run that is cut has taken one step more than the budget. The rounds of a loop are counted out in
advance, but a loop never gets as far as that: the budget ends it before (`Metered.rounds`), and it
does what a loop without this count would do (`spin_eq`).
-/

namespace TraceTutor

/-! ## Steps within the budget -/

/-- From the machine on, steps were only added. All of them are within the budget, unless the run
was cut, by the first one that is not. -/
structure Outcome.Metered {α : Type} (budget : Nat) (m : Machine) (o : Outcome α) : Prop where
  steps_le : m.steps ≤ o.machine.steps
  of_cut : o.result = .error .budget → o.machine.steps = budget + 1
  of_not_cut : o.result ≠ .error .budget → o.machine.steps ≤ budget

namespace Exec

variable {α β : Type} {budget : Nat}

/-- Within the budget the action is metered by it. -/
def Metered (budget : Nat) (a : Exec α) : Prop :=
  ∀ m : Machine, m.steps ≤ budget → (a m).Metered budget m

namespace Metered

/-- An action that takes no steps is not cut. -/
theorem of_idle {a : Exec α} (hsteps : ∀ m, (a m).machine.steps = m.steps)
    (hresult : ∀ m, (a m).result ≠ .error .budget) : a.Metered budget :=
  fun m hm => ⟨Nat.le_of_eq (hsteps m).symm, fun hcut => absurd hcut (hresult m),
    fun _ => Nat.le_trans (Nat.le_of_eq (hsteps m)) hm⟩

theorem pure (x : α) : (Pure.pure x : Exec α).Metered budget :=
  of_idle (fun _ => rfl) nofun

theorem ofExcept (line : Nat) (x : Except RuntimeCause α) :
    (Exec.ofExcept line x).Metered budget := by
  cases x with
  | ok x => exact pure x
  | error cause => exact of_idle (fun _ => rfl) nofun

theorem modify {change : Machine → Machine} (h : ∀ m, (change m).steps = m.steps) :
    (Exec.modify change).Metered budget :=
  of_idle h nofun

theorem update {line : Nat} {change : Machine → Except RuntimeCause (α × Machine)}
    (h : ∀ m x m', change m = .ok (x, m') → m'.steps = m.steps) :
    (Exec.update line change).Metered budget := by
  refine of_idle (fun m => ?_) fun m => ?_
  · unfold Exec.update
    split
    next x m' hchange => exact h m x m' hchange
    next => rfl
  · unfold Exec.update
    split <;> nofun

/-- The second part starts where the first one ended, which is within the budget. -/
theorem bind_at {a : Exec α} {f : α → Exec β} {m : Machine} (ha : (a m).Metered budget m)
    (hf : ∀ x, (a m).result = .ok x → (f x (a m).machine).Metered budget (a m).machine) :
    ((a >>= f) m).Metered budget m := by
  cases h : a m with
  | mk result m' visits =>
    rw [h] at ha hf
    cases result with
    | ok x =>
      rw [bind_of_ok h]
      have hsecond := hf x rfl
      exact ⟨Nat.le_trans ha.steps_le hsecond.steps_le, hsecond.of_cut, hsecond.of_not_cut⟩
    | error i =>
      rw [bind_of_error h]
      exact ⟨ha.steps_le, fun hcut => ha.of_cut (by cases hcut; rfl),
        fun hcut => ha.of_not_cut fun h => hcut (by cases h; rfl)⟩

theorem bind {a : Exec α} {f : α → Exec β} (ha : a.Metered budget)
    (hf : ∀ x, (f x).Metered budget) : (a >>= f).Metered budget := by
  refine fun m hm => bind_at (ha m hm) fun x hx => hf x _ ((ha m hm).of_not_cut ?_)
  rw [hx]
  nofun

theorem visit {a : Exec α} (h : a.Metered budget) : a.visit.Metered budget :=
  fun m hm => ⟨(h m hm).steps_le, (h m hm).of_cut, (h m hm).of_not_cut⟩

theorem tick (budget : Nat) : (Exec.tick budget).Metered budget := by
  intro m hm
  by_cases hlt : m.steps < budget
  · rw [tick_of_lt hlt]
    exact ⟨Nat.le_succ _, nofun, fun _ => hlt⟩
  · rw [tick_of_le (Nat.not_lt.1 hlt)]
    exact ⟨Nat.le_succ _, fun _ => by dsimp only; omega, fun hcut => absurd rfl hcut⟩

theorem within {a : Exec α} {enter : Machine → Machine} {leave : Machine → Machine → Machine}
    (h : a.Metered budget) (henter : ∀ m, (enter m).steps = m.steps)
    (hleave : ∀ m m', (leave m m').steps = m'.steps) :
    (Exec.within enter leave a).Metered budget := by
  intro m hm
  have hinside := h (enter m) (by rwa [henter])
  refine ⟨?_, fun hcut => ?_, fun hcut => ?_⟩
  · rw [← henter m]
    exact Nat.le_trans hinside.steps_le (Nat.le_of_eq (hleave m _).symm)
  · exact (hleave m _).trans (hinside.of_cut hcut)
  · exact Nat.le_trans (Nat.le_of_eq (hleave m _)) (hinside.of_not_cut hcut)

/-! ### Loops -/

/-- A round that completes has taken a step, and is within the budget. -/
theorem steps_of_round {round : Exec (Option Flow)} (h : round.Metered budget) {m : Machine}
    {x : Option Flow} (hresult : (Exec.visit (do Exec.tick budget; round) m).result = .ok x) :
    m.steps < (Exec.visit (do Exec.tick budget; round) m).machine.steps ∧
      (Exec.visit (do Exec.tick budget; round) m).machine.steps ≤ budget := by
  unfold Exec.visit at hresult ⊢
  by_cases hlt : m.steps < budget
  · rw [bind_of_ok (tick_of_lt hlt)] at hresult ⊢
    have hround := h { m with steps := m.steps + 1 } hlt
    exact ⟨hround.steps_le, hround.of_not_cut (ne_of_eq_of_ne hresult nofun)⟩
  · rw [bind_of_error (tick_of_le (Nat.not_lt.1 hlt))] at hresult
    cases hresult

/-- Where more rounds are left than steps, the budget ends a loop before its rounds do. -/
theorem rounds {round : Exec (Option Flow)} (h : round.Metered budget) {fuel : Nat} {m : Machine}
    (hm : m.steps ≤ budget) (hfuel : budget - m.steps < fuel) :
    (Script.rounds budget round fuel m).Metered budget m := by
  induction fuel generalizing m with
  | zero => exact absurd hfuel (Nat.not_lt_zero _)
  | succ fuel ih =>
    unfold Script.rounds
    refine bind_at (((tick budget).bind fun _ => h).visit m hm) fun last hlast => ?_
    obtain ⟨hstep, hwithin⟩ := h.steps_of_round hlast
    cases last with
    | some flow => exact pure flow _ hwithin
    -- The round took a step, so there are fewer steps left as well as fewer rounds.
    | none => exact ih hwithin (by omega)

theorem loop {round : Exec (Option Flow)} (h : round.Metered budget) :
    (Script.loop budget round).Metered budget :=
  within (fun _ hm => h.rounds hm (Nat.lt_succ_self _)) (fun _ => rfl) fun _ _ => rfl

end Metered

/-- Sequences agree at a machine if they go on alike where their first part ends. -/
theorem bind_congr_at {a : Exec α} {f g : α → Exec β} {m : Machine}
    (h : ∀ x, (a m).result = .ok x → f x (a m).machine = g x (a m).machine) :
    (a >>= f) m = (a >>= g) m := by
  cases ha : a m with
  | mk result m' visits =>
    rw [ha] at h
    cases result with
    | ok x => rw [bind_of_ok ha, bind_of_ok ha, h x rfl]
    | error i => rw [bind_of_error ha, bind_of_error ha]

end Exec

namespace Script

open Exec

section

variable {budget : Nat} {round : Exec (Option Flow)}

/-- How many rounds were counted out makes no difference where there are more than steps. -/
theorem rounds_eq_rounds (h : round.Metered budget) {fuel fuel' : Nat} {m : Machine}
    (hfuel : budget - m.steps < fuel) (hfuel' : budget - m.steps < fuel') :
    rounds budget round fuel m = rounds budget round fuel' m := by
  induction fuel generalizing fuel' m with
  | zero => exact absurd hfuel (Nat.not_lt_zero _)
  | succ fuel ih =>
    obtain ⟨k, rfl⟩ : ∃ k, fuel' = k + 1 := ⟨fuel' - 1, by omega⟩
    unfold rounds
    refine bind_congr_at fun last hlast => ?_
    obtain ⟨hstep, hwithin⟩ := h.steps_of_round hlast
    cases last with
    | some flow => rfl
    | none => exact ih (by omega) (by omega)

/-- The rounds of a loop, as many as the steps that are left. -/
def spin (budget : Nat) (round : Exec (Option Flow)) : Exec Flow :=
  fun m => rounds budget round (budget - m.steps + 1) m

theorem loop_eq_spin (budget : Nat) (round : Exec (Option Flow)) :
    loop budget round = .within (fun m => { m with loopDepth := m.loopDepth + 1 })
      (fun _ m => { m with loopDepth := m.loopDepth - 1 }) (spin budget round) :=
  rfl

/-- A loop makes a round and, unless that was the last one, starts over. -/
theorem spin_eq (h : round.Metered budget) :
    spin budget round = (do
      match ← Exec.visit (do Exec.tick budget; round) with
      | some flow => return flow
      | none => spin budget round) := by
  funext m
  unfold spin
  rw [rounds]
  refine bind_congr_at fun last hlast => ?_
  obtain ⟨hstep, hwithin⟩ := h.steps_of_round hlast
  cases last with
  | some flow => rfl
  | none => exact rounds_eq_rounds h (by omega) (Nat.lt_succ_self _)

end

theorem metered_leave {budget : Nat} (line : Nat) (misplaced : Machine → Bool)
    (cause : RuntimeCause) (flow : Flow) : (leave line misplaced cause flow).Metered budget := by
  refine .update fun m x m' h => ?_
  split at h
  · cases h
  · cases h
    rfl

theorem metered_find {budget : Nat} (line : Nat) (name : String) :
    (find line name).Metered budget := by
  refine .update fun m x m' h => ?_
  obtain ⟨_, _, heq⟩ := except_map_eq_ok_iff.1 h
  cases heq
  rfl

/-- All actions of the evaluator are metered. -/
theorem isCongruence_metered (budget : Nat) :
    IsCongruence (fun {α} (_ a : Exec α) => a.Metered budget) budget budget (fun _ => True) where
  rel_pure := .pure
  rel_bind := Metered.bind
  rel_visit := Metered.visit
  rel_tick := .tick budget
  rel_ofExcept x _ := .ofExcept _ x
  rel_lookup name _ := fun m hm => Metered.ofExcept _ (m.lookup name) m hm
  rel_assign name v _ := by
    refine .update fun m _ m' hm' => ?_
    obtain ⟨change, rfl⟩ := Machine.exists_of_map_assign hm'
    exact Machine.steps_updateScopeOf m name change
  rel_declare kind name v := .modify fun m => Machine.steps_declare m kind name v
  rel_push name items _ := by
    refine .update fun m _ m' hm' => ?_
    obtain ⟨change, rfl⟩ := Machine.exists_of_map_push hm'
    exact Machine.steps_updateScopeOf m name change
  rel_log _ := .modify fun _ => rfl
  rel_captureNote _ _ := .modify fun _ => rfl
  rel_defineOnce name _ := .modify fun m => by split <;> rfl
  rel_leaveCall _ := metered_leave _ _ _ _
  rel_leaveLoop cause flow _ := metered_leave _ _ cause flow
  rel_loop := Metered.loop
  rel_find name _ hf := (metered_find _ name).bind fun p =>
    hf p (linesIn_of_forall (fun _ => trivial) _)
  rel_inCall name args _ _ ha := ha.within (fun _ => Machine.steps_hoist _ _) fun _ _ => rfl

/-! ## Runs -/

/-- How many nodes a run visits at most: those between two steps, for every step and the one over
the budget. -/
def visitBound (program : Program) (budget : Nat) : Nat :=
  stepVisits program * (budget + 1)

theorem metered_execute (limits : Limits) (program : Program) :
    (execute limits program).Metered limits.stepBudget (Machine.initial.hoist program) := by
  refine (isCongruence_metered limits.stepBudget).program rfl
    (linesIn_of_forall (fun _ => trivial) program) _ ?_
  rw [Machine.steps_hoist]
  exact Nat.zero_le _

/-- The steps of a run pay for all nodes that it visits. -/
theorem visits_execute_le (limits : Limits) (program : Program) :
    (execute limits program).visits ≤
      stepVisits program * (execute limits program).machine.steps := by
  have hinitial : Machine.initial.FunctionsIn program := fun name p hp => by cases hp
  have hhoisted : (Machine.initial.hoist program).FunctionsIn program :=
    (Machine.Defines.hoist (List.Subset.refl _)).functionsIn hinitial
  have hblock := footprint_execBlock (footprint_callWithin limits limits.callDepth)
    limits.stepBudget program (List.Subset.refl _) _ hhoisted
  have hvisits := hblock.visits
  have hsteps : (Machine.initial.hoist program).steps = 0 := Machine.steps_hoist _ _
  rwa [hsteps, Nat.mul_zero, Nat.add_zero, Nat.zero_add] at hvisits

/-- What a program and a step budget let a run visit is bounded, however deep calls may be nested. A
run takes at most one step over the budget, and ends in one of three ways: it completes or faults
within the budget, or that one step cuts it. -/
theorem run_bounded (limits : Limits) {source : String} {program : Program}
    (h : parseProgram source = .ok program) :
    (execute limits program).visits ≤ visitBound program limits.stepBudget ∧
    (((execute limits program).machine.steps ≤ limits.stepBudget ∧
        (run limits source).fault = none ∧ (run limits source).truncated = false ∧
        (execute limits program).result = .ok .normal) ∨
      ((execute limits program).machine.steps ≤ limits.stepBudget ∧
        ∃ fault, (run limits source).fault = some fault ∧ (run limits source).truncated = false) ∨
      ((execute limits program).machine.steps = limits.stepBudget + 1 ∧
        (run limits source).fault = none ∧ (run limits source).truncated = true)) := by
  have hmetered := metered_execute limits program
  have hvisits := visits_execute_le limits program
  have hrun : run limits source = Outcome.toRun (lastLine source) (execute limits program) := by
    unfold run
    rw [h]
  have hsteps : (execute limits program).machine.steps ≤ limits.stepBudget + 1 := by
    by_cases hcut : (execute limits program).result = .error .budget
    · exact Nat.le_of_eq (hmetered.of_cut hcut)
    · exact Nat.le_succ_of_le (hmetered.of_not_cut hcut)
  refine ⟨Nat.le_trans hvisits (Nat.mul_le_mul_left _ hsteps), ?_⟩
  rw [hrun]
  unfold Outcome.toRun
  cases hresult : (execute limits program).result with
  | ok flow =>
    have hflow := eq_normal_of_execute limits program hresult
    exact .inl ⟨hmetered.of_not_cut (by rw [hresult]; nofun), rfl, rfl, by rw [hflow]⟩
  | error i =>
    cases i with
    | fault f => exact .inr (.inl ⟨hmetered.of_not_cut (by rw [hresult]; nofun), f, rfl, rfl⟩)
    | budget => exact .inr (.inr ⟨hmetered.of_cut hresult, rfl, rfl⟩)

/-- A script that does not end by itself. It calls a function that calls itself, and an empty one in
the arguments of a call. -/
def ceaselessCalls : String :=
  "function down(n) \x7b\n  if (n > 0) down(n - 1);\n\x7d\nfunction nothing() \x7b\x7d\n" ++
    "while (true) \x7b\n  down(2);\n  nothing(nothing(), nothing());\n\x7d\n"

theorem run_bounded_ceaselessCalls :
    ∃ program, parseProgram ceaselessCalls = .ok program ∧ visitBound program 40 = 287 ∧
      (run ⟨0, 40, 3⟩ ceaselessCalls).truncated = true ∧
      ∀ depth, (execute ⟨0, 40, depth⟩ program).visits ≤ visitBound program 40 := by
  have hfacts : (parseProgram ceaselessCalls).toOption.map (fun program =>
      (visitBound program 40,
        (Outcome.toRun (lastLine ceaselessCalls) (execute ⟨0, 40, 3⟩ program)).truncated)) =
          some (287, true) := by
    decide +kernel
  obtain ⟨program, hprogram, hprogramFacts⟩ := except_exists_of_map_toOption hfacts
  obtain ⟨hbound, htruncated⟩ := Prod.mk.inj hprogramFacts
  refine ⟨program, hprogram, hbound, ?_, fun depth => (run_bounded ⟨0, 40, depth⟩ hprogram).1⟩
  unfold run
  rw [hprogram]
  exact htruncated

end Script

end TraceTutor
