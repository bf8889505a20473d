import Mathlib.Order.Nat
import TraceTutor.Proofs.Script.Invariant

/-!
# The step budget

A run of a script under a larger budget is the same run, or the run under the smaller one is cut and
stands at its front: `run_of_stepBudget_le`. Actions under two budgets are related by `IsCut`, which
is a congruence. The budget ends an action only by an interrupt that no construct holds up, so a cut
anywhere in a program is a cut of all of it.
-/

namespace TraceTutor

namespace Script

open Exec

variable {α β : Type}

/-- From every machine both actions do the same, unless the budget ends the first one. Then the
second one goes on from what was recorded. -/
structure IsCut (a a' : Exec α) : Prop where
  /-- The second action only adds to what was recorded before. -/
  grows (r : Recorder) : a'.Preserves fun m => r.Grows m.recorder
  same_or_cut (m : Machine) : a' m = a m ∨
    (a m).result = .error .budget ∧ (a m).machine.recorder.Grows (a' m).machine.recorder

namespace IsCut

/-- An action that does not depend on the budget. -/
theorem self {a : Exec α} (h : ∀ r : Recorder, a.Preserves fun m => r.Grows m.recorder) :
    IsCut a a :=
  ⟨h, fun _ => .inl rfl⟩

theorem bind {a a' : Exec α} {f f' : α → Exec β} (ha : IsCut a a')
    (hf : ∀ x, IsCut (f x) (f' x)) : IsCut (a >>= f) (a' >>= f') := by
  refine ⟨fun r => (ha.grows r).bind fun x => (hf x).grows r, fun m => ?_⟩
  cases hm : a m with
  | mk result m₁ visits =>
    have hcase := ha.same_or_cut m
    rw [hm] at hcase
    rcases hcase with hsame | ⟨hcut, hgrows⟩
    · cases result with
      | ok x =>
        rw [bind_of_ok hm, bind_of_ok hsame]
        rcases (hf x).same_or_cut m₁ with hsame' | ⟨hcut', hgrows'⟩
        · rw [hsame']
          exact .inl rfl
        · exact .inr ⟨hcut', hgrows'⟩
      | error i =>
        rw [bind_of_error hm, bind_of_error hsame]
        exact .inl rfl
    · -- The first sequence ends here; what the second one still does adds to the record.
      cases hcut
      refine .inr ?_
      rw [bind_of_error hm]
      exact ⟨rfl, Preserves.machine_bind (m₁.recorder.Grows ·.recorder) hgrows
        fun x => (hf x).grows m₁.recorder⟩

theorem visit {a a' : Exec α} (ha : IsCut a a') : IsCut a.visit a'.visit := by
  refine ⟨ha.grows, fun m => ?_⟩
  rcases ha.same_or_cut m with hsame | hcut
  · exact .inl (by rw [Exec.visit, Exec.visit, hsame])
  · exact .inr hcut

theorem tick {b b' : Nat} (h : b ≤ b') : IsCut (Exec.tick b) (Exec.tick b') := by
  refine ⟨fun r => (isInvariant_grows r).tick b', fun m => ?_⟩
  unfold Exec.tick
  dsimp only
  by_cases hb : b < m.steps + 1
  · rw [if_pos hb]
    refine .inr ⟨rfl, ?_⟩
    split <;> exact .refl _
  · rw [if_neg hb, if_neg (by omega)]
    exact .inl rfl

theorem interrupt {a' : Exec α} (h : ∀ r : Recorder, a'.Preserves fun m => r.Grows m.recorder) :
    IsCut (Exec.interrupt .budget) a' :=
  ⟨h, fun m => .inr ⟨rfl, h m.recorder m (.refl _)⟩⟩

/-- The smaller budget may also leave fewer rounds. -/
theorem rounds {b b' : Nat} (hb : b ≤ b') {round round' : Exec (Option Flow)}
    (hround : IsCut round round') {n n' : Nat} (hn : n ≤ n') :
    IsCut (rounds b round n) (Script.rounds b' round' n') := by
  induction n generalizing n' with
  | zero => exact interrupt fun r => (isInvariant_grows r).rounds (hround.grows r) n'
  | succ n ih =>
    obtain ⟨k, rfl⟩ : ∃ k, n' = k + 1 := ⟨n' - 1, by omega⟩
    refine ((tick hb).bind fun _ => hround).visit.bind fun flow => ?_
    cases flow with
    | none => exact ih (by omega)
    | some flow => exact self fun _ _ hm => hm

theorem within {a a' : Exec α} {enter : Machine → Machine} {leave : Machine → Machine → Machine}
    (ha : IsCut a a') (henter : ∀ m : Machine, m.recorder.Grows (enter m).recorder)
    (hleave : ∀ m m', (leave m m').recorder.trace = m'.recorder.trace ∧
      (leave m m').recorder.output = m'.recorder.output) :
    IsCut (Exec.within enter leave a) (Exec.within enter leave a') := by
  have hadd : ∀ r m m', Recorder.Grows r m'.recorder → r.Grows (leave m m').recorder := by
    intro r m m' hr
    obtain ⟨htrace, houtput⟩ := hleave m m'
    exact ⟨htrace ▸ hr.trace, houtput ▸ hr.output⟩
  have hgrows : ∀ r : Recorder, (Exec.within enter leave a').Preserves (r.Grows ·.recorder) :=
    fun r => (ha.grows r).within (fun m hm => Recorder.Grows.trans hm (henter m)) (hadd r)
  refine ⟨hgrows, fun m => ?_⟩
  rcases ha.same_or_cut (enter m) with hsame | ⟨hcut, hgrows⟩
  · exact .inl (by rw [Exec.within, Exec.within, hsame])
  · refine .inr ⟨hcut, ?_⟩
    obtain ⟨htrace, houtput⟩ := hleave m (a (enter m)).machine
    have h := hadd _ m _ hgrows
    exact ⟨htrace ▸ h.trace, houtput ▸ h.output⟩

theorem of_forall {a a' : Machine → Exec α} (h : ∀ m, IsCut (a m) (a' m)) :
    IsCut (fun m => a m m) (fun m => a' m m) :=
  ⟨fun r m => (h m).grows r m, fun m => (h m).same_or_cut m⟩

theorem loop {b b' : Nat} (hb : b ≤ b') {round round' : Exec (Option Flow)}
    (hround : IsCut round round') : IsCut (loop b round) (Script.loop b' round') := by
  refine within (of_forall fun m => ?_) (fun _ => .refl _) fun _ _ => ⟨rfl, rfl⟩
  exact rounds hb hround (by omega)

theorem inCall {a a' : Exec α} (ha : IsCut a a') (name : String) (p : Procedure)
    (args : List Slot) (line : Nat) :
    IsCut (inCall name p args line a) (Script.inCall name p args line a') := by
  refine within ha (fun m => ?_) fun _ _ => ⟨rfl, rfl⟩
  have hgrows := isInvariant_grows m.recorder
  exact hgrows.hoist (linesIn_of_forall (fun _ => trivial) p.body)
    (hgrows.enter name _ trivial (.refl _))

end IsCut

/-- All actions of the evaluator are the same under two budgets, or are cut by the smaller one. -/
theorem isCongruence_isCut {b b' : Nat} (h : b ≤ b') :
    IsCongruence @IsCut b b' (fun _ => True) := by
  have hgrows := fun r : Recorder => (isInvariant_grows r).isCongruence b b'
  exact {
    rel_pure := fun x => .self fun r => (hgrows r).rel_pure x
    rel_bind := IsCut.bind
    rel_visit := IsCut.visit
    rel_tick := IsCut.tick h
    rel_ofExcept := fun x hline => .self fun r => (hgrows r).rel_ofExcept x hline
    rel_lookup := fun name hline => .self fun r => (hgrows r).rel_lookup name hline
    rel_assign := fun name v hline => .self fun r => (hgrows r).rel_assign name v hline
    rel_declare := fun kind name v => .self fun r => (hgrows r).rel_declare kind name v
    rel_push := fun name items hline => .self fun r => (hgrows r).rel_push name items hline
    rel_log := fun args => .self fun r => (hgrows r).rel_log args
    rel_captureNote := fun note hline => .self fun r => (hgrows r).rel_captureNote note hline
    rel_defineOnce := fun name hp => .self fun r => (hgrows r).rel_defineOnce name hp
    rel_leaveCall := fun hline => .self fun r => (hgrows r).rel_leaveCall hline
    rel_leaveLoop := fun cause flow hline =>
      .self fun r => (hgrows r).rel_leaveLoop cause flow hline
    rel_loop := IsCut.loop h
    rel_find := fun name _ hf => (IsCut.self fun r => IsInvariant.find _ name).bind fun p =>
      hf p (linesIn_of_forall (fun _ => trivial) _)
    rel_inCall := fun name args _ _ ha => ha.inCall name _ args _ }

/-! ## Runs -/

theorem execute_same_or_cut (limits : Limits) (program : Program) {b b' : Nat} (h : b ≤ b') :
    execute { limits with stepBudget := b' } program =
        execute { limits with stepBudget := b } program ∨
      (execute { limits with stepBudget := b } program).result = .error .budget ∧
        (execute { limits with stepBudget := b } program).machine.recorder.Grows
          (execute { limits with stepBudget := b' } program).machine.recorder := by
  have hcut : IsCongruence @IsCut { limits with stepBudget := b }.stepBudget
      { limits with stepBudget := b' }.stepBudget (fun _ => True) := isCongruence_isCut h
  have hprogram := hcut.program rfl (linesIn_of_forall (fun _ => trivial) program)
  exact hprogram.same_or_cut (Machine.initial.hoist program)

namespace Outcome

variable (lastLine : Nat) {o o' : Outcome Flow}

theorem toRun_of_budget (h : o.result = .error .budget) : toRun lastLine o =
    ⟨o.machine.recorder.trace, o.machine.recorder.output.toList, none, true⟩ := by
  unfold toRun
  rw [h]

theorem toRun_truncated : (toRun lastLine o).truncated = true ↔ o.result = .error .budget := by
  unfold toRun
  split
  next h => simp [h]
  next h => simp [h]
  next h => simp [h]

/-- A run yields what was recorded, and maybe more. -/
theorem recorder_prefix_toRun : o.machine.recorder.trace <+: (toRun lastLine o).trace ∧
    o.machine.recorder.output.toList <+: (toRun lastLine o).output := by
  unfold toRun
  split
  · have h := o.machine.recorder.grows_commit lastLine o.machine.visible none (some "Final state")
    exact ⟨h.trace, h.output⟩
  · exact ⟨List.prefix_refl _, List.prefix_refl _⟩
  · exact ⟨List.prefix_refl _, List.prefix_refl _⟩

end Outcome

/-- A run that the budget does not cut is the same under a larger one. A run that it cuts has no
fault and is the front of the run under a larger one. -/
theorem run_of_stepBudget_le (limits : Limits) (source : String) {b b' : Nat} (h : b ≤ b') :
    ((run { limits with stepBudget := b } source).truncated = false →
      run { limits with stepBudget := b' } source = run { limits with stepBudget := b } source) ∧
    ((run { limits with stepBudget := b } source).truncated = true →
      (run { limits with stepBudget := b } source).trace <+:
        (run { limits with stepBudget := b' } source).trace ∧
      (run { limits with stepBudget := b } source).output <+:
        (run { limits with stepBudget := b' } source).output ∧
      (run { limits with stepBudget := b } source).fault = none) := by
  unfold run
  cases parseProgram source with
  | error fault => exact ⟨fun _ => rfl, fun hcut => by cases hcut⟩
  | ok program =>
    dsimp only
    rcases execute_same_or_cut limits program h with hsame | ⟨hcut, hgrows⟩
    · rw [hsame]
      refine ⟨fun _ => rfl, fun htruncated => ⟨List.prefix_refl _, List.prefix_refl _, ?_⟩⟩
      rw [Outcome.toRun_of_budget _ ((Outcome.toRun_truncated _).1 htruncated)]
    · obtain ⟨htrace, houtput⟩ := Outcome.recorder_prefix_toRun (lastLine source)
        (o := execute { limits with stepBudget := b' } program)
      rw [Outcome.toRun_of_budget _ hcut]
      refine ⟨fun hfull => ?_, fun _ => ⟨?_, ?_, rfl⟩⟩
      · cases hfull
      · exact hgrows.trace.trans htrace
      · exact hgrows.output.trans houtput

/-- A script that calls a function in a loop that never ends. -/
def endlessLoop : String :=
  "function twice(n) \x7b return n * 2; \x7d\nlet i = 0;\nwhile (true) \x7b\n" ++
    "  console.log(twice(i));\n  i++;\n\x7d\n"

theorem run_endlessLoop_of_stepBudget_le :
    (run ⟨0, 10, 4⟩ endlessLoop).truncated = true ∧
    (run ⟨0, 10, 4⟩ endlessLoop).trace <+: (run ⟨0, 20, 4⟩ endlessLoop).trace ∧
    (run ⟨0, 10, 4⟩ endlessLoop).output <+: (run ⟨0, 20, 4⟩ endlessLoop).output := by
  have hcut : (run ⟨0, 10, 4⟩ endlessLoop).truncated = true := by decide +kernel
  have h := (run_of_stepBudget_le ⟨0, 10, 4⟩ endlessLoop (show 10 ≤ 20 by decide)).2 hcut
  exact ⟨hcut, h.1, h.2.1⟩

end Script

end TraceTutor
