import TraceTutor.Proofs.Script.Nesting

/-!
# The calls that a snapshot shows

A snapshot shows the calls during which it was recorded, the outermost one first. To say so without
a stack, `runEnclosing` runs a script in another way: nothing is pushed when a call begins, and when
it ends, however that may be, its frame is put around everything recorded since it began. Both ways
give the same run (`run_eq_runEnclosing`). It follows that no snapshot shows more calls than may be
nested, and that the final state shows none.

Actions of the two ways are related by `Matches`: inside of some calls the first one does what the
second one does outside of all calls, with the frames of those calls around what it records.
-/

namespace TraceTutor

/-! ## Runs without a stack -/

/-- The snapshot with calls around those that it shows. -/
def Snapshot.inside (frames : List Frame) (s : Snapshot) : Snapshot :=
  { s with callStack := frames ++ s.callStack }

/-- Puts a call around all snapshots but the first `count` ones. -/
def Recorder.enclose (r : Recorder) (count : Nat) (frame : Frame) : Recorder :=
  { r with
    snapshots := (r.trace.take count ++ (r.trace.drop count).map (Snapshot.inside [frame])).toArray }

namespace Script

/-- Runs an action inside of a call that is put around what it records. -/
def inEnclosingCall {α : Type} (name : String) (procedure : Procedure) (args : List Slot)
    (line : Nat) (action : Exec α) : Exec α :=
  let scope := Scope.ofCall procedure.params args
  .within (fun m => { m with scopes := scope :: m.scopes, loopDepth := 0 }.hoist procedure.body)
    (fun before m => { m with
      scopes := m.scopes.tail
      recorder := m.recorder.enclose before.recorder.trace.length ⟨name, scope.locals, line⟩
      loopDepth := before.loopDepth }) action

/-- Calls a function without a stack of calls, where `levels` more calls may be nested. -/
def callEnclosing (limits : Limits) : (levels : Nat) → CallAction
  | 0, name, _, line => .visit do
    let _ ← find line name
    .ofExcept line (.error (.callDepthExceeded limits.callDepth))
  | levels + 1, name, args, line => .visit do
    let procedure ← find line name
    let flow ← inEnclosingCall name procedure args line
      (execBlock limits.stepBudget (callEnclosing limits levels) procedure.body)
    return match flow with
      | .ret v => v
      | _ => none

/-- Executes a program without a stack of calls. -/
def executeEnclosing (limits : Limits) (program : Program) : Outcome Flow :=
  execBlock limits.stepBudget (callEnclosing limits limits.callDepth) program
    (Machine.initial.hoist program)

/-- Runs a script without a stack of calls. -/
def runEnclosing (limits : Limits) (source : String) : Run :=
  match parseProgram source with
  | .error fault => .failed (.syntactic fault)
  | .ok program => Outcome.toRun (lastLine source) (executeEnclosing limits program)

end Script

/-! ## Machines inside of calls -/

namespace Machine

/-- The machine with some calls on its stack and some snapshots recorded. -/
def inside (frames : List Frame) (trace : Trace) (m : Machine) : Machine :=
  { m with recorder := { m.recorder with snapshots := trace.toArray, stack := ⟨frames⟩ } }

variable (frames : List Frame) (trace : Trace) (m : Machine)

theorem inside_self (h : m.recorder.stack = .empty) : m.inside [] m.recorder.trace = m := by
  obtain ⟨globals, scopes, procedures, ⟨snapshots, current, output, stack⟩, steps, loopDepth⟩ := m
  cases h
  rfl

theorem updateScopeOf_inside (name : String) (change : Scope → Scope) :
    (m.inside frames trace).updateScopeOf name change =
      (m.updateScopeOf name change).inside frames trace := by
  obtain ⟨globals, scopes, procedures, recorder, steps, loopDepth⟩ := m
  cases scopes with
  | nil => rfl
  | cons scope outer =>
    simp only [updateScopeOf, inside]
    split <;> rfl

theorem declare_inside (kind : DeclarationKind) (name : String) (initial : Slot) :
    (m.inside frames trace).declare kind name initial =
      (m.declare kind name initial).inside frames trace := by
  obtain ⟨globals, scopes, procedures, recorder, steps, loopDepth⟩ := m
  cases scopes <;> rfl

theorem assign_inside (name : String) (v : Slot) :
    (m.inside frames trace).assign name v = (m.assign name v).map (·.inside frames trace) := by
  unfold assign
  rw [updateScopeOf_inside]
  change (if (m.scopeOf name).consts.contains name then _ else _) = _
  split <;> rfl

theorem push_inside (name : String) (items : List Value) :
    (m.inside frames trace).push name items =
      (m.push name items).map fun pushed => (pushed.1, pushed.2.inside frames trace) := by
  have hread : (m.inside frames trace).read? name = m.read? name := rfl
  unfold push
  simp only [updateScopeOf_inside, hread]
  cases m.read? name with
  | none => rfl
  | some v =>
    dsimp only
    cases v.push? items <;> rfl

theorem hoist_inside (body : List Stmt) :
    (m.inside frames trace).hoist body = (m.hoist body).inside frames trace :=
  hoist_comm (inside frames trace) (fun _ _ _ => rfl) m body

/-- The machine inside of one more call. -/
theorem enterCall_inside (name : String) (p : Procedure) (args : List Slot) (line : Nat) :
    (m.inside frames trace).enterCall name p args line =
      ({ m with scopes := .ofCall p.params args :: m.scopes, loopDepth := 0 }.hoist p.body).inside
        (frames ++ [Frame.mk name (Scope.ofCall p.params args).locals line]) trace := by
  rw [← hoist_inside]
  rfl

theorem leaveCall_inside (frame : Frame) (loopDepth : Nat) :
    (m.inside (frames ++ [frame]) trace).leaveCall loopDepth =
      { m with scopes := m.scopes.tail, loopDepth }.inside frames trace := by
  simp [leaveCall, inside, Recorder.popFrame, CallStack.pop]

theorem capture_inside (line : Nat) (note : String)
    (h : trace.length = m.recorder.trace.length) :
    (m.inside frames trace).capture line note =
      (m.capture line note).inside frames (trace ++ [⟨m.recorder.trace.length + 1, line, m.visible,
        frames, m.recorder.output.toList, none, some note⟩]) := by
  simp only [capture, inside, Recorder.commit, List.size_toArray, h, List.push_toArray]
  rfl

/-- The second machine is outside of all calls and has recorded more snapshots than the first. -/
structure Records (m : Machine) (new : Trace) (m' : Machine) : Prop where
  trace : m'.recorder.trace = m.recorder.trace ++ new
  stack : m'.recorder.stack = .empty

theorem Records.trans {m m' m'' : Machine} {new new' : Trace} (h : m.Records new m')
    (h' : m'.Records new' m'') : m.Records (new ++ new') m'' :=
  ⟨by rw [h'.trace, h.trace, List.append_assoc], h'.stack⟩

end Machine

/-! ## Actions inside of calls -/

theorem Snapshot.inside_nil : Snapshot.inside [] = id := rfl

theorem Snapshot.inside_append (frames frames' : List Frame) (s : Snapshot) :
    Snapshot.inside frames (s.inside frames') = s.inside (frames ++ frames') := by
  simp [Snapshot.inside]

/-- A snapshot that a statement recorded under at most some calls. -/
structure Snapshot.IsStep (depth : Nat) (s : Snapshot) : Prop where
  depth_le : s.callStack.length ≤ depth
  not_final : s.note ≠ some "Final state"

theorem Snapshot.IsStep.inside {depth : Nat} {s : Snapshot} (h : s.IsStep depth) (frame : Frame) :
    (Snapshot.inside [frame] s).IsStep (depth + 1) :=
  ⟨by simpa [Snapshot.inside, Nat.add_comm] using h.depth_le, h.not_final⟩

theorem lineNote_ne_final (line : Nat) (note : String) :
    some s!"Line {line}: {note}" ≠ some "Final state" := by
  intro h
  have hhead := congrArg (fun s : String => s.toList.head?) (Option.some.inj h)
  simp [show toString "Line " = "Line " from rfl] at hhead

theorem Recorder.trace_enclose {r : Recorder} {old new : Trace} (h : r.trace = old ++ new)
    (frame : Frame) :
    (r.enclose old.length frame).trace = old ++ new.map (Snapshot.inside [frame]) := by
  change (r.trace.take old.length ++ (r.trace.drop old.length).map _).toArray.toList = _
  simp [h]

/-- The outcome inside of some calls. -/
def Outcome.inside {α : Type} (frames : List Frame) (trace : Trace) (o : Outcome α) : Outcome α :=
  { o with machine := o.machine.inside frames trace }

theorem Outcome.inside_self {α : Type} {o : Outcome α} (h : o.machine.recorder.stack = .empty) :
    o.inside [] o.machine.recorder.trace = o := by
  unfold Outcome.inside
  rw [Machine.inside_self _ h]

namespace Exec

variable {α β : Type}

/-- What the second action does outside of all calls, the first one does inside of some: around what
it records it puts their frames. What was recorded `earlier` may differ but for its length, since the
snapshots are numbered on. -/
def Matches (depth : Nat) (a a' : Exec α) : Prop :=
  ∀ (m : Machine) (frames : List Frame) (earlier : Trace), m.recorder.stack = .empty →
    earlier.length = m.recorder.trace.length →
    ∃ new : Trace, (∀ s ∈ new, s.IsStep depth) ∧ m.Records new (a' m).machine ∧
      a (m.inside frames earlier) =
        (a' m).inside frames (earlier ++ new.map (Snapshot.inside frames))

/-- An action that neither records anything nor looks at what was recorded. -/
structure Silent (a : Exec α) : Prop where
  trace (m : Machine) : (a m).machine.recorder.trace = m.recorder.trace
  stack (m : Machine) : (a m).machine.recorder.stack = m.recorder.stack
  inside (m : Machine) (frames : List Frame) (trace : Trace) :
    a (m.inside frames trace) = (a m).inside frames trace

namespace Silent

theorem pure (x : α) : (Pure.pure x : Exec α).Silent where
  trace _ := rfl
  stack _ := rfl
  inside _ _ _ := rfl

theorem ofExcept (line : Nat) (x : Except RuntimeCause α) : (Exec.ofExcept line x).Silent := by
  cases x with
  | ok x => exact pure x
  | error cause => exact ⟨fun _ => rfl, fun _ => rfl, fun _ _ _ => rfl⟩

theorem modify {change : Machine → Machine}
    (hrecorder : ∀ m, (change m).recorder.trace = m.recorder.trace ∧
      (change m).recorder.stack = m.recorder.stack)
    (hinside : ∀ m frames trace, change (m.inside frames trace) = (change m).inside frames trace) :
    (Exec.modify change).Silent where
  trace m := (hrecorder m).1
  stack m := (hrecorder m).2
  inside m frames trace := by
    unfold Exec.modify
    rw [hinside]
    rfl

theorem update {line : Nat} {change : Machine → Except RuntimeCause (α × Machine)}
    (hrecorder : ∀ m x m', change m = .ok (x, m') → m'.recorder = m.recorder)
    (hinside : ∀ m frames trace, change (m.inside frames trace) =
      (change m).map fun (x, m) => (x, m.inside frames trace)) :
    (Exec.update line change).Silent := by
  have hmachine (m : Machine) : (Exec.update line change m).machine.recorder = m.recorder := by
    unfold Exec.update
    split
    next x m' hchange => exact hrecorder m x m' hchange
    next => rfl
  refine ⟨fun m => by rw [hmachine], fun m => by rw [hmachine], fun m frames trace => ?_⟩
  unfold Exec.update
  rw [hinside]
  cases change m <;> rfl

theorem tick (budget : Nat) : (Exec.tick budget).Silent where
  trace m := by
    unfold Exec.tick
    dsimp only
    split <;> rfl
  stack m := by
    unfold Exec.tick
    dsimp only
    split <;> rfl
  inside m frames trace := by
    unfold Exec.tick
    by_cases h : budget < m.steps + 1 <;> simp [h, Machine.inside, Outcome.inside]

theorem leave (line : Nat) (misplaced : Machine → Bool) (cause : RuntimeCause) (flow : Flow)
    (h : ∀ m frames trace, misplaced (m.inside frames trace) = misplaced m) :
    (Script.leave line misplaced cause flow).Silent := by
  refine update (fun m x m' hm' => ?_) fun m frames trace => ?_
  · split at hm'
    · cases hm'
    · cases hm'
      rfl
  · rw [h]
    split <;> rfl

theorem find (line : Nat) (name : String) : (Script.find line name).Silent := by
  refine update (fun m x m' hm' => ?_) fun m frames trace => ?_
  · obtain ⟨p, -, heq⟩ := except_map_eq_ok_iff.1 hm'
    cases heq
    rfl
  · change (Script.findProcedure m name).map _ = _
    cases Script.findProcedure m name <;> rfl

theorem lookup (line : Nat) (name : String) : (Exec.lookup line name).Silent where
  trace m := (ofExcept line (m.lookup name)).trace m
  stack m := (ofExcept line (m.lookup name)).stack m
  inside m := (ofExcept line (m.lookup name)).inside m

theorem assign (line : Nat) (name : String) (v : Slot) : (Exec.assign line name v).Silent := by
  refine update (fun m _ m' hm' => ?_) fun m frames trace => ?_
  · obtain ⟨change, rfl⟩ := Machine.exists_of_map_assign hm'
    exact Machine.recorder_updateScopeOf m name change
  · rw [Machine.assign_inside]
    cases m.assign name v <;> rfl

theorem push (line : Nat) (name : String) (items : List Value) :
    (Exec.push line name items).Silent := by
  refine update (fun m _ m' hm' => ?_) fun m frames trace => ?_
  · obtain ⟨change, rfl⟩ := Machine.exists_of_map_push hm'
    exact Machine.recorder_updateScopeOf m name change
  · rw [Machine.push_inside]
    cases m.push name items <;> rfl

theorem declare (kind : DeclarationKind) (name : String) (initial : Slot) :
    (Exec.declare kind name initial).Silent :=
  modify (fun m => by simp) fun m frames trace =>
    Machine.declare_inside frames trace m kind name initial

theorem log (args : List Slot) : (Exec.log args).Silent :=
  modify (fun _ => ⟨rfl, rfl⟩) fun _ _ _ => rfl

theorem defineOnce (name : String) (p : Procedure) : (Script.defineOnce name p).Silent := by
  refine modify (fun m => ?_) fun m frames trace => ?_
  · split <;> exact ⟨rfl, rfl⟩
  · change (if m.procedures.contains name then _ else _) = _
    split <;> rfl

end Silent

namespace Matches

variable {depth : Nat}

theorem of_silent {a : Exec α} (h : a.Silent) : Matches depth a a := by
  intro m frames earlier hstack _
  refine ⟨[], by simp, ⟨by rw [h.trace, List.append_nil], (h.stack m).trans hstack⟩, ?_⟩
  rw [h.inside, List.map_nil, List.append_nil]

theorem bind {a a' : Exec α} {f f' : α → Exec β} (ha : Matches depth a a')
    (hf : ∀ x, Matches depth (f x) (f' x)) : Matches depth (a >>= f) (a' >>= f') := by
  intro m frames earlier hstack hlength
  obtain ⟨new, hnew, hrecords, heq⟩ := ha m frames earlier hstack hlength
  cases h : a' m with
  | mk result m' visits =>
    rw [h] at hrecords heq
    cases result with
    | error i =>
      rw [bind_of_error h, bind_of_error heq]
      exact ⟨new, hnew, hrecords, rfl⟩
    | ok x =>
      obtain ⟨new', hnew', hrecords', heq'⟩ :=
        hf x m' frames (earlier ++ new.map (Snapshot.inside frames)) hrecords.stack
          (by simp [hrecords.trace, hlength])
      rw [bind_of_ok h, bind_of_ok heq, heq']
      refine ⟨new ++ new', ?_, hrecords.trans hrecords', ?_⟩
      · simpa [or_imp, forall_and] using ⟨hnew, hnew'⟩
      · simp [Outcome.inside]

theorem visit {a a' : Exec α} (ha : Matches depth a a') : Matches depth a.visit a'.visit := by
  intro m frames earlier hstack hlength
  obtain ⟨new, hnew, hrecords, heq⟩ := ha m frames earlier hstack hlength
  refine ⟨new, hnew, hrecords, ?_⟩
  unfold Exec.visit
  rw [heq]
  rfl

theorem rounds {round round' : Exec (Option Flow)} (h : Matches depth round round')
    (budget fuel : Nat) :
    Matches depth (Script.rounds budget round fuel) (Script.rounds budget round' fuel) := by
  induction fuel with
  | zero => exact of_silent ⟨fun _ => rfl, fun _ => rfl, fun _ _ _ => rfl⟩
  | succ fuel ih =>
    refine bind (visit (bind (of_silent (.tick budget)) fun _ => h)) fun flow => ?_
    cases flow with
    | none => exact ih
    | some flow => exact of_silent (.pure flow)

theorem loop {budget : Nat} {round round' : Exec (Option Flow)} (h : Matches depth round round') :
    Matches depth (Script.loop budget round) (Script.loop budget round') := by
  intro m frames earlier hstack hlength
  obtain ⟨new, hnew, hrecords, heq⟩ := h.rounds budget (budget - m.steps + 1)
    { m with loopDepth := m.loopDepth + 1 } frames earlier hstack hlength
  exact ⟨new, hnew, ⟨hrecords.trace, hrecords.stack⟩, congrArg (fun o : Outcome Flow =>
    { o with machine := { o.machine with loopDepth := o.machine.loopDepth - 1 } }) heq⟩

theorem capture (line : Nat) {note : String} (hnote : some note ≠ some "Final state") :
    Matches depth (Exec.capture line note) (Exec.capture line note) := by
  intro m frames earlier hstack hlength
  refine ⟨[⟨m.recorder.trace.length + 1, line, m.visible, [], m.recorder.output.toList, none,
    some note⟩], ?_, ⟨?_, hstack⟩, ?_⟩
  · intro s hs
    rw [List.mem_singleton.1 hs]
    exact ⟨Nat.zero_le _, hnote⟩
  · change (m.recorder.commit _ _ _ _).trace = _
    rw [Recorder.trace_commit, hstack]
    rfl
  · change Outcome.mk _ ((m.inside frames earlier).capture line note) _ = _
    rw [Machine.capture_inside frames earlier m line note hlength]
    simp [Exec.capture, Exec.modify, Outcome.inside, Snapshot.inside]

/-- What a call records is recorded inside of one more call. -/
theorem inCall {a a' : Exec α} (h : Matches depth a a') (name : String) (p : Procedure)
    (args : List Slot) (line : Nat) :
    Matches (depth + 1) (Script.inCall name p args line a)
      (Script.inEnclosingCall name p args line a') := by
  intro m frames earlier hstack hlength
  let frame : Frame := ⟨name, (Scope.ofCall p.params args).locals, line⟩
  let entered := { m with scopes := .ofCall p.params args :: m.scopes, loopDepth := 0 }.hoist p.body
  have hentered : entered.recorder = m.recorder := Machine.recorder_hoist _ p.body
  obtain ⟨new, hnew, hrecords, heq⟩ := h entered (frames ++ [frame]) earlier
    (by rw [hentered, hstack]) (by rw [hentered, hlength])
  have htrace := hrecords.trace
  rw [hentered] at htrace
  -- The body has this call's frame among its own frames, and its caller only gets it in `new`.
  refine ⟨new.map (Snapshot.inside [frame]), ?_, ⟨?_, hrecords.stack⟩, ?_⟩
  · intro s hs
    obtain ⟨s', hs', rfl⟩ := List.mem_map.1 hs
    exact (hnew s' hs').inside frame
  · rw [← Recorder.trace_enclose htrace frame]
    rfl
  · unfold Script.inCall Script.inEnclosingCall Exec.within
    dsimp only
    rw [Machine.enterCall_inside, heq]
    simp only [Outcome.inside, Machine.leaveCall_inside]
    have hmap : new.map (Snapshot.inside (frames ++ [frame])) =
        (new.map (Snapshot.inside [frame])).map (Snapshot.inside frames) := by
      simp [Snapshot.inside_append]
    rw [hmap]
    rfl

end Matches

end Exec

namespace Script

open Exec

/-! ## Both ways of running a script -/

theorem isLocalCongruence_matches (depth budget : Nat) :
    IsLocalCongruence (Matches depth) budget budget (fun _ => True) where
  rel_pure x := .of_silent (.pure x)
  rel_bind := .bind
  rel_visit := .visit
  rel_tick := .of_silent (.tick budget)
  rel_ofExcept x _ := .of_silent (.ofExcept _ x)
  rel_lookup name _ := .of_silent (.lookup _ name)
  rel_assign name v _ := .of_silent (.assign _ name v)
  rel_declare kind name v := .of_silent (.declare kind name v)
  rel_push name items _ := .of_silent (.push _ name items)
  rel_log args := .of_silent (.log args)
  rel_captureNote note _ := .capture _ (lineNote_ne_final _ note)
  rel_defineOnce name _ := .of_silent (.defineOnce name _)
  rel_leaveCall _ := .of_silent (.leave _ _ _ _ fun _ _ _ => rfl)
  rel_leaveLoop cause flow _ := .of_silent (.leave _ _ cause flow fun _ _ _ => rfl)
  rel_loop := .loop

section

variable (limits : Limits)

/-- By induction on the levels that are left: what a body records under some calls, its call records
under one more. -/
theorem callWithin_matches (levels : Nat) (name : String) (args : List Slot) (line : Nat) :
    Matches levels (callWithin limits levels name args line)
      (callEnclosing limits levels name args line) := by
  induction levels generalizing name args line with
  | zero =>
    unfold callWithin callEnclosing
    exact .visit (.bind (.of_silent (.find line name)) fun _ => .of_silent (.ofExcept line _))
  | succ levels ih =>
    unfold callWithin callEnclosing runBody
    refine .visit (.bind (.of_silent (.find line name)) fun p => ?_)
    refine .bind (.inCall ?_ name p args line) fun flow => .of_silent (.pure _)
    exact (isLocalCongruence_matches levels limits.stepBudget).execBlock
      (fun name args line _ => ih name args line) p.body (linesIn_of_forall (fun _ => trivial) _)

/-- A program records the same in both ways, and is outside of all calls when it ends. -/
theorem exists_records_execute (program : Program) :
    ∃ steps : Trace, (∀ s ∈ steps, s.IsStep limits.callDepth) ∧
      Machine.initial.Records steps (execute limits program).machine ∧
      execute limits program = executeEnclosing limits program := by
  have hrecorder := Machine.recorder_hoist .initial program
  have hstack : (Machine.initial.hoist program).recorder.stack = .empty := by rw [hrecorder]; rfl
  have htrace : (Machine.initial.hoist program).recorder.trace = [] := by rw [hrecorder]; rfl
  obtain ⟨steps, hsteps, hrecords, heq⟩ :=
    (isLocalCongruence_matches limits.callDepth limits.stepBudget).execBlock
      (fun name args line _ => callWithin_matches limits limits.callDepth name args line) program
      (linesIn_of_forall (fun _ => trivial) _) (Machine.initial.hoist program) [] [] hstack
      (by rw [htrace])
  have hinitial := Machine.inside_self _ hstack
  rw [htrace] at hinitial
  rw [hinitial, Snapshot.inside_nil, List.map_id, List.nil_append] at heq
  have hrecorded : (executeEnclosing limits program).machine.recorder.trace = steps :=
    hrecords.trace.trans (by rw [htrace, List.nil_append])
  have hboth : execute limits program = executeEnclosing limits program := by
    refine Eq.trans heq ?_
    rw [← hrecorded]
    exact Outcome.inside_self hrecords.stack
  rw [hboth]
  exact ⟨steps, hsteps, ⟨hrecorded, hrecords.stack⟩, rfl⟩

theorem run_eq_runEnclosing (source : String) : run limits source = runEnclosing limits source := by
  unfold run runEnclosing
  cases parseProgram source with
  | error fault => rfl
  | ok program =>
    obtain ⟨_, _, _, hboth⟩ := exists_records_execute limits program
    simp only [hboth]

/-- A run shows its steps and, if it completes, the final state outside of all calls. -/
theorem exists_trace_run (source : String) :
    ∃ steps : Trace, (∀ s ∈ steps, s.IsStep limits.callDepth) ∧
      ((run limits source).trace = steps ∧
          ((run limits source).fault = none → (run limits source).truncated = true) ∨
        ∃ final : Snapshot, (run limits source).trace = steps ++ [final] ∧
          final.note = some "Final state" ∧ final.callStack = []) := by
  unfold run
  cases parseProgram source with
  | error fault => exact ⟨[], by simp, .inl ⟨rfl, by simp [Run.failed]⟩⟩
  | ok program =>
    obtain ⟨steps, hsteps, ⟨htrace, hstack⟩, -⟩ := exists_records_execute limits program
    refine ⟨steps, hsteps, ?_⟩
    simp only [Outcome.toRun]
    split
    next =>
      have hcommit := Recorder.trace_commit (execute limits program).machine.recorder
        (lastLine source) (execute limits program).machine.visible none (some "Final state")
      rw [htrace, hstack] at hcommit
      exact .inr ⟨_, hcommit, rfl, rfl⟩
    next => exact .inl ⟨htrace, fun _ => rfl⟩
    next => exact .inl ⟨htrace, by simp⟩

theorem length_callStack_le_of_mem_run {source : String} {s : Snapshot}
    (hs : s ∈ (run limits source).trace) : s.callStack.length ≤ limits.callDepth := by
  obtain ⟨steps, hsteps, ⟨htrace, -⟩ | ⟨final, htrace, -, hstack⟩⟩ := exists_trace_run limits source
  · rw [htrace] at hs
    exact (hsteps s hs).depth_le
  · rw [htrace, List.mem_append, List.mem_singleton] at hs
    obtain hs | rfl := hs
    · exact (hsteps s hs).depth_le
    · simp [hstack]

/-- Only the snapshot after a program has the note of the final state. -/
theorem callStack_of_mem_run_of_final {source : String} {s : Snapshot}
    (hs : s ∈ (run limits source).trace) (hnote : s.note = some "Final state") :
    s.callStack = [] := by
  obtain ⟨steps, hsteps, ⟨htrace, -⟩ | ⟨final, htrace, -, hstack⟩⟩ := exists_trace_run limits source
  · rw [htrace] at hs
    exact absurd hnote (hsteps s hs).not_final
  · rw [htrace, List.mem_append, List.mem_singleton] at hs
    obtain hs | rfl := hs
    · exact absurd hnote (hsteps s hs).not_final
    · exact hstack

theorem exists_final_of_completed {source : String} (hfault : (run limits source).fault = none)
    (htruncated : (run limits source).truncated = false) :
    ∃ final, (run limits source).trace.getLast? = some final ∧
      final.note = some "Final state" ∧ final.callStack = [] := by
  obtain ⟨steps, -, ⟨-, hcut⟩ | ⟨final, htrace, hfinal⟩⟩ := exists_trace_run limits source
  · rw [hcut hfault] at htruncated
    cases htruncated
  · exact ⟨final, by rw [htrace, List.getLast?_concat], hfinal⟩

/-- However expressions and statements end, they leave calls and loops as they were. Each snapshot of
a run shows the calls during which it was recorded, with their lines and the arguments as they were
bound on entry: never more of them than may be nested, and none in the final state. -/
theorem nesting_balanced :
    (∀ levels line e, (evaluate (callWithin limits levels) line e).Balanced) ∧
    (∀ levels instrumented s,
      (exec limits.stepBudget (callWithin limits levels) instrumented s).Balanced) ∧
    ∀ source,
      run limits source = runEnclosing limits source ∧
      (∀ s ∈ (run limits source).trace, s.callStack.length ≤ limits.callDepth) ∧
      (∀ s ∈ (run limits source).trace, s.note = some "Final state" → s.callStack = []) ∧
      ((run limits source).fault = none → (run limits source).truncated = false →
        ∃ final, (run limits source).trace.getLast? = some final ∧
          final.note = some "Final state" ∧ final.callStack = []) :=
  ⟨balanced_evaluate limits, balanced_exec limits, fun source =>
    ⟨run_eq_runEnclosing limits source, fun _ => length_callStack_le_of_mem_run limits,
      fun _ => callStack_of_mem_run_of_final limits, exists_final_of_completed limits⟩⟩

end

end Script

end TraceTutor
