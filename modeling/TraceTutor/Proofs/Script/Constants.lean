import TraceTutor.Proofs.Script.Scopes

/-!
# Constants along a run

As long as a name is constant in a scope, it keeps what it holds there, up to declarations of the
name in that scope and items that are pushed onto its array. Only a `let` or a `var` of the name in
that scope ends this (`Part.isConstAt_along`). An assignment to a constant ends the run
(`Part.after_of_assigns`).
-/

namespace TraceTutor

namespace Machine

variable {m m' : Machine} {c : String} {k : Nat}

/-- The scope of a number is there and the name is constant in it. -/
def IsConstAt (m : Machine) (k : Nat) (c : String) : Prop :=
  ∃ s, m.scopeAt? k = some s ∧ c ∈ s.consts

/-- What the scope of a number holds for a name. -/
def slotAt (m : Machine) (k : Nat) (c : String) : Slot :=
  (m.scopeAt? k).bind (·.locals.get? c)

theorem isConstAt_levelOf : m.IsConstAt (m.levelOf c) c ↔ c ∈ (m.scopeOf c).consts := by
  simp [IsConstAt, scopeAt?_levelOf]

end Machine

/-! ## Constants that are kept -/

namespace Part

open Script

variable (limits : Limits)

/-- A declaration statement of a name, executed in the scope of a number, leads from one machine to
the other. -/
def Declares (run : Part) (kind : DeclarationKind) (c : String) (k : Nat) (m m' : Machine) : Prop :=
  ∃ q shown l initial s v, run.Reaches limits q ∧
    q.phrase = .stmt shown (.declare l kind c initial) ∧ q.machine.scopes.length = k ∧
    m.scopeAt? k = some s ∧ m'.scopeAt? k = some (s.declare kind c v)

/-- A push onto the array of a name that belongs to the scope of a number leads from one machine to
the other. -/
def PushesOnto (run : Part) (c : String) (k : Nat) (m m' : Machine) : Prop :=
  ∃ q line f args s items old array length, run.Reaches limits q ∧
    q.phrase = .expr line (.call f args) ∧ f.callee = .push c ∧ m.levelOf c = k ∧
    m.scopeAt? k = some s ∧ s.locals.get? c = some old ∧
    old.push? items = some (array, length) ∧ m'.scopeAt? k = some (s.rebind c array)

/-- The second machine holds for a name what the first one does, or a declaration that leaves the
name constant or a push leads to it. -/
def KeepsConst (run : Part) (c : String) (k : Nat) (m m' : Machine) : Prop :=
  m'.slotAt k c = m.slotAt k c ∨ run.Declares limits .constKind c k m m' ∨
    run.PushesOnto limits c k m m'

variable {limits} {run : Part} {c : String} {k : Nat} {m m' : Machine}

theorem Declares.isConstAt (h : run.Declares limits .constKind c k m m') : m'.IsConstAt k c := by
  obtain ⟨q, shown, l, initial, s, v, -, -, -, -, hs'⟩ := h
  exact ⟨_, hs', Scope.mem_consts_declare.2 (.inl ⟨rfl, rfl⟩)⟩

/-- A declaration that leaves its name constant is that of a constant. -/
theorem Declares.kind_eq {kind : DeclarationKind} (h : run.Declares limits kind c k m m')
    (hconst : m'.IsConstAt k c) : kind = .constKind := by
  obtain ⟨q, shown, l, initial, s, v, -, -, -, -, hs'⟩ := h
  obtain ⟨_, hs, hc⟩ := hconst
  cases hs'.symm.trans hs
  obtain ⟨-, hkind⟩ | ⟨hne, -⟩ := Scope.mem_consts_declare.1 hc
  · exact hkind
  · exact absurd rfl hne

/-- While its scope is there, only a declaration or a push changes what a constant holds, and only a
declaration ends that it is one. -/
theorem keepsConst_of_changes (h : run.Changes limits m m') (hm : m.IsConstAt k c)
    (hm' : k ≤ m'.scopes.length) :
    m'.IsConstAt k c ∧ run.KeepsConst limits c k m m' ∨
      ∃ kind, kind ≠ .constKind ∧ run.Declares limits kind c k m m' := by
  obtain ⟨q, hq, hown⟩ := h
  obtain ⟨s, hs, hc⟩ := hm
  obtain ⟨s', hs'⟩ := Option.isSome_iff_exists.1 (Machine.isSome_scopeAt?.2 hm')
  -- A scope that a call enters is not there before it.
  have hold : k ≤ m.scopes.length := Machine.isSome_scopeAt?.1 (hs ▸ rfl)
  obtain ⟨_, hs₁, hchange⟩ | ⟨hk, -⟩ := scopeChange_of_own hown hs'
  swap
  · omega
  cases hs.symm.trans hs₁
  have hsame (hconsts : c ∈ s'.consts) (hslot : s'.locals.get? c = s.locals.get? c) :
      m'.IsConstAt k c ∧ run.KeepsConst limits c k m m' :=
    ⟨⟨s', hs', hconsts⟩, .inl (by rw [Machine.slotAt, Machine.slotAt, hs, hs']; exact hslot)⟩
  cases hchange with
  | none => exact .inl (hsame hc rfl)
  | @declare shown l kind x initial v hphrase hdepth =>
    by_cases hx : c = x
    · subst hx
      have hdeclares : run.Declares limits kind c k m m' :=
        ⟨q, shown, l, initial, s, v, hq, hphrase, hdepth, hs, hs'⟩
      by_cases hkind : kind = .constKind
      · subst hkind
        exact .inl ⟨hdeclares.isConstAt, .inr (.inl hdeclares)⟩
      · exact .inr ⟨kind, hkind, hdeclares⟩
    · refine .inl (hsame (Scope.mem_consts_declare.2 (.inr ⟨hx, hc⟩)) ?_)
      exact (Scope.get?_store s x c v).trans (if_neg hx)
  | @assign shown stmt x v _ _ _ hx =>
    have hne : c ≠ x := fun h => hx (h ▸ hc)
    refine .inl (hsame (by rwa [Scope.consts_store]) ?_)
    exact (Scope.get?_store s x c v).trans (if_neg hne)
  | @push line f args x items old array length hphrase hcallee hlevel hget hpush =>
    by_cases hx : c = x
    · subst hx
      exact .inl ⟨⟨_, hs', hc⟩, .inr (.inr ⟨q, line, f, args, s, items, old, array, length, hq,
        hphrase, hcallee, hlevel, hs, hget, hpush, hs'⟩)⟩
    · exact .inl (hsame hc ((NameMap.get?_set s.locals x c array).trans (if_neg hx)))

/-- Along a stretch of a run that has no other declaration of it, a constant stays one. -/
theorem isConstAt_along {states : List Machine}
    (hchain : (m :: states).IsChain (run.Changes limits))
    (hthere : ∀ s ∈ m :: states, k ≤ s.scopes.length)
    (hconst : (m :: states).IsChain fun s s' =>
      ∀ kind, kind ≠ .constKind → ¬ run.Declares limits kind c k s s')
    (hm : m.IsConstAt k c) :
    (∀ s ∈ states, s.IsConstAt k c) ∧ (m :: states).IsChain (run.KeepsConst limits c k) := by
  induction states generalizing m with
  | nil => exact ⟨by simp, .singleton m⟩
  | cons m' rest ih =>
    obtain ⟨hchange, hchain⟩ := List.isChain_cons_cons.1 hchain
    obtain ⟨hno, hconst⟩ := List.isChain_cons_cons.1 hconst
    obtain ⟨-, hthere⟩ := List.forall_mem_cons.1 hthere
    have hstep := keepsConst_of_changes hchange hm (hthere m' List.mem_cons_self)
    obtain ⟨hm', hkeeps⟩ := hstep.resolve_right fun ⟨kind, hkind, h⟩ => hno kind hkind h
    obtain ⟨hrest, hkept⟩ := ih hchain hthere hconst hm'
    exact ⟨List.forall_mem_cons.2 ⟨hm', hrest⟩, hkept.cons_cons hkeeps⟩

/-- A name is constant as soon as its declaration completed. -/
theorem isConstAt_of_declare {q : Part} {shown : Bool} {l : Location} {initial : Option Expr}
    (hq : q.phrase = .stmt shown (.declare l .constKind c initial))
    (h : (q.outcome limits).result = .ok ()) :
    (q.after limits).IsConstAt q.machine.scopes.length c := by
  obtain ⟨levels, phrase, m⟩ := q
  cases hq
  obtain ⟨flow, hflow, -⟩ := except_map_eq_ok_iff.1 h
  obtain ⟨vs, m', hnesting, hmachine⟩ := exists_of_exec_ok hflow
  have hdeclared : (m'.declare .constKind c vs.head?.join).IsConstAt m.scopes.length c := by
    obtain ⟨s, hs⟩ := Option.isSome_iff_exists.1 (Machine.isSome_scopeAt?.2 hnesting.scopes.ge)
    refine ⟨s.declare .constKind c vs.head?.join, ?_, Scope.mem_consts_declare.2 (.inl ⟨rfl, rfl⟩)⟩
    rw [Machine.scopeAt?_declare, if_pos hnesting.scopes.symm, hs]
    rfl
  have hafter : Part.after limits ⟨levels, .stmt shown (.declare l .constKind c initial), m⟩ =
      (conclude limits levels shown (.declare l .constKind c initial) vs m').machine := hmachine
  rw [hafter]
  obtain h | ⟨note, h⟩ := conclude_declare_cases levels shown l .constKind c initial vs m'
  · rwa [h]
  · rwa [h]

end Part

/-! ## Assignments to constants -/

/-- The statement assigns the variable: directly, with an operator, or by counting. -/
inductive Stmt.Assigns (c : String) : Stmt → Prop
  | plain (l : Location) (e : Expr) : Stmt.Assigns c (.assign l c none e)
  | compound (l : Location) (e : Expr) {op : BinaryOp} : op ∈ Script.compoundOps →
    Stmt.Assigns c (.assign l c (some op) e)
  | update (l : Location) (delta : Int) : Stmt.Assigns c (.update l c delta)

namespace Script

open Exec

variable {limits : Limits} {c : String} {m : Machine}

theorem exists_combine_of_mem {op : BinaryOp} (h : op ∈ compoundOps) (left right : Slot) :
    ∃ v, op.combine left right = .ok v := by
  obtain ⟨v, hv⟩ : ∃ v, op.apply? left.orNull right.orNull = some v := by
    unfold compoundOps at h
    cases op with
    | add | sub | mul | div | mod => exact ⟨_, rfl⟩
    | _ => simp at h
  unfold BinaryOp.combine
  split
  · exact ⟨_, rfl⟩
  · exact ⟨_, rfl⟩
  · exact ⟨v, by rw [hv]⟩

/-- A declared name can be looked up. -/
theorem exists_lookup_of_declares (h : (m.scopeOf c).declares c = true) :
    ∃ v, m.lookup c = .ok v := by
  unfold Machine.lookup
  cases m.read? c with
  | some v => exact ⟨some v, rfl⟩
  | none =>
    have hdeclared : m.isDeclared c = true := h
    exact ⟨none, by simp [hdeclared]⟩

theorem assign_of_const (line : Nat) (v : Slot) (h : c ∈ (m.scopeOf c).consts) :
    Exec.assign line c v m = ⟨.error (.fault (.runtime (.constAssignment c) line)), m, 0⟩ := by
  have hassign : m.assign c v = .error (.constAssignment c) :=
    if_pos (List.contains_iff_mem.2 h)
  simp [Exec.assign, Exec.update, hassign, Except.map]

theorem assignVariable_of_const (line : Nat) (v : Slot) {op : Option BinaryOp}
    (hop : ∀ o ∈ op, o ∈ compoundOps) (hconst : c ∈ (m.scopeOf c).consts)
    (hdeclares : (m.scopeOf c).declares c = true) :
    EndAlike (assignVariable line c v op)
      (Exec.interrupt (.fault (.runtime (.constAssignment c) line))) m := by
  cases op with
  | none =>
    have hassign := assign_of_const line v hconst
    exact ⟨congrArg Outcome.result hassign, congrArg Outcome.machine hassign⟩
  | some op =>
    obtain ⟨old, hold⟩ := exists_lookup_of_declares hdeclares
    obtain ⟨w, hw⟩ := exists_combine_of_mem (hop op rfl) old v
    have hassign := assign_of_const line (some w) hconst
    exact (assignVariable_of_combine hold hw).trans
      ⟨congrArg Outcome.result hassign, congrArg Outcome.machine hassign⟩

/-- What remains of an assignment to a constant is its fault. -/
theorem conclude_of_const {s : Stmt} (hs : s.Assigns c) (levels : Nat) (shown : Bool)
    (vs : List Slot) (hconst : c ∈ (m.scopeOf c).consts)
    (hdeclares : (m.scopeOf c).declares c = true) :
    EndAlike (conclude limits levels shown s vs)
      (Exec.interrupt (.fault (.runtime (.constAssignment c) s.location.line))) m := by
  have hfault (line : Nat) (v : Slot) {op : Option BinaryOp} (hop : ∀ o ∈ op, o ∈ compoundOps) :=
    (assignVariable_of_const line v hop hconst hdeclares).bind fun _ => return Flow.normal
  cases hs with
  | plain l e => exact hfault l.line vs.head?.join (by simp)
  | compound l e hop => exact hfault l.line vs.head?.join (by simpa using hop)
  | update l delta => exact hfault l.line (some (.int delta)) (by simp [compoundOps])

variable (limits) in
/-- An assignment to a constant ends the run and stores nothing. -/
theorem toRun_of_const {program : Program} {q : Part} {shown : Bool} {s : Stmt} {vs : List Slot}
    {visits : Nat} (hq : (Part.ofProgram limits program).Reaches limits q)
    (hphrase : q.phrase = .stmt shown s) (hs : s.Assigns c)
    (hsteps : q.machine.steps < limits.stepBudget)
    (hoperands : evaluateAll (callWithin limits q.levels) s.location.line (s.operands q.machine)
      q.machine.ticked = ⟨.ok vs, m, visits⟩)
    (hconst : m.IsConstAt (m.levelOf c) c) :
    q.after limits = m ∧ (execute limits program).machine.globals = m.globals ∧
      ∀ lastLine, Outcome.toRun lastLine (execute limits program) =
        ⟨m.recorder.trace, m.recorder.output.toList,
          some (.runtime (.constAssignment c) s.location.line), false⟩ := by
  have hconsts := Machine.isConstAt_levelOf.1 hconst
  have hmem : m ∈ (Part.ofProgram limits program).trail limits := by
    have hafter : Part.after limits
        ⟨q.levels, .exprs s.location.line (s.operands q.machine), q.machine.ticked⟩ = m :=
      congrArg Outcome.machine hoperands
    exact hafter ▸ Part.after_mem_trail_of_reaches
      (hq.tail (Part.operands_mem_parts hphrase hsteps))
  have hdeclares : (m.scopeOf c).declares c = true :=
    Scope.declares_iff.2 ((Part.isTidy_of_mem_trail hmem (m.scopeAt?_levelOf c)).consts c hconsts)
  obtain ⟨hfault, hstill⟩ := conclude_of_const hs q.levels shown vs hconsts hdeclares
  obtain ⟨hresult, hmachine⟩ := exec_of_operands hsteps hoperands
  obtain ⟨levels, phrase, m₀⟩ := q
  cases hphrase
  have hafter : Part.after limits ⟨levels, .stmt shown s, m₀⟩ = m := hmachine.trans hstill
  obtain ⟨herror, hunwinds⟩ :=
    execute_of_reaches hq (congrArg (Except.map fun _ => ()) (hresult.trans hfault))
  rw [hafter] at hunwinds
  refine ⟨hafter, hunwinds.globals, fun lastLine => ?_⟩
  rw [Outcome.toRun, herror, hunwinds.trace, hunwinds.output]

/-- From the moment that `const c` completed in a scope until a `let` or a `var` of `c` is executed
in that scope, what the scope holds for `c` only changes by another `const c` in that scope or by a
push onto it; and an assignment that resolves to a constant ends the run and stores nothing. -/
theorem const_protected (limits : Limits) (program : Program) (c : String) :
    let run := Part.ofProgram limits program
    (∀ q shown l initial, run.Reaches limits q →
      q.phrase = .stmt shown (.declare l .constKind c initial) →
      (q.outcome limits).result = .ok () →
      (q.after limits).IsConstAt q.machine.scopes.length c) ∧
    (∀ m states k, (m :: states) <:+: run.trail limits →
      (∀ s ∈ m :: states, k ≤ s.scopes.length) → m.IsConstAt k c →
      ((m :: states).IsChain fun s s' =>
        ∀ kind, kind ≠ .constKind → ¬ run.Declares limits kind c k s s') →
      (∀ s ∈ states, s.IsConstAt k c) ∧ (m :: states).IsChain (run.KeepsConst limits c k)) ∧
    ∀ q shown s vs m visits, run.Reaches limits q → q.phrase = .stmt shown s → s.Assigns c →
      q.machine.steps < limits.stepBudget →
      evaluateAll (callWithin limits q.levels) s.location.line (s.operands q.machine)
        q.machine.ticked = ⟨.ok vs, m, visits⟩ →
      m.IsConstAt (m.levelOf c) c →
      q.after limits = m ∧ (execute limits program).machine.globals = m.globals ∧
        ∀ lastLine, Outcome.toRun lastLine (execute limits program) =
          ⟨m.recorder.trace, m.recorder.output.toList,
            some (.runtime (.constAssignment c) s.location.line), false⟩ :=
  ⟨fun _ _ _ _ _ hq hok => Part.isConstAt_of_declare hq hok,
    fun _ _ _ hstretch hthere hm hconst =>
      Part.isConstAt_along (Part.isChain_of_infix hstretch) hthere hconst hm,
    fun _ _ _ _ _ _ hq hphrase hs hsteps hoperands hconst =>
      toRun_of_const limits hq hphrase hs hsteps hoperands hconst⟩

/-- The program that declares a constant array, pushes an item onto it, and joins it with more. -/
def pushing : Program := [
  .declare ⟨1, 1⟩ .constKind "c" (some (.array [.literal (.int 1)])),
  .expression ⟨2, 1⟩ (.call (.member (.name "c") "push") [.literal (.int 2)]),
  .assign ⟨3, 1⟩ "c" (some .add) (.literal (.int 3))]

/-- Items can be pushed onto a constant array, which cannot be joined with more text. -/
theorem const_protected_pushing :
    let run := Part.ofProgram .standard pushing
    ∃ m m', [m, m'] <:+: run.trail .standard ∧ run.KeepsConst .standard "c" 0 m m' ∧
      m.slotAt 0 "c" = some (.array [.int 1]) ∧
      m'.slotAt 0 "c" = some (.array [.int 1, .int 2]) ∧
      (execute .standard pushing).machine.globals = m'.globals ∧
      (Outcome.toRun 3 (execute .standard pushing)).fault =
        some (.runtime (.constAssignment "c") 3) := by
  intro run
  obtain ⟨hdeclare, halong, hassign⟩ := const_protected .standard pushing "c"
  have hfirst : run.Reaches .standard ⟨_, .stmt true _, run.machine⟩ :=
    .single (Part.first_mem_parts _ _ _ _)
  have hconst := hdeclare _ _ _ _ hfirst rfl rfl
  have hsecond : run.Reaches .standard ⟨_, .body (pushing.drop 1), _⟩ :=
    .single (Part.rest_mem_parts rfl)
  have hthird : run.Reaches .standard ⟨_, .body (pushing.drop 2), _⟩ :=
    hsecond.tail (Part.rest_mem_parts rfl)
  have hcall : run.Reaches .standard ⟨_, .expr 2 _, _⟩ :=
    ((hsecond.tail (Part.first_mem_parts _ _ _ _)).tail
      (Part.operands_mem_parts rfl (by decide))).tail List.mem_cons_self
  -- The call makes its change after its only part, which evaluates the item.
  have hstretch := (Part.afters_infix_trail rfl).trans (Part.trail_infix_of_reaches hcall)
  have hkept := halong _ _ 0 hstretch (fun _ _ => Nat.zero_le _) hconst <|
    List.isChain_pair.2 fun kind hkind h => hkind (h.kind_eq ⟨_, rfl, by decide⟩)
  obtain ⟨-, hglobals, hfault⟩ := hassign _ _ _ _ _ _
    (hthird.tail (Part.first_mem_parts _ _ _ _)) rfl (.compound _ _ (by decide)) (by decide) rfl
    ⟨_, rfl, by decide⟩
  exact ⟨_, _, hstretch, List.isChain_pair.1 hkept.2, rfl, rfl, hglobals,
    congrArg Run.fault (hfault 3)⟩

/-- The program that declares a constant, declares its name again, and assigns it. -/
def redeclaring : Program := [
  .declare ⟨1, 1⟩ .constKind "c" (some (.literal (.int 1))),
  .declare ⟨2, 1⟩ .letKind "c" (some (.literal (.int 2))),
  .assign ⟨3, 1⟩ "c" none (.literal (.int 3))]

/-- Once `let c` is executed where `c` was constant, `c` can be assigned there. -/
theorem const_redeclared :
    let source := "const c = 1;\nlet c = 2;\nc = 3;\nconsole.log(c);\n"
    (run .standard source).fault = none ∧ (run .standard source).output = ["3"] ∧
    let run := Part.ofProgram .standard redeclaring
    ∃ q q' l l' e e', run.Reaches .standard q ∧
      q.phrase = .stmt true (.declare l .constKind "c" (some e)) ∧
      (q.outcome .standard).result = .ok () ∧ run.Reaches .standard q' ∧
      q'.phrase = .stmt true (.assign l' "c" none e') ∧
      q'.machine.levelOf "c" = q.machine.scopes.length ∧
      (q'.outcome .standard).result = .ok () ∧
      q'.machine.slotAt q.machine.scopes.length "c" = some (.int 2) ∧
      (q'.after .standard).slotAt q.machine.scopes.length "c" = some (.int 3) := by
  refine ⟨by decide +kernel, by decide +kernel, ?_⟩
  intro run
  have hfirst : run.Reaches .standard ⟨_, .stmt true _, run.machine⟩ :=
    .single (Part.first_mem_parts _ _ _ _)
  have hsecond : run.Reaches .standard ⟨_, .body (redeclaring.drop 1), _⟩ :=
    .single (Part.rest_mem_parts rfl)
  have hthird : run.Reaches .standard ⟨_, .body (redeclaring.drop 2), _⟩ :=
    hsecond.tail (Part.rest_mem_parts rfl)
  exact ⟨_, _, _, _, _, _, hfirst, rfl, rfl, hthird.tail (Part.first_mem_parts _ _ _ _), rfl, rfl,
    rfl, rfl, rfl⟩

end Script

end TraceTutor
