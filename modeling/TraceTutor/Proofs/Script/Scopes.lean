import TraceTutor.Proofs.NameMap
import TraceTutor.Proofs.Script.Trail

/-!
# Scopes along a run

A scope is tidy if it unsets no bound name and declares all of its constants. All scopes of a run
are tidy at all times (`Part.isTidy_of_mem_trail`), because a scope only changes by a declaration,
an assignment or a push (`Part.ScopeChange`). So a snapshot shows what the names of the program
yield.
-/

namespace TraceTutor

/-! ## Tidy scopes -/

namespace Scope

variable {s : Scope} {x y : String}

/-- No name is both bound and unset, and all constants are declared. -/
structure IsTidy (s : Scope) : Prop where
  disjoint : s.locals.names.Disjoint s.unset
  consts : ∀ x ∈ s.consts, x ∈ s.locals.names ∨ x ∈ s.unset

theorem declares_iff : s.declares x = true ↔ x ∈ s.locals.names ∨ x ∈ s.unset := by
  rw [declares, Bool.or_eq_true, NameMap.contains_iff_mem_names, List.contains_iff_mem]

theorem mem_names_iff {m : Bindings} : x ∈ m.names ↔ (m.get? x).isSome = true :=
  (NameMap.contains_iff_mem_names m x).symm

theorem mem_without {names : List String} : x ∈ without y names ↔ x ∈ names ∧ x ≠ y := by
  simp [without]

/-! ### What is stored -/

theorem get?_store (s : Scope) (y x : String) (v : Slot) :
    (s.store y v).locals.get? x = if x = y then v else s.locals.get? x := by
  cases v with
  | none => exact NameMap.get?_erase s.locals y x
  | some v => exact NameMap.get?_set s.locals y x v

theorem mem_unset_store {v : Slot} :
    x ∈ (s.store y v).unset ↔ x = y ∧ v = none ∨ x ≠ y ∧ x ∈ s.unset := by
  cases v with
  | none => simp only [store, List.mem_cons, mem_without]; tauto
  | some v => simp only [store, mem_without]; tauto

@[simp] theorem consts_store (s : Scope) (y : String) (v : Slot) :
    (s.store y v).consts = s.consts := by
  cases v <;> rfl

theorem declares_store {v : Slot} :
    (s.store y v).declares x = true ↔ x = y ∨ s.declares x = true := by
  rw [declares_iff, declares_iff, mem_names_iff, mem_names_iff, get?_store, mem_unset_store]
  by_cases h : x = y
  · cases v <;> simp [h]
  · simp [h]

theorem declares_declare {kind : DeclarationKind} {v : Slot} :
    (s.declare kind y v).declares x = true ↔ x = y ∨ s.declares x = true :=
  declares_store

theorem mem_consts_declare {kind : DeclarationKind} {v : Slot} :
    x ∈ (s.declare kind y v).consts ↔ x = y ∧ kind = .constKind ∨ x ≠ y ∧ x ∈ s.consts := by
  unfold declare
  dsimp only
  rw [consts_store]
  by_cases hkind : kind = .constKind
  · simp only [hkind, if_true, List.mem_cons, mem_without]
    tauto
  · simp only [hkind, if_false, mem_without]
    tauto

/-- The scope with another value of a name that is bound. -/
def rebind (s : Scope) (y : String) (v : Value) : Scope :=
  { s with locals := s.locals.set y v }

theorem declares_rebind {v : Value} (hy : y ∈ s.locals.names) :
    (s.rebind y v).declares x = true ↔ s.declares x = true := by
  rw [declares_iff, declares_iff, mem_names_iff, mem_names_iff, rebind, NameMap.get?_set]
  by_cases h : x = y
  · subst h
    simp [mem_names_iff.1 hy]
  · rw [if_neg h]

/-! ### Tidiness is kept -/

theorem isTidy_iff : s.IsTidy ↔
    (∀ x ∈ s.unset, s.locals.get? x = none) ∧ ∀ x ∈ s.consts, s.declares x = true := by
  have hdisjoint : s.locals.names.Disjoint s.unset ↔ ∀ x ∈ s.unset, s.locals.get? x = none := by
    simp only [List.disjoint_right, mem_names_iff, Option.isSome_iff_ne_none, not_not]
  rw [← hdisjoint]
  exact ⟨fun h => ⟨h.disjoint, fun x hx => declares_iff.2 (h.consts x hx)⟩,
    fun h => ⟨h.1, fun x hx => declares_iff.1 (h.2 x hx)⟩⟩

theorem isTidy_empty : Scope.empty.IsTidy :=
  isTidy_iff.2 ⟨by simp [empty], by simp [empty]⟩

theorem IsTidy.store (h : s.IsTidy) (y : String) (v : Slot) : (s.store y v).IsTidy := by
  obtain ⟨hunset, hconsts⟩ := isTidy_iff.1 h
  refine isTidy_iff.2 ⟨fun x hx => ?_, fun x hx => declares_store.2 (.inr (hconsts x ?_))⟩
  · rw [get?_store]
    obtain ⟨rfl, rfl⟩ | ⟨hne, hx⟩ := mem_unset_store.1 hx
    · exact if_pos rfl
    · exact (if_neg hne).trans (hunset x hx)
  · rwa [consts_store] at hx

theorem IsTidy.declare (h : s.IsTidy) (kind : DeclarationKind) (y : String) (initial : Slot) :
    (s.declare kind y initial).IsTidy := by
  have hstore := h.store y initial
  refine ⟨hstore.disjoint, fun x hx => declares_iff.1 (declares_declare.2 ?_)⟩
  exact (mem_consts_declare.1 hx).imp And.left fun hx => declares_iff.2 (h.consts x hx.2)

theorem IsTidy.ofCall (params : List String) (args : List Slot) : (ofCall params args).IsTidy := by
  have hgo (s : Scope) (hs : s.IsTidy) : (ofCall.go s params args).IsTidy := by
    induction params generalizing s args with
    | nil => exact hs
    | cons p ps ih => exact ih args.tail _ (hs.store p _)
  exact hgo .empty isTidy_empty

theorem IsTidy.rebind (h : s.IsTidy) {v : Value} (hy : y ∈ s.locals.names) :
    (s.rebind y v).IsTidy := by
  obtain ⟨hunset, hconsts⟩ := isTidy_iff.1 h
  refine isTidy_iff.2 ⟨fun x hx => ?_, fun x hx => (declares_rebind hy).2 (hconsts x hx)⟩
  have hne : x ≠ y := fun heq => h.disjoint (heq ▸ hy) hx
  exact (NameMap.get?_set s.locals y x v).trans ((if_neg hne).trans (hunset x hx))

/-- A name that a scope declares hides what outer bindings give it. -/
theorem get?_overlay (s : Scope) (outer : Bindings) (x : String) :
    (s.overlay outer).get? x = if s.declares x then s.locals.get? x else outer.get? x := by
  rw [overlay, NameMap.get?_extend, NameMap.get?_eraseAll]
  cases hx : s.locals.get? x with
  | some v =>
    have hdeclares : s.declares x = true :=
      declares_iff.2 (.inl (mem_names_iff.2 (by rw [hx]; rfl)))
    rw [if_pos hdeclares, Option.some_or]
  | none =>
    have hdeclares : s.declares x = true ↔ x ∈ s.unset := by
      rw [declares_iff, mem_names_iff, hx]
      simp
    rw [Option.none_or]
    exact if_congr hdeclares.symm rfl rfl

end Scope

/-! ## The scopes of a machine -/

namespace Machine

variable {m m' : Machine} {x : String} {k : Nat}

/-- The scopes, counted from the outside: the global one comes first, and the one of the innermost
call last. -/
def scopeAt? (m : Machine) (k : Nat) : Option Scope :=
  (m.globals :: m.scopes.reverse)[k]?

/-- The scope of a number is there and declares the name. -/
def DeclaresAt (m : Machine) (k : Nat) (x : String) : Prop :=
  ∃ s, m.scopeAt? k = some s ∧ s.declares x = true

/-- The number of the scope that a name belongs to. -/
def levelOf (m : Machine) (x : String) : Nat :=
  match m.scopes with
  | [] => 0
  | scope :: _ => if scope.declares x then m.scopes.length else 0

theorem isSome_scopeAt? : (m.scopeAt? k).isSome = true ↔ k ≤ m.scopes.length := by
  rw [scopeAt?, Option.isSome_iff_ne_none, Ne, List.getElem?_eq_none_iff, List.length_cons,
    List.length_reverse]
  omega

theorem scopeAt?_of_cons {scope : Scope} {outer : List Scope} (h : m.scopes = scope :: outer)
    (k : Nat) : m.scopeAt? k =
      if k = m.scopes.length then some scope else (m.globals :: outer.reverse)[k]? := by
  have hlength : (m.globals :: outer.reverse).length = m.scopes.length := by simp [h]
  rw [scopeAt?, h, List.reverse_cons, ← List.cons_append, ← h, ← hlength]
  split
  next heq => rw [heq, List.getElem?_concat_length]
  next hne =>
    obtain hlt | hgt := Nat.lt_or_gt_of_ne hne
    · exact List.getElem?_append_left hlt
    · have hlong : (m.globals :: outer.reverse ++ [scope]).length ≤ k := by
        rw [List.length_append, List.length_singleton]
        exact hgt
      rw [List.getElem?_eq_none hlong, List.getElem?_eq_none (Nat.le_of_lt hgt)]

theorem scopeAt?_levelOf (m : Machine) (x : String) :
    m.scopeAt? (m.levelOf x) = some (m.scopeOf x) := by
  unfold levelOf scopeOf
  cases h : m.scopes with
  | nil => rfl
  | cons scope outer =>
    dsimp only
    split
    · rw [scopeAt?_of_cons h, if_pos (by rw [h])]
    · rfl

theorem scopeAt?_updateScopeOf (m : Machine) (x : String) (change : Scope → Scope) (k : Nat) :
    (m.updateScopeOf x change).scopeAt? k =
      if k = m.levelOf x then (m.scopeAt? k).map change else m.scopeAt? k := by
  unfold updateScopeOf levelOf
  cases h : m.scopes with
  | nil => cases k <;> simp [scopeAt?, h]
  | cons scope outer =>
    dsimp only
    split
    · rw [scopeAt?_of_cons rfl, scopeAt?_of_cons h, h]
      simp only [List.length_cons]
      split <;> rfl
    · cases k <;> simp [scopeAt?, h]

/-- Only the scope that the name belongs to is updated. -/
theorem scope_of_updateScopeOf {change : Scope → Scope} {s' : Scope}
    (h : (m.updateScopeOf x change).scopeAt? k = some s') :
    m.scopeAt? k = some s' ∨
      m.levelOf x = k ∧ m.scopeAt? k = some (m.scopeOf x) ∧ s' = change (m.scopeOf x) := by
  rw [scopeAt?_updateScopeOf] at h
  split at h
  next hk =>
    subst hk
    rw [scopeAt?_levelOf] at h
    exact .inr ⟨rfl, scopeAt?_levelOf m x, (Option.some.inj h).symm⟩
  next => exact .inl h

theorem scopeAt?_declare (m : Machine) (kind : DeclarationKind) (x : String) (v : Slot) (k : Nat) :
    (m.declare kind x v).scopeAt? k =
      if k = m.scopes.length then (m.scopeAt? k).map (·.declare kind x v) else m.scopeAt? k := by
  unfold declare
  cases h : m.scopes with
  | nil => cases k <;> simp [scopeAt?, h]
  | cons scope outer =>
    dsimp only
    rw [scopeAt?_of_cons rfl, scopeAt?_of_cons h, h]
    simp only [List.length_cons]
    split <;> rfl

theorem scopeAt?_enterCall (m : Machine) (name : String) (procedure : Procedure) (args : List Slot)
    (line k : Nat) :
    (m.enterCall name procedure args line).scopeAt? k =
      if k = m.scopes.length + 1 then some (.ofCall procedure.params args) else m.scopeAt? k := by
  have hscopes : (m.enterCall name procedure args line).scopes =
      .ofCall procedure.params args :: m.scopes := scopes_hoist _ _
  have hglobals : (m.enterCall name procedure args line).globals = m.globals := globals_hoist _ _
  rw [scopeAt?_of_cons hscopes, hscopes, hglobals]
  rfl

theorem scopeAt?_leaveCall {s : Scope} {loopDepth : Nat}
    (h : (m.leaveCall loopDepth).scopeAt? k = some s) : m.scopeAt? k = some s := by
  have hrest : (m.globals :: m.scopes.tail.reverse)[k]? = some s := h
  cases hscopes : m.scopes with
  | nil =>
    rw [hscopes] at hrest
    rwa [scopeAt?, hscopes]
  | cons scope outer =>
    rw [hscopes, List.tail_cons] at hrest
    obtain ⟨hlt, -⟩ := List.getElem?_eq_some_iff.1 hrest
    have hk : k ≠ m.scopes.length := by
      simp only [List.length_cons, List.length_reverse] at hlt
      simp only [hscopes, List.length_cons]
      omega
    rwa [scopeAt?_of_cons hscopes, if_neg hk]

theorem eq_of_assign {v : Slot} (h : m.assign x v = .ok m') :
    x ∉ (m.scopeOf x).consts ∧ m' = m.updateScopeOf x (·.store x v) := by
  unfold assign at h
  split at h
  · cases h
  next hconst =>
    cases h
    exact ⟨by simpa using hconst, rfl⟩

theorem eq_of_push {items : List Value} {length : Value} (h : m.push x items = .ok (length, m')) :
    ∃ old array, (m.scopeOf x).locals.get? x = some old ∧ old.push? items = some (array, length) ∧
      m' = m.updateScopeOf x (·.rebind x array) := by
  unfold push at h
  split at h
  · cases h
  next old hold =>
    split at h
    · cases h
    next array length' hpush =>
      cases h
      exact ⟨old, array, hold, hpush, rfl⟩

end Machine

/-! ## What a run does to its scopes -/

namespace Part

open Script

/-- What a part may do itself to a scope of the machine. -/
inductive ScopeChange (p : Part) (m : Machine) (k : Nat) (s : Scope) : Scope → Prop
  | none : p.ScopeChange m k s s
  | declare {shown : Bool} {l : Location} {kind : DeclarationKind} {x : String}
      {initial : Option Expr} (v : Slot) : p.phrase = .stmt shown (.declare l kind x initial) →
      p.machine.scopes.length = k → p.ScopeChange m k s (s.declare kind x v)
  | assign {shown : Bool} {stmt : Stmt} {x : String} (v : Slot) : p.phrase = .stmt shown stmt →
      stmt.target? = some x → m.levelOf x = k → x ∉ s.consts → p.ScopeChange m k s (s.store x v)
  | push {line : Nat} {f : Expr} {args : List Expr} {x : String} {items : List Value}
      {old array length : Value} : p.phrase = .expr line (.call f args) → f.callee = .push x →
      m.levelOf x = k → s.locals.get? x = some old → old.push? items = some (array, length) →
      p.ScopeChange m k s (s.rebind x array)

variable {limits : Limits} {p : Part} {m m' : Machine} {k : Nat} {s' : Scope}

/-- A scope that is there after a change was changed, or a call entered it. -/
theorem scopeChange_of_own (h : p.Own limits m m') (hs' : m'.scopeAt? k = some s') :
    (∃ s, m.scopeAt? k = some s ∧ p.ScopeChange m k s s') ∨
      k = m.scopes.length + 1 ∧ ∃ params args, s' = .ofCall params args := by
  have hdeclare {shown : Bool} {l : Location} {kind : DeclarationKind} {x : String}
      {initial : Option Expr} (v : Slot) (hp : p.phrase = .stmt shown (.declare l kind x initial))
      (hscopes : m.scopes.length = p.machine.scopes.length)
      (hs' : (m.declare kind x v).scopeAt? k = some s') :
      ∃ s, m.scopeAt? k = some s ∧ p.ScopeChange m k s s' := by
    rw [Machine.scopeAt?_declare] at hs'
    split at hs'
    next hk =>
      obtain ⟨s, hs, rfl⟩ := Option.map_eq_some_iff.1 hs'
      exact ⟨s, hs, .declare v hp (hscopes.symm.trans hk.symm)⟩
    next => exact ⟨s', hs', .none⟩
  cases h with
  | exits hexit =>
    cases hexit with
    | still | loop => exact .inl ⟨s', hs', .none⟩
    | call => exact .inl ⟨s', Machine.scopeAt?_leaveCall hs', .none⟩
  | tick | enterLoop | log | capture | define => exact .inl ⟨s', hs', .none⟩
  | enterCall _ name procedure args line =>
    rw [Machine.scopeAt?_enterCall] at hs'
    split at hs'
    next hk =>
      cases hs'
      exact .inr ⟨hk, procedure.params, args, rfl⟩
    next => exact .inl ⟨s', hs', .none⟩
  | declare v hp hscopes => exact .inl (hdeclare v hp hscopes hs')
  | declareShown v line note hp hscopes => exact .inl (hdeclare v hp hscopes hs')
  | assign hp htarget hassign =>
    obtain ⟨hconst, rfl⟩ := Machine.eq_of_assign hassign
    obtain hs | ⟨hk, hs, rfl⟩ := Machine.scope_of_updateScopeOf hs'
    · exact .inl ⟨s', hs, .none⟩
    · exact .inl ⟨_, hs, .assign _ hp htarget hk hconst⟩
  | push hp hcallee hpush =>
    obtain ⟨old, array, hold, harray, rfl⟩ := Machine.eq_of_push hpush
    obtain hs | ⟨hk, hs, rfl⟩ := Machine.scope_of_updateScopeOf hs'
    · exact .inl ⟨s', hs, .none⟩
    · exact .inl ⟨_, hs, .push hp hcallee hk hold harray⟩

namespace ScopeChange

variable {s : Scope}

theorem isTidy (h : p.ScopeChange m k s s') (hs : s.IsTidy) : s'.IsTidy := by
  cases h with
  | none => exact hs
  | declare v => exact hs.declare _ _ v
  | assign v => exact hs.store _ v
  | push _ _ _ hold => exact hs.rebind (Scope.mem_names_iff.2 (by rw [hold]; rfl))

theorem declares {x : String} (h : p.ScopeChange m k s s') (hx : s.declares x = true) :
    s'.declares x = true := by
  cases h with
  | none => exact hx
  | declare v => exact Scope.declares_declare.2 (.inr hx)
  | assign v => exact Scope.declares_store.2 (.inr hx)
  | push _ _ _ hold =>
    exact (Scope.declares_rebind (Scope.mem_names_iff.2 (by rw [hold]; rfl))).2 hx

end ScopeChange

/-! ### Along the trail -/

/-- A name that a scope declares stays declared as long as the scope is there. -/
theorem declaresAt_of_changes {x : String} (h : p.Changes limits m m') (hm : k ≤ m.scopes.length)
    (hm' : k ≤ m'.scopes.length) (hx : m.DeclaresAt k x) : m'.DeclaresAt k x := by
  obtain ⟨q, -, hown⟩ := h
  obtain ⟨s, hs, hx⟩ := hx
  obtain ⟨s', hs'⟩ := Option.isSome_iff_exists.1 (Machine.isSome_scopeAt?.2 hm')
  obtain ⟨_, hs₁, hchange⟩ | ⟨hk, -⟩ := scopeChange_of_own hown hs'
  · cases hs.symm.trans hs₁
    exact ⟨s', hs', hchange.declares hx⟩
  · omega

theorem isTidy_of_changes (h : p.Changes limits m m')
    (hm : ∀ k s, m.scopeAt? k = some s → s.IsTidy) : ∀ k s, m'.scopeAt? k = some s → s.IsTidy := by
  intro k s' hs'
  obtain ⟨q, -, hown⟩ := h
  obtain ⟨s, hs, hchange⟩ | ⟨-, params, args, rfl⟩ := scopeChange_of_own hown hs'
  · exact hchange.isTidy (hm k s hs)
  · exact .ofCall params args

/-- All scopes of a run are tidy at all times. -/
theorem isTidy_of_mem_trail {program : Program} (h : m ∈ (ofProgram limits program).trail limits)
    {s : Scope} (hs : m.scopeAt? k = some s) : s.IsTidy := by
  suffices hall : ∀ m ∈ (ofProgram limits program).trail limits,
      ∀ k s, m.scopeAt? k = some s → s.IsTidy from hall m h k s hs
  refine forall_mem_trail ?_ fun m m' hm _ => isTidy_of_changes hm
  intro k s hs
  have hinitial : Machine.initial.scopeAt? k = some s := by
    rwa [Machine.scopeAt?, ofProgram, Machine.globals_hoist, Machine.scopes_hoist] at hs
  cases k with
  | zero =>
    cases hinitial
    exact Scope.isTidy_empty
  | succ k => cases hinitial

/-- A change records at most one snapshot, and that one shows the machine after it. -/
theorem trace_of_own (h : p.Own limits m m') : m'.recorder.trace = m.recorder.trace ∨
    ∃ snapshot, m'.recorder.trace = m.recorder.trace ++ [snapshot] ∧
      snapshot.bindings = m'.visible := by
  cases h with
  | exits hexit => cases hexit <;> exact .inl rfl
  | tick | enterLoop | log | define => exact .inl rfl
  | enterCall =>
    left
    rw [Machine.enterCall, Machine.recorder_hoist]
    rfl
  | declare => exact .inl (by rw [Machine.recorder_declare])
  | assign _ _ hassign =>
    obtain ⟨-, rfl⟩ := Machine.eq_of_assign hassign
    exact .inl (by rw [Machine.recorder_updateScopeOf])
  | push _ _ hpush =>
    obtain ⟨-, -, -, -, rfl⟩ := Machine.eq_of_push hpush
    exact .inl (by rw [Machine.recorder_updateScopeOf])
  | capture line note => exact .inr ⟨_, Recorder.trace_commit .., rfl⟩
  | @declareShown _ _ kind x _ _ v line note =>
    have htrace : ((m.declare kind x v).capture line note).recorder.trace =
        (m.declare kind x v).recorder.trace ++ _ := Recorder.trace_commit ..
    rw [Machine.recorder_declare] at htrace
    exact .inr ⟨_, htrace, rfl⟩

/-- Every snapshot was the latest one at some machine of the trail, and shows that machine. -/
theorem exists_mem_trail_of_mem_trace (hp : p.machine.recorder.trace = [])
    (h : m ∈ p.trail limits) {snapshot : Snapshot} (hsnapshot : snapshot ∈ m.recorder.trace) :
    ∃ m' ∈ p.trail limits, m'.recorder.trace.getLast? = some snapshot ∧
      snapshot.bindings = m'.visible := by
  suffices hall : ∀ m ∈ p.trail limits, ∀ snapshot ∈ m.recorder.trace, ∃ m' ∈ p.trail limits,
      m'.recorder.trace.getLast? = some snapshot ∧ snapshot.bindings = m'.visible from
    hall m h snapshot hsnapshot
  refine forall_mem_trail ?_ ?_
  · simp [hp]
  · rintro m m' ⟨q, -, hown⟩ hm' hm snapshot hsnapshot
    obtain htrace | ⟨latest, htrace, hlatest⟩ := trace_of_own hown
    · exact hm snapshot (htrace ▸ hsnapshot)
    · rw [htrace, List.mem_append, List.mem_singleton] at hsnapshot
      obtain hsnapshot | rfl := hsnapshot
      · exact hm snapshot hsnapshot
      · exact ⟨m', hm', by rw [htrace, List.getLast?_concat], hlatest⟩

end Part

/-! ## What snapshots show -/

namespace Machine

theorem get?_visible (m : Machine) (x : String) : m.visible.get? x = m.read? x := by
  unfold visible read? scopeOf
  cases m.scopes with
  | nil => rfl
  | cons scope outer =>
    dsimp only
    rw [Scope.get?_overlay]
    split <;> rfl

theorem lookup_eq_ok_some_iff {m : Machine} {x : String} {v : Value} :
    m.lookup x = .ok (some v) ↔ m.read? x = some v := by
  unfold lookup
  cases m.read? x with
  | some w => simp
  | none =>
    dsimp only
    split
    · simp
    · split <;> simp

end Machine

namespace Script

theorem evaluate_name_eq_iff {call : CallAction} {line : Nat} {x : String} {v : Value}
    {m : Machine} : (evaluate call line (.name x) m).result = .ok (some v) ↔
      m.visible.get? x = some v := by
  rw [Machine.get?_visible, ← Machine.lookup_eq_ok_some_iff, evaluate]
  unfold Exec.visit Exec.lookup
  cases m.lookup x with
  | ok w => simp [Exec.ofExcept, Exec.pure]
  | error cause => simp [Exec.ofExcept, Exec.interrupt]

/-- Snapshots show exactly what the names of the program yield, since the scopes of a run are tidy
and keep the names that they declare. -/
theorem captures_show_lookups (limits : Limits) (program : Program) :
    let run := Part.ofProgram limits program
    (∀ m ∈ run.trail limits,
      (∀ k s, m.scopeAt? k = some s →
        s.locals.names.Disjoint s.unset ∧ ∀ x ∈ s.consts, x ∈ s.locals.names ∨ x ∈ s.unset) ∧
      ∀ line note, ∃ snapshot,
        (m.capture line note).recorder.trace = m.recorder.trace ++ [snapshot] ∧
        ∀ call x v, snapshot.bindings.get? x = some v ↔
          (evaluate call line (.name x) m).result = .ok (some v)) ∧
    (∀ m states k x, (m :: states) <:+: run.trail limits →
      (∀ s ∈ m :: states, k ≤ s.scopes.length) → m.DeclaresAt k x →
      ∀ s ∈ states, s.DeclaresAt k x) ∧
    ∀ snapshot ∈ (execute limits program).machine.recorder.trace, ∃ m ∈ run.trail limits,
      m.recorder.trace.getLast? = some snapshot ∧
      ∀ call line x v, snapshot.bindings.get? x = some v ↔
        (evaluate call line (.name x) m).result = .ok (some v) := by
  intro run
  refine ⟨fun m hm => ⟨fun k s hs => ?_, fun line note => ?_⟩, ?_, fun snapshot hsnapshot => ?_⟩
  · have htidy := Part.isTidy_of_mem_trail hm hs
    exact ⟨htidy.disjoint, htidy.consts⟩
  · exact ⟨_, Recorder.trace_commit .., fun call x v => evaluate_name_eq_iff.symm⟩
  · intro m states k x hstretch hthere hx
    exact Part.forall_mem_of_isChain (Part.isChain_of_infix hstretch) hthere
      (fun s s' h hs hs' => Part.declaresAt_of_changes h hs hs') hx
  · have hstart : run.machine.recorder.trace = [] :=
      congrArg Recorder.trace (Machine.recorder_hoist Machine.initial program)
    obtain ⟨m, hm, hlatest, hbindings⟩ := Part.exists_mem_trail_of_mem_trace hstart
      (Part.after_mem_trail limits run) hsnapshot
    refine ⟨m, hm, hlatest, fun call line x v => ?_⟩
    rw [hbindings]
    exact evaluate_name_eq_iff.symm

/-- An argument that is missing hides the global variable of its name. -/
example : ((run .standard "let a = 1;\nfunction f(a) \x7b\n  let b = 2;\n\x7d\nf();\n").trace.map
    fun snapshot => snapshot.bindings.names) = [["a"], ["b"], ["a"], ["a"]] := by
  decide +kernel

end Script

end TraceTutor
