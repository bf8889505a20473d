import TraceTutor.Proofs.Script.Constants

/-!
# Counting and subtraction

`x--` adds `-1` to a variable, and `x -= 1` subtracts `1` from it. Both end alike as long as the
variable holds no string, array or object, which `+` joins with the text of its operand; so `--`
turns the string `5` into `5-1` (`update_endAlike_iff`). The same holds of `x++` and `x -= -1`.
-/

namespace TraceTutor

namespace Value

/-- A value whose text `+` joins with its operand. -/
def Joins (v : Value) : Prop :=
  v.isString = true ∨ v.isCompound = true

theorem isString_ofBinary64 (x : Binary64) : (ofBinary64 x).isString = false := by
  unfold ofBinary64
  split
  · split <;> rfl
  · rfl

theorem isString_arithmetic (op : BinaryOp) (v w : Value) :
    (arithmetic op v w).isString = false := by
  unfold arithmetic
  dsimp only
  split
  · rfl
  · exact isString_ofBinary64 _

theorem add_of_joins {v : Value} (h : v.Joins) (w : Value) : (v.add w).isString = true := by
  unfold add
  rw [if_pos]
  · rfl
  · obtain h | h := h <;> simp [h]

theorem add_int_of_not_joins {v : Value} (h : ¬ v.Joins) (n : Int) :
    v.add (.int n) = arithmetic .add v (.int n) := by
  unfold add
  rw [if_neg]
  unfold Joins at h
  simpa [Value.int, isString, isCompound] using h

/-- Adding a number is subtracting its opposite. -/
theorem arithmetic_add_int {d : Int} (hd : d = 1 ∨ d = -1) (v : Value) :
    arithmetic .add v (.int d) = arithmetic .sub v (.int (-d)) := by
  have hexact : (Value.int d).exactInt? = some d ∧ (Value.int (-d)).exactInt? = some (-d) := by
    obtain rfl | rfl := hd <;> exact ⟨rfl, rfl⟩
  have hneg : (Value.int d).toBinary64 = (Value.int (-d)).toBinary64.neg := by
    obtain rfl | rfl := hd <;> decide +kernel
  have hfloat : floatArithmetic .add v.toBinary64 (Value.int d).toBinary64 =
      floatArithmetic .sub v.toBinary64 (Value.int (-d)).toBinary64 :=
    congrArg v.toBinary64.add hneg
  unfold arithmetic
  rw [hexact.1, hexact.2, hfloat]
  cases v.exactInt? with
  | none => rfl
  | some n => simp [intArithmetic?]

end Value

namespace Script

open Exec

variable {x : String} {m : Machine} {d : Int}

/-! ## What is assigned -/

theorem combine_sub (old : Slot) (n : Int) :
    BinaryOp.sub.combine old (some (.int n)) =
      .ok (Value.arithmetic .sub old.orNull (.int n)) := rfl

theorem combine_add (old : Slot) (n : Int) :
    BinaryOp.add.combine old (some (.int n)) = .ok (old.orNull.add (.int n)) := by
  cases old with
  | none => rfl
  | some v => cases v <;> rfl

/-- The sum and the difference are the same value unless texts are joined. -/
theorem add_eq_sub_iff (hd : d = 1 ∨ d = -1) (v : Value) :
    v.add (.int d) = .arithmetic .sub v (.int (-d)) ↔ ¬ v.Joins := by
  refine ⟨fun h hjoins => ?_, fun h => ?_⟩
  · have hstring := Value.add_of_joins hjoins (.int d)
    rw [h, Value.isString_arithmetic] at hstring
    cases hstring
  · rw [Value.add_int_of_not_joins h, Value.arithmetic_add_int hd]

/-! ## Assignments that end alike -/

/-- A machine that was assigned one value was assigned no other one. -/
theorem assign_inj {v w : Value} {m' : Machine} (hv : m.assign x (some v) = .ok m')
    (hw : m.assign x (some w) = .ok m') : v = w := by
  obtain ⟨-, hv⟩ := Machine.eq_of_assign hv
  obtain ⟨-, hw⟩ := Machine.eq_of_assign hw
  have hscope (v : Value) (h : m' = m.updateScopeOf x (·.store x (some v))) :
      (m'.scopeAt? (m.levelOf x)).bind (·.locals.get? x) = some v := by
    rw [h, Machine.scopeAt?_updateScopeOf, if_pos rfl, Machine.scopeAt?_levelOf]
    exact (Scope.get?_store _ x x _).trans (if_pos rfl)
  exact Option.some.inj ((hscope v hv).symm.trans (hscope w hw))

/-- Two assignments of a variable end alike exactly if they assign the same value or fault. -/
theorem assign_endAlike_iff (line : Nat) (v w : Value) :
    EndAlike (Exec.assign line x (some v)) (Exec.assign line x (some w)) m ↔
      (x ∉ (m.scopeOf x).consts → v = w) := by
  by_cases hconst : x ∈ (m.scopeOf x).consts
  · refine iff_of_true ?_ fun h => absurd hconst h
    rw [EndAlike, assign_of_const line _ hconst, assign_of_const line _ hconst]
    exact ⟨rfl, rfl⟩
  · have hassign (v : Value) : m.assign x (some v) =
        .ok (m.updateScopeOf x (·.store x (some v))) := if_neg (by simpa using hconst)
    have hexec (v : Value) : Exec.assign line x (some v) m =
        ⟨.ok (), m.updateScopeOf x (·.store x (some v)), 0⟩ := by
      simp [Exec.assign, Exec.update, hassign, Except.map]
    rw [EndAlike, hexec, hexec]
    refine ⟨fun h _ => assign_inj (hassign v) ((hassign w).trans (congrArg Except.ok h.2.symm)),
      fun h => ?_⟩
    rw [h hconst]
    exact ⟨rfl, rfl⟩

/-- What a name yields is what it is bound to, if anything. -/
theorem joins_orNull_iff {old : Slot} (hold : m.lookup x = .ok old) :
    old.orNull.Joins ↔ ∃ v, m.read? x = some v ∧ v.Joins := by
  cases hread : m.read? x with
  | some v =>
    cases hold.symm.trans (Machine.lookup_eq_ok_some_iff.2 hread)
    simp [Slot.orNull]
  | none =>
    have hnone : old = none := by
      cases old with
      | none => rfl
      | some v => exact absurd (Machine.lookup_eq_ok_some_iff.1 hold) (by simp [hread])
    rw [hnone]
    simp [Slot.orNull, Value.Joins, Value.isString, Value.isCompound]

/-- Adding and subtracting the opposite end alike exactly if the variable is constant or holds
nothing that `+` joins. -/
theorem assignVariable_endAlike_iff (hd : d = 1 ∨ d = -1) (line : Nat) (x : String) (m : Machine) :
    EndAlike (assignVariable line x (some (.int d)) (some .add))
      (assignVariable line x (some (.int (-d))) (some .sub)) m ↔
    (x ∉ (m.scopeOf x).consts → ∀ v, m.read? x = some v → ¬ v.Joins) := by
  cases hold : m.lookup x with
  | error cause =>
    have hread (v : Value) : m.read? x ≠ some v := fun h => by
      rw [Machine.lookup_eq_ok_some_iff.2 h] at hold
      cases hold
    refine iff_of_true ?_ fun _ v h => absurd h (hread v)
    rw [EndAlike, assignVariable_of_lookup_error hold, assignVariable_of_lookup_error hold]
    exact ⟨rfl, rfl⟩
  | ok old =>
    have hadd : EndAlike (assignVariable line x (some (.int d)) (some .add)) _ m :=
      assignVariable_of_combine hold (combine_add old d)
    have hsub : EndAlike (assignVariable line x (some (.int (-d))) (some .sub)) _ m :=
      assignVariable_of_combine hold (combine_sub old (-d))
    have hassign := assign_endAlike_iff (x := x) (m := m) line (old.orNull.add (.int d))
      (.arithmetic .sub old.orNull (.int (-d)))
    rw [add_eq_sub_iff hd, joins_orNull_iff hold] at hassign
    refine ⟨fun h hconst v hv hjoins => ?_, fun h => hadd.trans (.trans (hassign.2 ?_) hsub.symm)⟩
    · exact hassign.1 (hadd.symm.trans (h.trans hsub)) hconst ⟨v, hv, hjoins⟩
    · rintro hconst ⟨v, hv, hjoins⟩
      exact h hconst v hv hjoins

/-! ## Statements that end alike -/

theorem endAlike_bind_normal_iff {a b : Exec Unit} :
    EndAlike (do a; return Flow.normal) (do b; return Flow.normal) m ↔ EndAlike a b m := by
  have heq (a : Exec Unit) : (do a; return Flow.normal : Exec Flow) m =
      ⟨(a m).result.map fun _ => Flow.normal, (a m).machine, (a m).visits⟩ :=
    bind_pure_eq a (fun _ => Flow.normal) m
  have hinjective (r r' : Except Interrupt Unit) :
      (r.map fun _ => Flow.normal) = (r'.map fun _ => Flow.normal) ↔ r = r' := by
    cases r <;> cases r' <;> simp [Except.map]
  rw [EndAlike, EndAlike, heq, heq, hinjective]

theorem endAlike_tick_iff {α : Type} {budget : Nat} {a b : Exec α} :
    EndAlike (do Exec.tick budget; a) (do Exec.tick budget; b) m ↔
      (m.steps < budget → EndAlike a b m.ticked) := by
  obtain hsteps | hsteps := Nat.lt_or_ge m.steps budget
  · rw [EndAlike, bind_of_ok (tick_of_lt hsteps), bind_of_ok (tick_of_lt hsteps)]
    exact ⟨fun h _ => h, fun h => h hsteps⟩
  · rw [EndAlike, bind_of_error (tick_of_le hsteps), bind_of_error (tick_of_le hsteps)]
    exact ⟨fun _ h => absurd h (Nat.not_lt.2 hsteps), fun _ => ⟨rfl, rfl⟩⟩

/-- Counting and the subtraction of a number end alike exactly if the variable can be assigned and
holds nothing that `+` joins, or neither assigns it. -/
theorem exec_update_endAlike_iff (hd : d = 1 ∨ d = -1) (budget : Nat) (call : CallAction)
    (shown : Bool) (l : Location) (x : String) {e : Expr}
    (he : ∀ m, ∃ visits, evaluate call l.line e m = ⟨.ok (some (.int (-d))), m, visits⟩)
    (m : Machine) :
    EndAlike (exec budget call shown (.update l x d))
      (exec budget call shown (.assign l x (some .sub) e)) m ↔
    (m.steps < budget → x ∉ (m.scopeOf x).consts → ∀ v, m.read? x = some v → ¬ v.Joins) := by
  have hassign : EndAlike (exec budget call shown (.assign l x (some .sub) e)) (do
      Exec.tick budget
      assignVariable l.line x (some (.int (-d))) (some .sub)
      return .normal) m := by
    unfold exec
    refine (EndAlike.visit _ m).trans (.bind_right fun _ _ => ?_)
    change EndAlike (evaluate call l.line e >>= fun v => do
      assignVariable l.line x v (some .sub)
      return Flow.normal) _ _
    obtain ⟨visits, hvalue⟩ := he (Exec.tick budget m).machine
    rw [EndAlike, bind_of_ok hvalue]
    exact ⟨rfl, rfl⟩
  have hupdate : EndAlike (exec budget call shown (.update l x d)) (do
      Exec.tick budget
      assignVariable l.line x (some (.int d)) (some .add)
      return .normal) m := by
    unfold exec
    exact EndAlike.visit _ m
  have hforms : EndAlike
      (do Exec.tick budget; assignVariable l.line x (some (.int d)) (some .add); return Flow.normal)
      (do Exec.tick budget; assignVariable l.line x (some (.int (-d))) (some .sub); return .normal)
      m ↔ _ := endAlike_tick_iff
  rw [endAlike_bind_normal_iff, assignVariable_endAlike_iff hd] at hforms
  exact ⟨fun h => hforms.1 (hupdate.symm.trans (h.trans hassign)),
    fun h => hupdate.trans ((hforms.2 h).trans hassign.symm)⟩

/-- From every state, `x--` ends as `x -= 1` does and `x++` as `x -= -1` does, exactly if no step is
left, or `x` is constant, or `x` holds no string, array or object. -/
theorem update_endAlike_iff (budget : Nat) (call : CallAction) (shown : Bool) (l : Location)
    (x : String) (m : Machine) :
    (EndAlike (exec budget call shown (.update l x (-1)))
        (exec budget call shown (.assign l x (some .sub) (.literal (.int 1)))) m ↔
      (m.steps < budget → x ∉ (m.scopeOf x).consts → ∀ v, m.read? x = some v → ¬ v.Joins)) ∧
    (EndAlike (exec budget call shown (.update l x 1))
        (exec budget call shown (.assign l x (some .sub) (.unary .neg (.literal (.int 1))))) m ↔
      (m.steps < budget → x ∉ (m.scopeOf x).consts → ∀ v, m.read? x = some v → ¬ v.Joins)) := by
  have hone (m : Machine) : evaluate call l.line (.literal (.int 1)) m =
      ⟨.ok (some (.int 1)), m, 1⟩ := rfl
  have hminusOne (m : Machine) : evaluate call l.line (.unary .neg (.literal (.int 1))) m =
      ⟨.ok (some (.int (-1))), m, 2⟩ := rfl
  exact ⟨exec_update_endAlike_iff (.inr rfl) budget call shown l x (fun m => ⟨1, hone m⟩) m,
    exec_update_endAlike_iff (.inl rfl) budget call shown l x (fun m => ⟨2, hminusOne m⟩) m⟩

/-! ## A string that is counted down -/

/-- The machine after `let s = "5"`. -/
def textMachine : Machine :=
  (execute .standard [.declare ⟨1, 1⟩ .letKind "s" (some (.literal (.string "5")))]).machine

/-- What `s` shows after a statement. -/
def shownText (s : Stmt) : Option String :=
  ((exec 10000 (call .standard) true s textMachine).machine.read? "s").map Value.display

/-- `s--` joins the text of a string with `-1`, while `s -= 1` subtracts from its number. -/
theorem update_ne_subtraction :
    shownText (.update ⟨2, 1⟩ "s" (-1)) = some "5-1" ∧
    shownText (.assign ⟨2, 1⟩ "s" (some .sub) (.literal (.int 1))) = some "4" ∧
    ¬ EndAlike (exec 10000 (call .standard) true (.update ⟨2, 1⟩ "s" (-1)))
      (exec 10000 (call .standard) true (.assign ⟨2, 1⟩ "s" (some .sub) (.literal (.int 1))))
      textMachine := by
  have hupdate : shownText (.update ⟨2, 1⟩ "s" (-1)) = some "5-1" := by decide +kernel
  have hassign : shownText (.assign ⟨2, 1⟩ "s" (some .sub) (.literal (.int 1))) = some "4" := by
    decide +kernel
  refine ⟨hupdate, hassign, fun halike => ?_⟩
  have hshown : shownText (.update ⟨2, 1⟩ "s" (-1)) =
      shownText (.assign ⟨2, 1⟩ "s" (some .sub) (.literal (.int 1))) := by
    rw [shownText, shownText, halike.2]
  rw [hupdate, hassign] at hshown
  exact absurd hshown (by decide)

end Script

end TraceTutor
