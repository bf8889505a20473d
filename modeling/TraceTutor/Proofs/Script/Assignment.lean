import TraceTutor.Proofs.Script.Invariant

/-!
# Compound assignments

A compound assignment `x op= e` evaluates its operand before it reads its variable, while
`x = x op e` reads the variable first. Both do the same where reading the variable and evaluating
the operand may change places (`exec_compound_eq_expansion`). They differ where the operand calls a
function that assigns the variable (`exec_compound_ne_expansion`), or writes something before the
variable turns out to be missing.
-/

namespace TraceTutor

namespace Exec

variable {α β : Type} {m : Machine}

/-! ## Laws of sequences -/

protected theorem bind_pure (a : Exec α) : a >>= Pure.pure = a := by
  funext m
  cases h : a m with
  | mk result m' visits =>
    cases result with
    | ok x => exact bind_of_ok h
    | error i => exact bind_of_error h

protected theorem pure_bind (x : α) (f : α → Exec β) : Pure.pure x >>= f = f x := by
  funext m
  rw [bind_of_ok (show (Pure.pure x : Exec α) m = ⟨.ok x, m, 0⟩ from rfl), Nat.zero_add]

protected theorem bind_assoc {γ : Type} (a : Exec α) (f : α → Exec β) (g : β → Exec γ) :
    a >>= f >>= g = a >>= fun x => f x >>= g := by
  funext m
  cases h : a m with
  | mk result m' visits =>
    cases result with
    | error i =>
      have hbind : (a >>= f) m = ⟨.error i, m', visits⟩ := bind_of_error h
      rw [bind_of_error hbind, bind_of_error h]
    | ok x =>
      have hbind := bind_of_ok (f := f) h
      rw [bind_of_ok h]
      cases hf : f x m' with
      | mk result' m'' visits' =>
        rw [hf] at hbind
        cases result' with
        | error i => rw [bind_of_error hbind, bind_of_error hf]
        | ok y => rw [bind_of_ok hbind, bind_of_ok hf, Nat.add_assoc]

instance : LawfulMonad Exec :=
  LawfulMonad.mk' Exec Exec.bind_pure Exec.pure_bind Exec.bind_assoc

/-! ## Actions that end alike -/

/-- Two actions end alike from a machine: in the same way, and with the same state. They may visit
different numbers of nodes. -/
def EndAlike (a a' : Exec α) (m : Machine) : Prop :=
  (a m).result = (a' m).result ∧ (a m).machine = (a' m).machine

namespace EndAlike

variable {a a' : Exec α}

theorem symm (h : EndAlike a a' m) : EndAlike a' a m :=
  ⟨h.1.symm, h.2.symm⟩

theorem trans {a'' : Exec α} (h : EndAlike a a' m) (h' : EndAlike a' a'' m) : EndAlike a a'' m :=
  ⟨h.1.trans h'.1, h.2.trans h'.2⟩

theorem visit (a : Exec α) (m : Machine) : EndAlike a.visit a m := ⟨rfl, rfl⟩

theorem bind (h : EndAlike a a' m) (f : α → Exec β) : EndAlike (a >>= f) (a' >>= f) m := by
  obtain ⟨hresult, hmachine⟩ := h
  cases ha : a m with
  | mk result m₁ visits =>
    cases ha' : a' m with
    | mk result' m₁' visits' =>
      rw [ha, ha'] at hresult hmachine
      cases hresult
      cases hmachine
      cases result with
      | ok x =>
        rw [EndAlike, bind_of_ok ha, bind_of_ok ha']
        exact ⟨rfl, rfl⟩
      | error i =>
        rw [EndAlike, bind_of_error ha, bind_of_error ha']
        exact ⟨rfl, rfl⟩

theorem bind_right {f f' : α → Exec β}
    (h : ∀ x, (a m).result = .ok x → EndAlike (f x) (f' x) (a m).machine) :
    EndAlike (a >>= f) (a >>= f') m := by
  cases ha : a m with
  | mk result m' visits =>
    rw [ha] at h
    cases result with
    | ok x =>
      rw [EndAlike, bind_of_ok ha, bind_of_ok ha]
      exact h x rfl
    | error i =>
      rw [EndAlike, bind_of_error ha, bind_of_error ha]
      exact ⟨rfl, rfl⟩

end EndAlike

/-! ## Reading a variable -/

variable {line : Nat} {x : String}

theorem lookup_of_ok {v : Slot} (h : m.lookup x = .ok v) : Exec.lookup line x m = ⟨.ok v, m, 0⟩ := by
  rw [Exec.lookup, h]
  rfl

theorem lookup_of_error {cause : RuntimeCause} (h : m.lookup x = .error cause) :
    Exec.lookup line x m = ⟨.error (.fault (.runtime cause line)), m, 0⟩ := by
  rw [Exec.lookup, h]
  rfl

/-- Reading a variable and another action may change places: the action leaves what the variable
yields as it is, and if the variable cannot be read, it completes and changes nothing. -/
structure MayReadFirst (x : String) (a : Exec α) (m : Machine) : Prop where
  keeps : ∀ y, (a m).result = .ok y → (a m).machine.lookup x = m.lookup x
  reads : (∃ v, m.lookup x = .ok v) ∨ (∃ y, (a m).result = .ok y) ∧ (a m).machine = m

theorem MayReadFirst.endAlike {a : Exec α} (h : MayReadFirst x a m) (line : Nat)
    (f : Slot → α → Exec β) :
    EndAlike (do let y ← a; let v ← Exec.lookup line x; f v y)
      (do let v ← Exec.lookup line x; let y ← a; f v y) m := by
  obtain ⟨hkeeps, hreads⟩ := h
  cases ha : a m with
  | mk result m' visits =>
    rw [ha] at hkeeps hreads
    cases hlookup : m.lookup x with
    | ok v =>
      rw [EndAlike, bind_of_ok (lookup_of_ok hlookup)]
      cases result with
      | error i =>
        rw [bind_of_error ha, bind_of_error ha]
        exact ⟨rfl, rfl⟩
      | ok y =>
        have hread : m'.lookup x = .ok v := (hkeeps y rfl).trans hlookup
        rw [bind_of_ok ha, bind_of_ok ha, bind_of_ok (lookup_of_ok hread)]
        exact ⟨rfl, rfl⟩
    | error cause =>
      -- The action has no effect, so that the fault of the variable is all there is.
      obtain ⟨⟨y, hy⟩, hm⟩ := hreads.resolve_left fun ⟨v, hv⟩ => by rw [hlookup] at hv; cases hv
      cases hy
      cases hm
      rw [EndAlike, bind_of_ok ha, bind_of_error (lookup_of_error hlookup),
        bind_of_error (lookup_of_error hlookup)]
      exact ⟨rfl, rfl⟩

end Exec

namespace Script

open Exec

/-! ## The two forms -/

/-- The operators of compound assignments. -/
def compoundOps : List BinaryOp := [.add, .sub, .mul, .div, .mod]

/-- Both operands of such an operator are evaluated, the left one first. -/
theorem evaluate_binary_of_mem {op : BinaryOp} (h : op ∈ compoundOps) (call : CallAction)
    (line : Nat) (left right : Expr) :
    evaluate call line (.binary op left right) = Exec.visit (do
      let l ← evaluate call line left
      let r ← evaluate call line right
      return some (← Exec.ofExcept line (op.combine l r))) := by
  unfold compoundOps at h
  cases op with
  | add | sub | mul | div | mod => rw [evaluate]
  | _ => simp at h

section

variable {call : CallAction} {op : BinaryOp} (hop : op ∈ compoundOps)
include hop

/-- The expansion of a compound assignment reads its variable before it evaluates the operand. -/
theorem expansion_endAlike (call : CallAction) (line : Nat) (x : String) (e : Expr) (m : Machine) :
    EndAlike (do assignVariable line x (← evaluate call line (.binary op (.name x) e)) none)
      (do
        let old ← Exec.lookup line x
        let v ← evaluate call line e
        Exec.assign line x (some (← Exec.ofExcept line (op.combine old v)))) m := by
  have hname : EndAlike (evaluate call line (.name x)) (Exec.lookup line x) m := by
    rw [evaluate]
    exact .visit _ m
  have hbinary : EndAlike (evaluate call line (.binary op (.name x) e))
      (do
        let old ← Exec.lookup line x
        let v ← evaluate call line e
        return some (← Exec.ofExcept line (op.combine old v))) m := by
    rw [evaluate_binary_of_mem hop]
    exact (EndAlike.visit _ m).trans (hname.bind _)
  simpa only [assignVariable, bind_assoc, pure_bind] using
    hbinary.bind fun v => assignVariable line x v none

/-- A compound assignment does what its expansion does, if its variable may be read before its
operand is evaluated. -/
theorem exec_compound_eq_expansion (budget : Nat) (call : CallAction) (instrumented : Bool)
    (l : Location) (x : String) (e : Expr) (m : Machine)
    (h : MayReadFirst x (evaluate call l.line e) { m with steps := m.steps + 1 }) :
    EndAlike (exec budget call instrumented (.assign l x (some op) e))
      (exec budget call instrumented (.assign l x none (.binary op (.name x) e))) m := by
  have hassign := (h.endAlike l.line fun old v =>
    Exec.ofExcept l.line (op.combine old v) >>= fun w => Exec.assign l.line x (some w)).trans
      (expansion_endAlike hop call l.line x e _).symm
  unfold exec
  refine (EndAlike.visit _ m).trans (.trans (.bind_right fun _ htick => ?_) (EndAlike.visit _ m).symm)
  have hmachine : (Exec.tick budget m).machine = { m with steps := m.steps + 1 } := by
    unfold Exec.tick
    dsimp only
    split <;> rfl
  rw [hmachine]
  simpa only [assignVariable, bind_assoc, Stmt.location] using hassign.bind fun _ => return Flow.normal

end

/-- A variable, a function that assigns it, and one that only writes its argument. -/
def bumpProgram : Program :=
  [.declare ⟨1, 1⟩ .letKind "x" (some (.literal (.int 1))),
    .function ⟨2, 1⟩ "bump" []
      [.assign ⟨3, 3⟩ "x" none (.literal (.int 10)), .ret ⟨4, 3⟩ (some (.literal (.int 1)))],
    .function ⟨6, 1⟩ "shown" ["n"]
      [.expression ⟨7, 3⟩ (.call (.member (.name "console") "log") [.name "n"]),
        .ret ⟨8, 3⟩ (some (.name "n"))]]

/-- The machine after that program. -/
def bumpMachine : Machine :=
  (execute .standard bumpProgram).machine

/-- Assigns to the variable after that program. -/
def assignX (op : Option BinaryOp) (e : Expr) : Exec Flow :=
  exec 10000 (call .standard) true (.assign ⟨10, 1⟩ "x" op e)

/-- The value of the variable after such an assignment. -/
def shownX (op : Option BinaryOp) (e : Expr) : Option String :=
  ((assignX op e bumpMachine).machine.read? "x").map Value.display

theorem exec_compound_ne_expansion :
    shownX (some .add) (.call (.name "bump") []) = some "11" ∧
    shownX none (.binary .add (.name "x") (.call (.name "bump") [])) = some "2" ∧
    ¬ EndAlike (assignX (some .add) (.call (.name "bump") []))
      (assignX none (.binary .add (.name "x") (.call (.name "bump") []))) bumpMachine := by
  have hcompound : shownX (some .add) (.call (.name "bump") []) = some "11" := by
    decide +kernel
  have hexpansion : shownX none (.binary .add (.name "x") (.call (.name "bump") [])) = some "2" := by
    decide +kernel
  refine ⟨hcompound, hexpansion, fun halike => ?_⟩
  have hshown : shownX (some .add) (.call (.name "bump") []) =
      shownX none (.binary .add (.name "x") (.call (.name "bump") [])) := by
    rw [shownX, shownX, halike.2]
  rw [hcompound, hexpansion] at hshown
  exact absurd hshown (by decide)

theorem exec_compound_eq_expansion_shown :
    BinaryOp.add ∈ compoundOps ∧
    MayReadFirst "x" (evaluate (call .standard) 10 (.call (.name "shown") [.literal (.int 4)]))
      { bumpMachine with steps := bumpMachine.steps + 1 } ∧
    shownX (some .add) (.call (.name "shown") [.literal (.int 4)]) = some "5" ∧
    EndAlike (assignX (some .add) (.call (.name "shown") [.literal (.int 4)]))
      (assignX none (.binary .add (.name "x") (.call (.name "shown") [.literal (.int 4)])))
      bumpMachine := by
  have hop : BinaryOp.add ∈ compoundOps := by decide
  have hfirst : MayReadFirst "x"
      (evaluate (call .standard) 10 (.call (.name "shown") [.literal (.int 4)]))
      { bumpMachine with steps := bumpMachine.steps + 1 } :=
    ⟨fun _ _ => rfl, .inl ⟨some (.int 1), rfl⟩⟩
  exact ⟨hop, hfirst, by decide +kernel,
    exec_compound_eq_expansion hop 10000 (call .standard) true ⟨10, 1⟩ "x" _ bumpMachine hfirst⟩

end Script

end TraceTutor
