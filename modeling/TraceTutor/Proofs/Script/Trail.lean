import Mathlib.Algebra.GroupWithZero.Nat
import Mathlib.Data.List.Chain
import TraceTutor.Proofs.Script.Parts

/-!
# The trail of a run

The machines at which the parts of a run start and end, in the order in which they occur, are the
trail of the run. From one machine of a trail to the next, one part of the run does one thing itself
(`Part.isChain_trail`); so what every such change keeps holds along the whole trail
(`Part.forall_mem_trail`).
-/

namespace TraceTutor

/-! ## Parts are smaller -/

/-- A size of lists of phrases that counts every phrase more than a phrase around it may add. -/
def weigh {α : Type} [SizeOf α] (xs : List α) : Nat :=
  (xs.map fun x => 3 * sizeOf x + 1).sum

@[simp] theorem weigh_nil {α : Type} [SizeOf α] : weigh ([] : List α) = 0 := rfl

@[simp] theorem weigh_cons {α : Type} [SizeOf α] (x : α) (xs : List α) :
    weigh (x :: xs) = 3 * sizeOf x + 1 + weigh xs := rfl

theorem weigh_lt {α : Type} [SizeOf α] (xs : List α) : weigh xs < 3 * sizeOf xs := by
  induction xs with
  | nil =>
    rw [weigh_nil, List.nil.sizeOf_spec]
    omega
  | cons x rest ih =>
    rw [weigh_cons, List.cons.sizeOf_spec]
    omega

theorem weigh_toList_lt {α : Type} [SizeOf α] (x : Option α) : weigh x.toList < 3 * sizeOf x := by
  cases x with
  | none =>
    rw [Option.toList, weigh_nil, Option.none.sizeOf_spec]
    omega
  | some x =>
    rw [Option.toList, weigh_cons, weigh_nil, Option.some.sizeOf_spec]
    omega

theorem weigh_fields_lt (fields : List (String × Expr)) :
    weigh (fields.map Prod.snd) < 3 * sizeOf fields := by
  induction fields with
  | nil =>
    rw [List.map_nil, weigh_nil, List.nil.sizeOf_spec]
    omega
  | cons field rest ih =>
    obtain ⟨key, e⟩ := field
    simp only [List.map_cons, weigh_cons, List.cons.sizeOf_spec, Prod.mk.sizeOf_spec]
    omega

namespace Phrase

noncomputable def weight : Phrase → Nat
  | .expr _ e => 3 * sizeOf e
  | .exprs _ es => weigh es
  | .stmt _ s => 3 * sizeOf s
  | .clause s => weigh s.toList
  | .body stmts => 3 * sizeOf stmts
  | .rounds _ condition update stmts _ =>
    weigh condition.toList + weigh update.toList + 3 * sizeOf stmts + 1

/-- How many rounds may still be made. -/
def fuel : Phrase → Nat
  | .rounds _ _ _ _ fuel => fuel
  | _ => 0

end Phrase

theorem Expr.weigh_operands_lt (e : Expr) : weigh e.operands < 3 * sizeOf e := by
  cases e with
  | literal | name =>
    simp only [operands, weigh_nil, literal.sizeOf_spec, name.sizeOf_spec]
    omega
  | array items | call f items =>
    have h := weigh_lt items
    simp only [operands, array.sizeOf_spec, call.sizeOf_spec]
    omega
  | object fields =>
    have h := weigh_fields_lt fields
    simp only [operands, object.sizeOf_spec]
    omega
  | binary op left right =>
    cases op <;> simp only [operands, weigh_cons, weigh_nil, binary.sizeOf_spec] <;> omega
  | unary | ternary | index | member =>
    simp only [operands, weigh_cons, weigh_nil, unary.sizeOf_spec, ternary.sizeOf_spec,
      index.sizeOf_spec, member.sizeOf_spec]
    omega

theorem Expr.sizeOf_branch_lt {e x : Expr} {vs : List Slot} (h : e.branch? vs = some x) :
    sizeOf x < sizeOf e := by
  unfold branch? at h
  split at h
  · split at h <;> cases h
    simp only [binary.sizeOf_spec]
    omega
  · split at h <;> cases h
    simp only [binary.sizeOf_spec]
    omega
  · cases h
    simp only [ternary.sizeOf_spec]
    split <;> omega
  · cases h

theorem Stmt.weigh_operands_lt (m : Machine) (s : Stmt) : weigh (s.operands m) < 3 * sizeOf s := by
  cases s with
  | declare l kind x initial =>
    have h := weigh_toList_lt initial
    simp only [operands, declare.sizeOf_spec]
    omega
  | ret l value =>
    have h := weigh_toList_lt value
    simp only [operands, ret.sizeOf_spec]
    split
    · rw [weigh_nil]
      omega
    · omega
  | assign | expression | cond =>
    simp only [operands, weigh_cons, weigh_nil, assign.sizeOf_spec, expression.sizeOf_spec,
      cond.sizeOf_spec]
    omega
  | update | block | whileLoop | forLoop | function | stop | next =>
    simp only [operands, weigh_nil, update.sizeOf_spec, block.sizeOf_spec, whileLoop.sizeOf_spec,
      forLoop.sizeOf_spec, function.sizeOf_spec, stop.sizeOf_spec, next.sizeOf_spec]
    omega

namespace Part

open Script Exec

variable (limits : Limits)

/-- The first part is smaller: it runs inside of more calls, or its phrase is smaller, or it makes
fewer rounds of the same loop. -/
def Smaller (r p : Part) : Prop :=
  r.levels < p.levels ∨ r.levels = p.levels ∧ (r.phrase.weight < p.phrase.weight ∨
    r.phrase.weight = p.phrase.weight ∧ r.phrase.fuel < p.phrase.fuel)

/-- A size that orders parts by the three components. -/
noncomputable def size (p : Part) : Nat × Nat × Nat :=
  (p.levels, p.phrase.weight, p.phrase.fuel)

theorem wellFounded_smaller : WellFounded Smaller := by
  refine Subrelation.wf (fun {r p} h => ?_) (invImage size Prod.instWellFoundedRelation).wf
  exact Prod.lex_def.2 (h.imp_right fun h => ⟨h.1, Prod.lex_def.2 h.2⟩)

instance : WellFoundedRelation Part := ⟨Smaller, wellFounded_smaller⟩

section

variable {limits} {r : Part}

theorem mem_andThen {α : Type} {q : Part} {a : Exec α} {rest : α → Machine → List Part} :
    r ∈ q.andThen a rest ↔ r = q ∨ ∃ x, (a q.machine).result = .ok x ∧
      r ∈ rest x (a q.machine).machine := by
  unfold andThen
  rw [List.mem_cons]
  cases (a q.machine).result <;> simp

theorem lt_of_mem_exprRest {levels line : Nat} {e : Expr} {vs : List Slot} {m : Machine}
    (h : r ∈ exprRest levels line e vs m) :
    r.levels < levels ∨ r.levels = levels ∧ r.phrase.weight < 3 * sizeOf e := by
  unfold exprRest at h
  split at h
  next x hbranch =>
    rw [List.mem_singleton] at h
    subst h
    exact .inr ⟨rfl, by have := Expr.sizeOf_branch_lt hbranch; simp only [Phrase.weight]; omega⟩
  next =>
    rw [Option.mem_toList] at h
    unfold called? at h
    split at h
    · obtain ⟨procedure, -, rfl⟩ := Option.map_eq_some_iff.1 h
      exact .inl (Nat.lt_succ_self _)
    · cases h

theorem weight_loopFrom (levels line : Nat) (condition : Option Expr) (update : Option Stmt)
    (body : List Stmt) (m : Machine) :
    (loopFrom limits levels line condition update body m).phrase.weight =
      weigh condition.toList + weigh update.toList + 3 * sizeOf body + 1 := rfl

theorem lt_of_mem_stmtRest {levels : Nat} {s : Stmt} {vs : List Slot} {m : Machine}
    (h : r ∈ stmtRest limits levels s vs m) :
    r.levels = levels ∧ r.phrase.weight < 3 * sizeOf s := by
  unfold stmtRest at h
  split at h
  next l body =>
    obtain rfl := List.mem_singleton.1 h
    exact ⟨rfl, by simp only [Phrase.weight, Stmt.block.sizeOf_spec]; omega⟩
  next l condition yes no =>
    split at h
    · obtain rfl := List.mem_singleton.1 h
      exact ⟨rfl, by simp only [Phrase.weight, Stmt.cond.sizeOf_spec]; omega⟩
    · cases no with
      | none => cases h
      | some no =>
        obtain rfl := List.mem_singleton.1 h
        refine ⟨rfl, ?_⟩
        simp only [Phrase.weight, Stmt.cond.sizeOf_spec, Option.some.sizeOf_spec]
        omega
  next l condition body =>
    obtain rfl := List.mem_singleton.1 h
    refine ⟨rfl, ?_⟩
    simp only [weight_loopFrom, Option.toList, weigh_cons, weigh_nil, Stmt.whileLoop.sizeOf_spec]
    omega
  next l initial condition update body =>
    have hinitial := weigh_toList_lt initial
    have hcondition := weigh_toList_lt condition
    have hupdate := weigh_toList_lt update
    obtain rfl | ⟨_, -, h⟩ := mem_andThen.1 h
    · exact ⟨rfl, by simp only [Phrase.weight, Stmt.forLoop.sizeOf_spec]; omega⟩
    · obtain rfl := List.mem_singleton.1 h
      exact ⟨rfl, by simp only [weight_loopFrom, Stmt.forLoop.sizeOf_spec]; omega⟩
  next => cases h

theorem lt_of_mem_roundsRest {levels line : Nat} {condition : Option Expr} {update : Option Stmt}
    {body : List Stmt} {fuel : Nat} {vs : List Slot} {m m' : Machine}
    (h : r ∈ roundsRest limits levels line condition update body fuel vs m') :
    r.Smaller ⟨levels, .rounds line condition update body (fuel + 1), m⟩ := by
  unfold roundsRest at h
  split at h
  · obtain rfl | ⟨flow, -, h⟩ := mem_andThen.1 h
    · exact .inr ⟨rfl, .inl (by simp only [Phrase.weight]; omega)⟩
    · cases flow with
      | stop | ret => cases h
      | normal | next =>
        simp only [nextRound] at h
        obtain rfl | ⟨_, -, h⟩ := mem_andThen.1 h
        · exact .inr ⟨rfl, .inl (by simp only [Phrase.weight]; omega)⟩
        · obtain rfl := List.mem_singleton.1 h
          exact .inr ⟨rfl, .inr ⟨rfl, Nat.lt_succ_self fuel⟩⟩
  · cases h

end

/-- The parts of a part are smaller. -/
theorem smaller_of_mem_parts {p r : Part} (h : r ∈ p.parts limits) : r.Smaller p := by
  obtain ⟨levels, phrase, m⟩ := p
  have hweight (hlevels : r.levels = levels) (hlt : r.phrase.weight < phrase.weight) :
      r.Smaller ⟨levels, phrase, m⟩ := .inr ⟨hlevels, .inl hlt⟩
  cases phrase with
  | expr line e =>
    obtain rfl | ⟨vs, -, h⟩ := mem_andThen.1 h
    · exact hweight rfl e.weigh_operands_lt
    · obtain h | ⟨hlevels, h⟩ := lt_of_mem_exprRest h
      · exact .inl h
      · exact hweight hlevels h
  | exprs line es =>
    cases es with
    | nil => cases h
    | cons e rest =>
      simp only [parts] at h
      have hcons : weigh (e :: rest) = 3 * sizeOf e + 1 + weigh rest := rfl
      obtain rfl | ⟨v, -, h⟩ := mem_andThen.1 h
      · exact hweight rfl (by simp only [Phrase.weight]; omega)
      · obtain rfl := List.mem_singleton.1 h
        exact hweight rfl (by simp only [Phrase.weight]; omega)
  | stmt shown s =>
    simp only [parts] at h
    split at h
    · cases h
    · obtain rfl | ⟨vs, -, h⟩ := mem_andThen.1 h
      · exact hweight rfl (s.weigh_operands_lt m)
      · obtain ⟨hlevels, h⟩ := lt_of_mem_stmtRest h
        exact hweight hlevels h
  | clause s =>
    cases s with
    | none => cases h
    | some s =>
      obtain rfl := List.mem_singleton.1 h
      exact hweight rfl (by simp only [Phrase.weight, Option.toList, weigh_cons, weigh_nil]; omega)
  | body stmts =>
    cases stmts with
    | nil => cases h
    | cons s rest =>
      simp only [parts] at h
      obtain rfl | ⟨flow, -, h⟩ := mem_andThen.1 h
      · exact hweight rfl (by simp only [Phrase.weight, List.cons.sizeOf_spec]; omega)
      · cases flow with
        | normal =>
          obtain rfl := List.mem_singleton.1 h
          exact hweight rfl (by simp only [Phrase.weight, List.cons.sizeOf_spec]; omega)
        | stop | next | ret => cases h
  | rounds line condition update stmts fuel =>
    cases fuel with
    | zero => cases h
    | succ fuel =>
      simp only [parts] at h
      split at h
      · cases h
      · obtain rfl | ⟨vs, -, h⟩ := mem_andThen.1 h
        · exact hweight rfl (by simp only [Phrase.weight]; omega)
        · exact lt_of_mem_roundsRest h

/-! ## Trails -/

/-- The machines at which the parts of a run start and end, in the order in which they occur. -/
def trail (p : Part) : List Machine :=
  p.machine :: (p.parts limits).attach.flatMap (fun q => q.1.trail) ++ [p.after limits]
termination_by p
decreasing_by exact smaller_of_mem_parts limits q.2

theorem trail_eq (p : Part) : p.trail limits =
    p.machine :: (p.parts limits).flatMap (trail limits) ++ [p.after limits] := by
  rw [trail, List.flatMap_subtype fun _ _ => rfl, List.unattach_attach]

/-- What holds of a part whenever it holds of its parts holds of all parts. -/
theorem parts_induction {motive : Part → Prop}
    (h : ∀ p, (∀ q ∈ p.parts limits, motive q) → motive p) (p : Part) : motive p :=
  wellFounded_smaller.induction p fun p ih => h p fun q hq => ih q (smaller_of_mem_parts limits hq)

@[simp] theorem head?_trail (p : Part) : (p.trail limits).head? = some p.machine := by
  rw [trail_eq]
  rfl

@[simp] theorem getLast?_trail (p : Part) :
    (p.trail limits).getLast? = some (p.after limits) := by
  rw [trail_eq, List.getLast?_concat]

theorem after_mem_trail (p : Part) : p.after limits ∈ p.trail limits :=
  List.mem_of_getLast? (getLast?_trail limits p)

/-- What every change keeps between machines of a certain kind holds along a stretch of machines of
that kind. -/
theorem forall_mem_of_isChain {R : Machine → Machine → Prop} {Alive Inv : Machine → Prop}
    {m : Machine} {states : List Machine} (hchain : (m :: states).IsChain R)
    (halive : ∀ s ∈ m :: states, Alive s)
    (hkeeps : ∀ s s', R s s' → Alive s → Alive s' → Inv s → Inv s') (hm : Inv m) :
    ∀ s ∈ states, Inv s := by
  induction states generalizing m with
  | nil => simp
  | cons m' rest ih =>
    obtain ⟨hfirst, hchain⟩ := List.isChain_cons_cons.1 hchain
    obtain ⟨hm₁, hrest⟩ := List.forall_mem_cons.1 halive
    have hm' : Inv m' := hkeeps m m' hfirst hm₁ (hrest m' List.mem_cons_self) hm
    exact List.forall_mem_cons.2 ⟨hm', ih hchain hrest hm'⟩

/-! ### Parts of parts -/

/-- The second part is the first one, or one of its parts, or a part of one of them, and so on. -/
def Reaches : Part → Part → Prop :=
  Relation.ReflTransGen fun p q => q ∈ p.parts limits

/-- Some part of a part changes the first machine to the second one by itself. -/
def Changes (p : Part) (m m' : Machine) : Prop :=
  ∃ q, p.Reaches limits q ∧ q.Own limits m m'

section

variable {limits} {p q : Part}

theorem trail_infix_of_mem_parts (h : q ∈ p.parts limits) : q.trail limits <:+: p.trail limits := by
  obtain ⟨before, after, hsplit⟩ := List.append_of_mem h
  rw [trail_eq limits p, hsplit, List.flatMap_append, List.flatMap_cons]
  exact ⟨p.machine :: before.flatMap (trail limits),
    after.flatMap (trail limits) ++ [p.after limits], by simp⟩

/-- A part of a single part ends by a change from the end of that one to its own end. -/
theorem afters_infix_trail (h : p.parts limits = [q]) :
    [q.after limits, p.after limits] <:+: p.trail limits := by
  obtain ⟨before, hlast⟩ := List.getLast?_eq_some_iff.1 (getLast?_trail limits q)
  rw [trail_eq limits p, h, List.flatMap_cons, List.flatMap_nil, List.append_nil, hlast]
  exact ⟨p.machine :: before, [], by simp⟩

/-- The trail of a part occurs within the trail of the whole run. -/
theorem trail_infix_of_reaches (h : p.Reaches limits q) : q.trail limits <:+: p.trail limits := by
  induction h with
  | refl => exact List.infix_rfl
  | tail _ hpart ih => exact (trail_infix_of_mem_parts hpart).trans ih

theorem after_mem_trail_of_reaches (h : p.Reaches limits q) : q.after limits ∈ p.trail limits :=
  (trail_infix_of_reaches h).subset (after_mem_trail limits q)

/-- A statement that has a step left evaluates its operands first. -/
theorem operands_mem_parts {shown : Bool} {s : Stmt} (hq : q.phrase = .stmt shown s)
    (hsteps : q.machine.steps < limits.stepBudget) :
    ⟨q.levels, .exprs s.location.line (s.operands q.machine), q.machine.ticked⟩ ∈
      q.parts limits := by
  obtain ⟨levels, phrase, m⟩ := q
  cases hq
  simp only [parts]
  rw [if_neg (Nat.not_le.2 hsteps)]
  exact mem_andThen.2 (.inl rfl)

theorem first_mem_parts (levels : Nat) (s : Stmt) (rest : List Stmt) (m : Machine) :
    ⟨levels, .stmt true s, m⟩ ∈ parts limits ⟨levels, .body (s :: rest), m⟩ := by
  simp only [parts]
  exact mem_andThen.2 (.inl rfl)

/-- The statements after one that ended normally run from where it ended. -/
theorem rest_mem_parts {levels : Nat} {s : Stmt} {rest : List Stmt} {m : Machine}
    (h : (exec limits.stepBudget (callWithin limits levels) true s m).result = .ok .normal) :
    ⟨levels, .body rest, after limits ⟨levels, .stmt true s, m⟩⟩ ∈
      parts limits ⟨levels, .body (s :: rest), m⟩ := by
  simp only [parts]
  exact mem_andThen.2 (.inr ⟨.normal, h, List.mem_singleton_self _⟩)

theorem isChain_of_composes {own R : Machine → Machine → Prop} {m m' : Machine} {parts : List Part}
    {result : Except Interrupt Unit} (h : Composes limits own m parts result m')
    (hown : ∀ s s', own s s' → R s s') (hexits : ∀ s s', Exits s s' → R s s')
    (hparts : ∀ q ∈ parts, (q.trail limits).IsChain R) :
    (m :: parts.flatMap (trail limits) ++ [m']).IsChain R := by
  induction h with
  | done h => exact List.isChain_pair.2 (hown _ _ h)
  | @cut m m' q i hq _ hexit =>
    rw [List.flatMap_cons, List.flatMap_nil, List.append_nil, List.cons_append]
    refine (List.IsChain.append (hparts q (List.mem_singleton_self q)) (.singleton m') ?_).cons ?_
    · simpa using hexits _ _ hexit
    · simpa using hown _ _ hq
  | @part m m' q rest result hq _ hrest ih =>
    -- The trail of the first part ends where the chain of the others begins.
    have hothers := List.isChain_cons.1 (ih fun r hr => hparts r (List.mem_cons_of_mem q hr))
    rw [List.flatMap_cons, List.cons_append, List.append_assoc]
    refine (List.IsChain.append (hparts q List.mem_cons_self) hothers.2 ?_).cons ?_
    · simpa using hothers.1
    · simpa using hown _ _ hq

/-- From one machine of a trail to the next, some part makes one change itself. -/
theorem isChain_trail (p : Part) : (p.trail limits).IsChain (p.Changes limits) := by
  induction p using parts_induction limits with
  | h p ih =>
    rw [trail_eq]
    refine isChain_of_composes (composes limits p) (fun m m' h => ⟨p, .refl, h⟩)
      (fun m m' h => ⟨p, .refl, .exits h⟩) fun q hq => (ih q hq).imp ?_
    rintro m m' ⟨r, hr, hown⟩
    exact ⟨r, .head hq hr, hown⟩

/-- What every change of a run keeps holds along its whole trail. -/
theorem forall_mem_trail {Inv : Machine → Prop} (hp : Inv p.machine)
    (h : ∀ m m', p.Changes limits m m' → m' ∈ p.trail limits → Inv m → Inv m') :
    ∀ m ∈ p.trail limits, Inv m := by
  obtain ⟨rest, hrest⟩ : ∃ rest, p.trail limits = p.machine :: rest :=
    ⟨_, (trail_eq limits p).trans (List.cons_append ..)⟩
  have hchain : (p.trail limits).IsChain (p.Changes limits) := isChain_trail p
  have hall : ∀ m ∈ p.machine :: rest, m ∈ p.trail limits := fun m hm => hrest ▸ hm
  rw [hrest] at hchain
  have hkept : ∀ m ∈ rest, Inv m :=
    forall_mem_of_isChain hchain hall (fun m m' hm _ => h m m' hm) hp
  rw [hrest]
  exact List.forall_mem_cons.2 ⟨hp, hkept⟩

/-- A stretch of a trail is a chain of changes as well. -/
theorem isChain_of_infix {states : List Machine} (h : states <:+: p.trail limits) :
    states.IsChain (p.Changes limits) := by
  obtain ⟨before, later, hsplit⟩ := h
  have hchain : (p.trail limits).IsChain (p.Changes limits) := isChain_trail p
  rw [← hsplit] at hchain
  exact hchain.left_of_append.right_of_append

end

/-! ## Interrupts -/

end Part

namespace Machine

/-- The second machine is at most out of some calls and loops of the first one. -/
structure Unwinds (m m' : Machine) : Prop where
  globals : m'.globals = m.globals
  procedures : m'.procedures = m.procedures
  trace : m'.recorder.trace = m.recorder.trace
  output : m'.recorder.output = m.recorder.output
  steps : m'.steps = m.steps

namespace Unwinds

variable {m m' m'' : Machine}

theorem refl (m : Machine) : m.Unwinds m := ⟨rfl, rfl, rfl, rfl, rfl⟩

theorem trans (h : m.Unwinds m') (h' : m'.Unwinds m'') : m.Unwinds m'' :=
  ⟨h'.globals.trans h.globals, h'.procedures.trans h.procedures, h'.trace.trans h.trace,
    h'.output.trans h.output, h'.steps.trans h.steps⟩

theorem of_exits (h : Part.Exits m m') : m.Unwinds m' := by
  cases h <;> exact ⟨rfl, rfl, rfl, rfl, rfl⟩

end Unwinds

end Machine

namespace Part

variable (limits : Limits)

section

variable {limits} {p q : Part} {i : Interrupt}

theorem error_of_composes {own : Machine → Machine → Prop} {m m' : Machine} {parts : List Part}
    {result : Except Interrupt Unit} (h : Composes limits own m parts result m')
    (hq : q ∈ parts) (hi : (q.outcome limits).result = .error i) :
    result = .error i ∧ Exits (q.after limits) m' := by
  induction h with
  | done => cases hq
  | cut _ hresult hexit =>
    obtain rfl := List.mem_singleton.1 hq
    cases hresult.symm.trans hi
    exact ⟨rfl, hexit⟩
  | part _ hresult _ ih =>
    obtain rfl | hq := List.mem_cons.1 hq
    · cases hresult.symm.trans hi
    · exact ih hq

/-- An interrupt of a part interrupts the whole run, which then only leaves calls and loops. -/
theorem error_of_reaches (h : p.Reaches limits q) (hi : (q.outcome limits).result = .error i) :
    (p.outcome limits).result = .error i ∧ (q.after limits).Unwinds (p.after limits) := by
  induction h using Relation.ReflTransGen.head_induction_on with
  | refl => exact ⟨hi, .refl _⟩
  | head hpart _ ih =>
    obtain ⟨hresult, hunwinds⟩ := ih
    obtain ⟨hresult, hexit⟩ := error_of_composes (composes limits _) hpart hresult
    exact ⟨hresult, hunwinds.trans (.of_exits hexit)⟩

end

end Part

/-! ## Programs -/

/-- The run of a program. -/
def Part.ofProgram (limits : Limits) (program : Program) : Part :=
  ⟨limits.callDepth, .body program, Machine.initial.hoist program⟩

namespace Script

variable {limits : Limits} {program : Program} {q : Part} {i : Interrupt}

/-- An interrupt of any part is how the run of the program ends, with what was recorded until
then. -/
theorem execute_of_reaches (h : (Part.ofProgram limits program).Reaches limits q)
    (hi : (q.outcome limits).result = .error i) :
    (execute limits program).result = .error i ∧
      (q.after limits).Unwinds (execute limits program).machine := by
  obtain ⟨herror, hunwinds⟩ := Part.error_of_reaches h hi
  have hresult : (execute limits program).result.map (fun _ => ()) = .error i := herror
  refine ⟨?_, hunwinds⟩
  cases hexecute : (execute limits program).result with
  | ok flow => rw [hexecute] at hresult; cases hresult
  | error j => rw [hexecute] at hresult; cases hresult; rfl

end Script

end TraceTutor
