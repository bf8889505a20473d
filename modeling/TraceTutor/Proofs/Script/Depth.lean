import TraceTutor.Proofs.Script.Clauses
import TraceTutor.Proofs.Script.Reparsing

/-!
# Depth of parsed expressions

The limit on nesting is about the text. Chains of operators and of calls, indices and members grow
to the left without nesting in the text, so that the height of a tree has no bound
(`parseProgram_sumOfOnes`). All other steps from an expression to a part of it take a level of
nesting or go to a tighter layer: the depth of an expression, which counts these steps alone, is
bounded (`depth_le_of_parseProgram`).
-/

namespace TraceTutor

/-! ## Height and depth -/

mutual

/-- How many constructors are nested within an expression at most. -/
def Expr.height : Expr → Nat
  | .literal _ | .name _ => 1
  | .array items => Expr.itemHeight items + 1
  | .object fields => Expr.fieldHeight fields + 1
  | .unary _ operand => operand.height + 1
  | .binary _ left right => max left.height right.height + 1
  | .ternary condition yes no => max condition.height (max yes.height no.height) + 1
  | .index target i => max target.height i.height + 1
  | .member target _ => target.height + 1
  | .call callee args => max callee.height (Expr.itemHeight args) + 1

def Expr.itemHeight : List Expr → Nat
  | [] => 0
  | e :: rest => max e.height (Expr.itemHeight rest)

def Expr.fieldHeight : List (String × Expr) → Nat
  | [] => 0
  | (_, e) :: rest => max e.height (Expr.fieldHeight rest)

end

mutual

/-- The height without the steps from an operator to its left operand and from a call, an index or a
member to its target. -/
@[simp]
def Expr.depth : Expr → Nat
  | .literal _ | .name _ => 1
  | .array items => Expr.itemDepth items + 1
  | .object fields => Expr.fieldDepth fields + 1
  | .unary _ operand => operand.depth + 1
  | .binary _ left right => max left.depth (right.depth + 1)
  | .ternary condition yes no => max condition.depth (max yes.depth no.depth) + 1
  | .index target i => max target.depth (i.depth + 1)
  | .member target _ => target.depth
  | .call callee args => max callee.depth (Expr.itemDepth args + 1)

@[simp]
def Expr.itemDepth : List Expr → Nat
  | [] => 0
  | e :: rest => max e.depth (Expr.itemDepth rest)

@[simp]
def Expr.fieldDepth : List (String × Expr) → Nat
  | [] => 0
  | (_, e) :: rest => max e.depth (Expr.fieldDepth rest)

end

namespace Expr

variable {b : Nat}

theorem itemDepth_le {items : List Expr} (h : ∀ e ∈ items, e.depth ≤ b) : itemDepth items ≤ b := by
  induction items with
  | nil => exact Nat.zero_le b
  | cons e rest ih =>
    rw [itemDepth]
    obtain ⟨he, hrest⟩ := List.forall_mem_cons.1 h
    exact Nat.max_le.2 ⟨he, ih hrest⟩

theorem fieldDepth_le {fields : List (String × Expr)} (h : ∀ field ∈ fields, field.2.depth ≤ b) :
    fieldDepth fields ≤ b := by
  induction fields with
  | nil => exact Nat.zero_le b
  | cons field rest ih =>
    rw [fieldDepth]
    obtain ⟨hfield, hrest⟩ := List.forall_mem_cons.1 h
    exact Nat.max_le.2 ⟨hfield, ih hrest⟩

end Expr

/-! ## No bound on the height -/

namespace StmtParser

open TokenParser TokenStream

variable {p : StmtParser} {s rest : TokenStream} {x : Binary64} {e : Expr}
  (hs : s.kind? = some (.number x)) (he : p.exprs.expression s = .ok (e, rest))
  (hrest : rest.kind? = none)

include hs he hrest

/-- An expression that starts with a number, up to the end of the text, is a statement. -/
theorem statement_of_number : statement p s = .ok (.expression s.location e, rest) := by
  have hlocation : TokenParser.location s = .ok (s.location, s) := rfl
  have hopening : peekOpening s = .ok (.expression, s) := by
    rw [peekOpening, hs]
    rfl
  have hassign : check .assign rest = .ok (false, rest) := check_of_kind?_ne (by simp [hrest])
  have harrow : check .arrow rest = .ok (false, rest) := check_of_kind?_ne (by simp [hrest])
  have hsemicolon : accept .semicolon rest = .ok (false, rest) :=
    accept_of_kind?_ne (by simp [hrest])
  have hsimple : simple p.exprs.expression s = .ok (.expression s.location e, rest) := by
    refine (bind_of_ok hlocation).trans ((bind_of_ok hopening).trans ?_)
    refine (bind_of_ok he).trans ((bind_of_ok hassign).trans ?_)
    exact bind_of_ok harrow
  have hterminated : terminated (simple p.exprs.expression) s =
      .ok (.expression s.location e, rest) :=
    (bind_of_ok hsimple).trans (bind_of_ok hsemicolon)
  refine (bind_of_ok hlocation).trans ((bind_of_ok (ExprParser.peek_eq s)).trans ?_)
  rw [hs]
  exact hterminated

theorem program_of_number : program (statement p) s.tokens s =
    .ok ([.expression s.location e], rest) := by
  have hstatement := statement_of_number hs he hrest
  have hover : ∀ fuel, program (statement p) fuel rest = .ok ([], rest) := by
    intro fuel
    cases fuel with
    | nil => rfl
    | cons token fuel =>
      refine (bind_of_ok (ExprParser.peek_eq rest)).trans ?_
      rw [hrest]
      rfl
  cases htokens : s.tokens with
  | nil => simp [kind?, head?, htokens] at hs
  | cons token fuel =>
    refine (bind_of_ok (ExprParser.peek_eq s)).trans ?_
    rw [hs]
    exact (bind_of_ok hstatement).trans (bind_of_ok (hover fuel))

end StmtParser

/-- `1 + 1 + … + 1`, with `n` operators. -/
def sumOfOnes : Nat → Expr
  | 0 => .literal (.int 1)
  | n + 1 => .binary .add (sumOfOnes n) (.literal (.int 1))

theorem height_sumOfOnes (n : Nat) : (sumOfOnes n).height = n + 1 := by
  induction n with
  | zero => rw [sumOfOnes, Expr.height]
  | succ n ih =>
    rw [sumOfOnes, Expr.height, Expr.height, ih]
    omega

theorem isPrintable_sumOfOnes (n : Nat) : (sumOfOnes n).IsPrintable := by
  have hone : (Expr.literal (.int 1)).IsPrintable := ⟨by decide, by decide⟩
  induction n with
  | zero => exact hone
  | succ n ih => exact ⟨ih, hone⟩

/-- The left operand needs no parentheses. -/
theorem layer_sumOfOnes_lt (n : Nat) :
    decide ((sumOfOnes n).layer < BinaryOp.add.layer) = false := by
  cases n <;> rfl

theorem levels_sumOfOnes (n : Nat) : (sumOfOnes n).levels = 0 := by
  induction n with
  | zero => rw [sumOfOnes, Expr.levels]
  | succ n ih =>
    rw [sumOfOnes, Expr.levels, layer_sumOfOnes_lt, ih, Expr.levels]
    rfl

theorem exists_lexemes_sumOfOnes (n : Nat) :
    ∃ rest, (sumOfOnes n).lexemes = .whole 1 :: rest := by
  induction n with
  | zero => exact ⟨[], by rw [sumOfOnes, Expr.lexemes]; rfl⟩
  | succ n ih =>
    obtain ⟨rest, hrest⟩ := ih
    refine ⟨rest ++ [.sign .plus, .whole 1], ?_⟩
    rw [sumOfOnes, Expr.lexemes, layer_sumOfOnes_lt, hrest, Expr.lexemes]
    rfl

open ExprParser TokenStream in
/-- However long a chain of operators is, it does not nest. -/
theorem parseProgram_sumOfOnes (n : Nat) :
    ∃ l, parseProgram (sumOfOnes n).print = .ok [.expression l (sumOfOnes n)] := by
  obtain ⟨stream, hstream, hkinds⟩ := exists_tokenize_print (isPrintable_sumOfOnes n)
  obtain ⟨rest, hstart, hrest⟩ := exists_startsWith hkinds
  have hend : rest.kind? = none := by simp [kind?, head?, hrest]
  have hends : Ends 0 rest := fun l hl => by simp [hend] at hl
  have hback := isReadBack (isPrintable_sumOfOnes n)
  have hread := hback.limited_expression (n := maxNesting) hstart hends
  have hexpression := hread.eq_of_fits (by rw [levels_sumOfOnes]; decide)
  rw [← StmtParser.exprs_atDepth] at hexpression
  obtain ⟨more, hmore⟩ := exists_lexemes_sumOfOnes n
  have hnumber : stream.kind? = some (.number (.finite (.whole 1))) := (hmore ▸ hstart).head_eq
  have hprogram := StmtParser.program_of_number hnumber hexpression hend
  refine ⟨stream.location, ?_⟩
  simp [parseProgram, hstream, hprogram, bind, Except.bind, pure, Except.pure]

theorem exists_height_gt : ∃ program, parseProgram (sumOfOnes 1024).print = .ok program ∧
    ∃ s ∈ Script.statements program, ∃ e ∈ s.expressions, 16 * maxNesting < e.height := by
  obtain ⟨l, h⟩ := parseProgram_sumOfOnes 1024
  refine ⟨_, h, .expression l (sumOfOnes 1024), by simp [Script.statements], sumOfOnes 1024, ?_, ?_⟩
  · exact List.mem_singleton_self _
  · rw [height_sumOfOnes]
    decide

/-! ## What repetition gives -/

namespace TokenParser

variable {α : Type} {P : α → Prop} {item : TokenParser α}

theorem gives_some {x : α} (h : P x) :
    Gives (fun y? => ∀ y ∈ y?, P y) (Pure.pure (some x)) :=
  .pure fun _ hy => Option.some.inj hy ▸ h

theorem gives_none : Gives (fun y? => ∀ y ∈ y?, P y) (Pure.pure none) :=
  .pure nofun

theorem gives_repeatStep {step : α → TokenParser (Option α)}
    (h : ∀ x, P x → Gives (fun y? => ∀ y ∈ y?, P y) (step x)) (fuel : List Token) {x : α}
    (hx : P x) : Gives P (repeatStep step fuel x) := by
  induction fuel generalizing x with
  | nil => exact .pure hx
  | cons token fuel ih =>
    refine .bind (h x hx) fun y? hy => ?_
    cases y? with
    | none => exact .pure hx
    | some y => exact ih (hy y rfl)

theorem gives_separated (h : Gives P item) (fuel : List Token) :
    Gives (fun xs => ∀ x ∈ xs, P x) (separated item fuel) := by
  induction fuel with
  | nil => exact .bind h fun x hx => .pure (List.forall_mem_singleton.2 hx)
  | cons token fuel ih =>
    refine .bind h fun x hx => .andThen fun comma => ?_
    split
    · exact .bind ih fun xs hxs => .pure (List.forall_mem_cons.2 ⟨hx, hxs⟩)
    · exact .pure (List.forall_mem_singleton.2 hx)

theorem gives_separatedUnless (h : Gives P item) (close : Sign) :
    Gives (fun xs => ∀ x ∈ xs, P x) (separatedUnless close item) := by
  refine .andThen fun closed => ?_
  split
  · exact .pure (List.forall_mem_nil P)
  · exact .andThen fun fuel => gives_separated h fuel

theorem gives_listUntil (h : Gives P item) (close : Sign) (fuel : List Token) :
    Gives (fun xs => ∀ x ∈ xs, P x) (listUntil close item fuel) := by
  induction fuel with
  | nil =>
    refine .andThen fun closed => ?_
    split
    · exact .pure (List.forall_mem_nil P)
    · exact .bind h fun x hx => .pure (List.forall_mem_singleton.2 hx)
  | cons token fuel ih =>
    refine .andThen fun closed => ?_
    split
    · exact .pure (List.forall_mem_nil P)
    · refine .bind h fun x hx => .andThen fun comma => ?_
      split
      · exact .bind ih fun xs hxs => .pure (List.forall_mem_cons.2 ⟨hx, hxs⟩)
      · exact .pure (List.forall_mem_singleton.2 hx)

end TokenParser

/-! ## Depth by layers -/

namespace ExprParser

open TokenParser

/-- Whatever the parser yields has at most a certain depth. -/
abbrev Bounded (b : Nat) (p : TokenParser Expr) : Prop :=
  p.Gives fun e => e.depth ≤ b

theorem Bounded.mono {b c : Nat} {p : TokenParser Expr} (h : Bounded b p) (hbc : b ≤ c) :
    Bounded c p :=
  h.weaken fun _ he => he.trans hbc

theorem depth_le_of_atom? {k : TokenKind} {e : Expr} (hk : atom? k = some e) : e.depth ≤ 1 := by
  unfold atom? at hk
  split at hk <;> cases hk <;> rw [Expr.depth]

section

variable {b : Nat} {expression : TokenParser Expr} (h : Bounded b expression)

include h

/-- A key alone stands for a variable, even where no level is left. -/
theorem gives_field : Gives (fun field => field.2.depth ≤ b + 1) (field expression) := by
  refine .andThen fun next => ?_
  split
  · exact .fail _
  · refine .andThen fun _ => .andThen fun colon => ?_
    split
    · exact .bind h fun e he => .pure (Nat.le_succ_of_le he)
    · refine .pure ?_
      rw [Expr.depth]
      omega

theorem bounded_primary : Bounded (b + 2) (primary expression) := by
  refine .andThen fun next => ?_
  split
  · refine .andThen fun _ => .bind h fun inner hinner => .andThen fun _ => .pure ?_
    exact hinner.trans (by omega)
  · refine .andThen fun _ => .andThen fun fuel => .bind (gives_listUntil h _ fuel) ?_
    refine fun items hitems => .andThen fun _ => .pure ?_
    rw [Expr.depth]
    exact Nat.succ_le_succ ((Expr.itemDepth_le hitems).trans (Nat.le_succ b))
  · refine .andThen fun _ => .andThen fun fuel => .bind (gives_listUntil (gives_field h) _ fuel) ?_
    refine fun fields hfields => .andThen fun _ => .pure ?_
    rw [Expr.depth]
    exact Nat.succ_le_succ (Expr.fieldDepth_le hfields)
  · split
    next e hatom =>
      obtain ⟨k, -, hk⟩ := Option.bind_eq_some_iff.1 hatom
      exact .andThen fun _ => .pure ((depth_le_of_atom? hk).trans (by omega))
    next => exact .fail _

theorem gives_arguments : Gives (fun args => ∀ e ∈ args, e.depth ≤ b) (arguments expression) :=
  .bind (gives_separatedUnless h _) fun _ hargs => .andThen fun _ => .pure hargs

theorem gives_suffix {e : Expr} (he : e.depth ≤ b + 2) :
    Gives (fun e? => ∀ e ∈ e?, e.depth ≤ b + 2) (suffix expression e) := by
  refine .andThen fun next => ?_
  split
  · refine .andThen fun _ => .bind (gives_arguments h) fun args hargs => .pure ?_
    have hitems := Expr.itemDepth_le hargs
    simp only [Option.mem_some_iff, forall_eq', Expr.depth]
    omega
  · refine .andThen fun _ => .bind h fun i hi => .andThen fun _ => .pure ?_
    simp only [Option.mem_some_iff, forall_eq', Expr.depth]
    omega
  · refine .andThen fun _ => .andThen fun name => .pure ?_
    simpa only [Option.mem_some_iff, forall_eq', Expr.depth] using he
  · exact .pure (by simp)

theorem bounded_postfixed : Bounded (b + 2) (postfixed expression) :=
  .bind (bounded_primary h) fun _ he => .andThen fun fuel =>
    gives_repeatStep (fun _ he => gives_suffix h he) fuel he

theorem bounded_operandWith {deeper : TokenParser Expr} (hdeeper : Bounded (b + 1) deeper) :
    Bounded (b + 2) (operandWith deeper expression) := by
  refine .andThen fun next => ?_
  split
  · refine .andThen fun _ => .bind hdeeper fun e he => .pure ?_
    rw [Expr.depth]
    exact Nat.succ_le_succ he
  · exact bounded_postfixed h

end

/-- A chain adds one to what its operands have, however long it is. -/
theorem bounded_chain (m : Nat) {b : Nat} {operand : TokenParser Expr} (h : Bounded b operand) :
    Bounded (b + 1) (chain m operand) := by
  refine .bind h fun first hfirst => .andThen fun fuel => ?_
  refine gives_repeatStep (fun left hleft => ?_) fuel (Nat.le_succ_of_le hfirst)
  refine .andThen fun next => ?_
  split
  · split
    · refine .andThen fun _ => .bind h fun right hright => .pure ?_
      simp only [Option.mem_some_iff, forall_eq', Expr.depth]
      omega
    · exact .pure (by simp)
  · exact .pure (by simp)

theorem bounded_binary {b : Nat} {operand : TokenParser Expr} (h : Bounded b operand) :
    Bounded (b + 6) (binary operand) :=
  bounded_chain 1 (bounded_chain 2 (bounded_chain 3 (bounded_chain 4 (bounded_chain 5
    (bounded_chain 6 h)))))

theorem bounded_choice {b : Nat} {expression operand : TokenParser Expr}
    (h : Bounded (b + 6) expression) (hoperand : Bounded b operand) :
    Bounded (b + 7) (choice expression operand) := by
  refine .bind (bounded_binary hoperand) fun condition hcondition => .andThen fun asked => ?_
  split
  · refine .bind h fun yes hyes => .andThen fun _ => .bind h fun no hno => .pure ?_
    rw [Expr.depth]
    omega
  · exact .pure (Nat.le_succ_of_le hcondition)

/-- By induction on the levels that are left: six layers of operators, a choice and a primary come
to nine for each. -/
theorem bounded_atDepth (n : Nat) :
    Bounded (9 * n) (atDepth n).expression ∧ Bounded (9 * n + 2) (atDepth n).operand := by
  induction n with
  | zero => exact ⟨.fail _, bounded_operandWith (.fail _) (.fail _)⟩
  | succ n ih =>
    have hchoice : Bounded (9 * n + 2 + 7) (atDepth (n + 1)).expression :=
      bounded_choice (ih.1.mono (by omega)) ih.2
    have hexpression : Bounded (9 * (n + 1)) (atDepth (n + 1)).expression :=
      hchoice.mono (by omega)
    exact ⟨hexpression, bounded_operandWith hexpression (ih.2.mono (by omega))⟩

end ExprParser

/-- All expressions of a program that was parsed have a bounded depth, whatever the length of the
text. -/
theorem depth_le_of_parseProgram {source : String} {program : Program}
    (h : parseProgram source = .ok program) :
    ∀ s ∈ Script.statements program, ∀ e ∈ s.expressions, e.depth ≤ 16 * maxNesting := by
  have hgives : ∀ n ≤ maxNesting,
      TokenParser.Gives (fun e => e.depth ≤ 16 * maxNesting) (ExprParser.atDepth n).expression :=
    fun n hn => (ExprParser.bounded_atDepth n).1.mono (by omega)
  exact fun s hs => (madeOf_of_parseProgram hgives h s hs).expressions

theorem depth_le_of_parseProgram_sumOfOnes : ∃ program,
    parseProgram (sumOfOnes 1024).print = .ok program ∧
      ∀ s ∈ Script.statements program, ∀ e ∈ s.expressions, e.depth ≤ 16 * maxNesting := by
  obtain ⟨l, h⟩ := parseProgram_sumOfOnes 1024
  exact ⟨_, h, depth_le_of_parseProgram h⟩

end TraceTutor
