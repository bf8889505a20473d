import TraceTutor.Proofs.Script.Parsing
import TraceTutor.Proofs.Script.Statements

/-!
# Parts of statements

The grammar has simple statements alone as the clauses of a loop head. So has every loop of a
program that was parsed, wherever it stands (`simpleClauses_of_parseProgram`). The expressions in
the statements of a program come from the parsers for expressions, and have whatever property all of
these give (`madeOf_of_parseProgram`).
-/

namespace TraceTutor

/-- A declaration, an assignment, an update or an expression. -/
def Stmt.IsSimple : Stmt → Prop
  | .declare .. | .assign .. | .update .. | .expression .. => True
  | _ => False

/-- The clauses in the head of a loop. -/
def Stmt.clauses : Stmt → List Stmt
  | .forLoop _ initial? _ update? _ => initial?.toList ++ update?.toList
  | _ => []

/-- The expressions of a statement, without those of the statements inside of it. -/
def Stmt.expressions : Stmt → List Expr
  | .declare _ _ _ initial? => initial?.toList
  | .assign _ _ _ value => [value]
  | .expression _ e => [e]
  | .cond _ condition _ _ => [condition]
  | .whileLoop _ condition _ => [condition]
  | .forLoop _ _ condition? _ _ => condition?.toList
  | .ret _ value? => value?.toList
  | _ => []

/-- All loops of a body, at any depth, have simple statements as clauses. -/
def Script.HasSimpleClauses (body : List Stmt) : Prop :=
  ∀ s ∈ Script.statements body, ∀ c ∈ s.clauses, c.IsSimple

/-- The clauses of the statement are simple, and its expressions have a property. -/
structure Stmt.MadeOf (P : Expr → Prop) (s : Stmt) : Prop where
  clauses : ∀ c ∈ s.clauses, c.IsSimple
  expressions : ∀ e ∈ s.expressions, P e

/-- All statements of a body, at any depth, are made of simple clauses and of expressions that have
a property. -/
def Script.MadeOf (P : Expr → Prop) (body : List Stmt) : Prop :=
  ∀ s ∈ Script.statements body, s.MadeOf P

namespace Script.MadeOf

variable {P : Expr → Prop} {s : Stmt} {body yes rest : List Stmt}

theorem nil : MadeOf P [] := by
  simp [MadeOf, statements]

theorem cons_iff :
    MadeOf P (s :: rest) ↔ s.MadeOf P ∧ (∀ x ∈ s.inner, x.MadeOf P) ∧ MadeOf P rest := by
  simp [MadeOf, statements, or_imp, forall_and]

theorem cons (hs : MadeOf P [s]) (hrest : MadeOf P rest) : MadeOf P (s :: rest) :=
  have h := cons_iff.1 hs
  cons_iff.2 ⟨h.1, h.2.1, hrest⟩

/-- A statement that is no loop has the clauses of what is inside of it. -/
theorem of_inner (hs : s.clauses = []) (he : ∀ e ∈ s.expressions, P e)
    (h : ∀ x ∈ s.inner, x.MadeOf P) : MadeOf P [s] :=
  cons_iff.2 ⟨⟨by simp [hs], he⟩, h, nil⟩

theorem of_isSimple (h : s.IsSimple) (he : ∀ e ∈ s.expressions, P e) : MadeOf P [s] := by
  cases s with
  | declare | assign | update | expression => exact of_inner rfl he (by simp [Stmt.inner])
  | _ => exact h.elim

theorem cond {l : Location} {condition : Expr} {no : Option (List Stmt)} (hcondition : P condition)
    (hyes : MadeOf P yes) (hno : ∀ body ∈ no, MadeOf P body) :
    MadeOf P [.cond l condition yes no] := by
  refine of_inner rfl (List.forall_mem_singleton.2 hcondition) fun x hx => ?_
  rcases List.mem_append.1 hx with hx | hx
  · exact hyes x hx
  · cases no with
    | none => cases hx
    | some no => exact hno no rfl x hx

theorem forLoop {l : Location} {initial update : Option Stmt} {condition : Option Expr}
    (hinitial : ∀ c ∈ initial, c.IsSimple ∧ ∀ e ∈ c.expressions, P e)
    (hcondition : ∀ e ∈ condition, P e)
    (hupdate : ∀ c ∈ update, c.IsSimple ∧ ∀ e ∈ c.expressions, P e) (hbody : MadeOf P body) :
    MadeOf P [.forLoop l initial condition update body] := by
  have hclause {c : Option Stmt} (hc : ∀ x ∈ c, x.IsSimple ∧ ∀ e ∈ x.expressions, P e) :
      ∀ x ∈ Stmt.clauseStatements c, x.MadeOf P := by
    cases c with
    | none => simp [Stmt.clauseStatements]
    | some c =>
      have h := cons_iff.1 (of_isSimple (hc c rfl).1 (hc c rfl).2)
      exact List.forall_mem_cons.2 ⟨h.1, h.2.1⟩
  have hexpressions : ∀ e ∈ (Stmt.forLoop l initial condition update body).expressions, P e := by
    simpa [Stmt.expressions] using hcondition
  refine cons_iff.2 ⟨⟨fun c hc => ?_, hexpressions⟩, fun x hx => ?_, nil⟩
  · rcases List.mem_append.1 hc with hc | hc
    · exact (hinitial c (by simpa using hc)).1
    · exact (hupdate c (by simpa using hc)).1
  · rcases List.mem_append.1 hx with hx | hx
    · exact hclause hinitial x hx
    · rcases List.mem_append.1 hx with hx | hx
      · exact hclause hupdate x hx
      · exact hbody x hx

end Script.MadeOf

/-! ## What parsers give -/

namespace TokenParser

variable {α β : Type}

/-- Whatever the parser yields has a property. -/
def Gives (post : α → Prop) (p : TokenParser α) : Prop :=
  ∀ s x s', p s = .ok (x, s') → post x

namespace Gives

variable {pre : α → Prop} {post : β → Prop} {p : TokenParser α} {f : α → TokenParser β}

theorem pure {x : β} (h : post x) : Gives post (Pure.pure x) := by
  intro s y s' hy
  cases hy
  exact h

theorem fail (wanted : Expectation) : Gives post (TokenParser.fail wanted) := by
  intro s y s' hy
  cases hy

theorem weaken {post : α → Prop} (hp : Gives pre p) (h : ∀ x, pre x → post x) : Gives post p :=
  fun s x s' hx => h x (hp s x s' hx)

theorem bind (hp : Gives pre p) (hf : ∀ x, pre x → Gives post (f x)) : Gives post (p >>= f) := by
  intro s y s'' hy
  obtain ⟨⟨x, s'⟩, hx, hrest⟩ := except_bind_eq_ok_iff.1 hy
  exact hf x (hp s x s' hx) s' y s'' hrest

/-- A first part about which nothing has to be known. -/
theorem andThen (hf : ∀ x, Gives post (f x)) : Gives post (p >>= f) :=
  bind (fun _ _ _ _ => trivial) fun x _ => hf x

end Gives

end TokenParser

/-! ## Statements -/

namespace StmtParser

open TokenParser Script

variable {P : Expr → Prop}

theorem gives_simple {expression : TokenParser Expr} (h : Gives P expression) :
    Gives (fun s => s.IsSimple ∧ ∀ e ∈ s.expressions, P e) (simple expression) := by
  refine .andThen fun l => .andThen fun opening => ?_
  cases opening with
  | declaration kind =>
    refine .andThen fun _ => .andThen fun name => .andThen fun accepted => ?_
    split
    · exact .bind h fun e he => .pure ⟨trivial, by simpa [Stmt.expressions] using he⟩
    · exact .pure ⟨trivial, by simp [Stmt.expressions]⟩
  | prefixUpdate delta =>
    exact .andThen fun _ => .andThen fun name => .pure ⟨trivial, by simp [Stmt.expressions]⟩
  | assignment target op =>
    refine .andThen fun _ => .andThen fun _ => .bind h fun e he => ?_
    exact .pure ⟨trivial, by simpa [Stmt.expressions] using he⟩
  | postfixUpdate target delta =>
    exact .andThen fun _ => .andThen fun _ => .pure ⟨trivial, by simp [Stmt.expressions]⟩
  | expression =>
    refine .bind h fun e he => .andThen fun assigned => ?_
    split
    · exact .fail _
    · refine .andThen fun arrow => ?_
      split
      · exact .fail _
      · exact .pure ⟨trivial, by simpa [Stmt.expressions] using he⟩

theorem gives_parenthesized {expression : TokenParser Expr} (h : Gives P expression) :
    Gives P (parenthesized expression) :=
  .andThen fun _ => .bind h fun _ he => .andThen fun _ => .pure he

theorem gives_clause {α : Type} {post : α → Prop} {part : TokenParser α} (h : Gives post part)
    (close : Sign) : Gives (fun x => ∀ y ∈ x, post y) (clause close part) := by
  refine .andThen fun closed => ?_
  split
  · exact .pure (by simp)
  · exact .bind h fun x hx => .pure (by simpa using hx)

section

/-- The parsers of a level yield expressions that have a property, and statements that are made of
such ones. -/
structure GivesMadeOf (P : Expr → Prop) (p : StmtParser) : Prop where
  expression : Gives P p.exprs.expression
  body : Gives (MadeOf P) p.body
  elseIf : Gives (fun s => MadeOf P [s]) p.elseIf

variable {p : StmtParser} (h : p.GivesMadeOf P)

include h

theorem gives_conditional : Gives (fun s => MadeOf P [s]) (conditional p) := by
  refine .andThen fun l => .andThen fun _ => ?_
  refine .bind (gives_parenthesized h.expression) fun condition hcondition => ?_
  refine .bind h.body fun yes hyes => .andThen fun hasElse => ?_
  split
  · refine .andThen fun next => ?_
    split
    · exact .bind h.elseIf fun no hno => .pure (.cond hcondition hyes (by simpa using hno))
    · exact .bind h.body fun no hno => .pure (.cond hcondition hyes (by simpa using hno))
  · exact .pure (.cond hcondition hyes (by simp))

theorem gives_whileLoop : Gives (fun s => MadeOf P [s]) (whileLoop p) := by
  refine .andThen fun l => .andThen fun _ => ?_
  refine .bind (gives_parenthesized h.expression) fun condition hcondition => ?_
  refine .bind h.body fun body hbody => .pure (.of_inner rfl ?_ hbody)
  exact List.forall_mem_singleton.2 hcondition

theorem gives_forLoop : Gives (fun s => MadeOf P [s]) (forLoop p) := by
  have hclause := gives_clause (gives_simple h.expression)
  refine .andThen fun l => .andThen fun _ => .andThen fun _ => ?_
  refine .bind (hclause .semicolon) fun initial hinitial => .andThen fun _ => ?_
  refine .bind (gives_clause h.expression .semicolon) fun condition hcondition => ?_
  refine .andThen fun _ => ?_
  refine .bind (hclause .closeParen) fun update hupdate => .andThen fun _ => ?_
  exact .bind h.body fun body hbody => .pure (.forLoop hinitial hcondition hupdate hbody)

theorem gives_function : Gives (fun s => MadeOf P [s]) (function p) := by
  refine .andThen fun l => .andThen fun _ => .andThen fun name => .andThen fun _ => ?_
  refine .andThen fun params => .andThen fun _ => .andThen fun opened => ?_
  split
  · exact .bind h.body fun body hbody => .pure (.of_inner rfl (by simp [Stmt.expressions]) hbody)
  · exact .fail _

theorem gives_returned : Gives (fun s => MadeOf P [s]) (returned p) := by
  refine .andThen fun l => .andThen fun _ => .andThen fun follows => ?_
  split
  · refine .bind h.expression fun e he => .pure (.of_inner rfl ?_ (by simp [Stmt.inner]))
    simpa [Stmt.expressions] using he
  · exact .pure (.of_inner rfl (by simp [Stmt.expressions]) (by simp [Stmt.inner]))

omit h in
theorem gives_terminated {statement : TokenParser Stmt}
    (hs : Gives (fun s => MadeOf P [s]) statement) :
    Gives (fun s => MadeOf P [s]) (terminated statement) :=
  .bind hs fun _ hx => .andThen fun _ => .pure hx

theorem gives_statement : Gives (fun s => MadeOf P [s]) (statement p) := by
  have hbare {s : Stmt} (hclauses : s.clauses = []) (hexpressions : s.expressions = [])
      (hinner : s.inner = []) : MadeOf P [s] :=
    .of_inner hclauses (by simp [hexpressions]) (by simp [hinner])
  refine .andThen fun l => .andThen fun next => ?_
  split
  · exact .bind h.body fun body hbody => .pure (.of_inner rfl (by simp [Stmt.expressions]) hbody)
  · exact gives_conditional h
  · exact gives_whileLoop h
  · exact gives_forLoop h
  · exact gives_function h
  · exact gives_terminated (gives_returned h)
  · exact gives_terminated (.andThen fun _ => .pure (hbare rfl rfl rfl))
  · exact gives_terminated (.andThen fun _ => .pure (hbare rfl rfl rfl))
  · exact .andThen fun _ => .pure (hbare rfl rfl rfl)
  · exact gives_terminated ((gives_simple h.expression).weaken fun _ hs => .of_isSimple hs.1 hs.2)

end

/-! ## Bodies and programs -/

section

variable {statement : TokenParser Stmt} (h : Gives (fun s => MadeOf P [s]) statement)

include h

theorem gives_blockRest (fuel : List Token) : Gives (MadeOf P) (blockRest statement fuel) := by
  induction fuel with
  | nil => exact .fail _
  | cons token fuel ih =>
    refine .andThen fun closed => ?_
    split
    · exact .pure .nil
    · refine .andThen fun next => ?_
      split
      · exact .fail _
      · exact .bind h fun s hs => .bind ih fun rest hrest => .pure (.cons hs hrest)

theorem gives_bodyOf : Gives (MadeOf P) (bodyOf statement) := by
  refine .andThen fun opened => ?_
  split
  · exact .andThen fun fuel => gives_blockRest h fuel
  · exact .bind h fun s hs => .pure hs

theorem gives_program (fuel : List Token) : Gives (MadeOf P) (program statement fuel) := by
  induction fuel with
  | nil => exact .pure .nil
  | cons token fuel ih =>
    refine .andThen fun next => ?_
    split
    · exact .pure .nil
    · exact .bind h fun s hs => .bind ih fun rest hrest => .pure (.cons hs hrest)

end

/-- By induction on the levels that are left: bodies are parsed with a level less. -/
theorem givesMadeOf_atDepth {n : Nat} (h : ∀ m ≤ n, Gives P (ExprParser.atDepth m).expression) :
    (atDepth n).GivesMadeOf P := by
  induction n with
  | zero => exact ⟨h 0 (Nat.le_refl 0), .fail _, .fail _⟩
  | succ n ih =>
    have hn := ih fun m hm => h m (Nat.le_succ_of_le hm)
    have hexpression := h (n + 1) (Nat.le_refl _)
    rw [← exprs_atDepth] at hexpression
    exact ⟨hexpression, gives_bodyOf (gives_statement hn), gives_conditional hn⟩

end StmtParser

/-- All statements of a program that was parsed are made of simple clauses, and of expressions with
whatever property the parsers for expressions give. -/
theorem madeOf_of_parseProgram {P : Expr → Prop}
    (hgives : ∀ n ≤ maxNesting, TokenParser.Gives P (ExprParser.atDepth n).expression)
    {source : String} {program : Program} (h : parseProgram source = .ok program) :
    Script.MadeOf P program := by
  obtain ⟨stream, -, hrest⟩ := except_bind_eq_ok_iff.1 h
  obtain ⟨⟨program', rest⟩, hprogram, heq⟩ := except_bind_eq_ok_iff.1 hrest
  cases heq
  have hstatement := StmtParser.gives_statement (StmtParser.givesMadeOf_atDepth hgives)
  exact StmtParser.gives_program hstatement _ stream program rest hprogram

/-- All loops of a program that was parsed have simple statements as clauses. -/
theorem simpleClauses_of_parseProgram {source : String} {program : Program}
    (h : parseProgram source = .ok program) : Script.HasSimpleClauses program := by
  have hmade : Script.MadeOf (fun _ => True) program :=
    madeOf_of_parseProgram (fun _ _ _ _ _ _ => trivial) h
  exact fun s hs => (hmade s hs).clauses

end TraceTutor
