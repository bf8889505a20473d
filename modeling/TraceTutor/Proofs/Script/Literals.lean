import TraceTutor.Proofs.Script.Depth
import TraceTutor.Proofs.Value.Closed

/-!
# Literals of parsed expressions

A literal that is parsed is made in the ways in which operators make values: numbers go through
`Value.ofBinary64`. So a property that operators keep holds of all literals of a program
(`madeOf_literalsIn`) and of an expression that stands alone (`literalsIn_of_parseExpression`).
-/

namespace TraceTutor

mutual

/-- All literals in the expression have the property. -/
def Expr.LiteralsIn (P : Value → Prop) : Expr → Prop
  | .literal v => P v
  | .name _ => True
  | .array items => Expr.ItemLiteralsIn P items
  | .object fields => Expr.FieldLiteralsIn P fields
  | .unary _ operand => operand.LiteralsIn P
  | .binary _ left right => left.LiteralsIn P ∧ right.LiteralsIn P
  | .ternary condition yes no => condition.LiteralsIn P ∧ yes.LiteralsIn P ∧ no.LiteralsIn P
  | .index target i => target.LiteralsIn P ∧ i.LiteralsIn P
  | .member target _ => target.LiteralsIn P
  | .call callee args => callee.LiteralsIn P ∧ Expr.ItemLiteralsIn P args

def Expr.ItemLiteralsIn (P : Value → Prop) : List Expr → Prop
  | [] => True
  | e :: rest => e.LiteralsIn P ∧ Expr.ItemLiteralsIn P rest

def Expr.FieldLiteralsIn (P : Value → Prop) : List (String × Expr) → Prop
  | [] => True
  | (_, e) :: rest => e.LiteralsIn P ∧ Expr.FieldLiteralsIn P rest

end

variable {P : Value → Prop}

theorem Expr.itemLiteralsIn_iff {items : List Expr} :
    ItemLiteralsIn P items ↔ ∀ e ∈ items, e.LiteralsIn P := by
  induction items with
  | nil => simp [ItemLiteralsIn]
  | cons e rest ih => simp [ItemLiteralsIn, ih]

theorem Expr.fieldLiteralsIn_iff {fields : List (String × Expr)} :
    FieldLiteralsIn P fields ↔ ∀ field ∈ fields, field.2.LiteralsIn P := by
  induction fields with
  | nil => simp [FieldLiteralsIn]
  | cons field rest ih => simp [FieldLiteralsIn, ih]

/-! ## Literals that parsers give -/

namespace ExprParser

open TokenParser

theorem literalsIn_of_atom? (hP : Value.IsClosed P) {k : TokenKind} {e : Expr}
    (h : atom? k = some e) : e.LiteralsIn P := by
  unfold atom? at h
  split at h <;> cases h
  · exact hP.ofBinary64 _
  · exact hP.string _
  · exact hP.bool true
  · exact hP.bool false
  · exact hP.null
  · trivial
  · trivial

section

variable {expression : TokenParser Expr} (h : Gives (Expr.LiteralsIn P) expression)

include h

theorem literals_field : Gives (fun field => field.2.LiteralsIn P) (field expression) := by
  refine .andThen fun next => ?_
  split
  · exact .fail _
  · refine .andThen fun _ => .andThen fun colon => ?_
    split
    · exact .bind h fun e he => .pure he
    · exact .pure trivial

theorem literals_primary (hP : Value.IsClosed P) :
    Gives (Expr.LiteralsIn P) (primary expression) := by
  refine .andThen fun next => ?_
  split
  · exact .andThen fun _ => .bind h fun inner hinner => .andThen fun _ => .pure hinner
  · refine .andThen fun _ => .andThen fun fuel => .bind (gives_listUntil h _ fuel) ?_
    exact fun items hitems => .andThen fun _ => .pure (Expr.itemLiteralsIn_iff.2 hitems)
  · refine .andThen fun _ => .andThen fun fuel =>
      .bind (gives_listUntil (literals_field h) _ fuel) ?_
    exact fun fields hfields => .andThen fun _ => .pure (Expr.fieldLiteralsIn_iff.2 hfields)
  · split
    next e hatom =>
      obtain ⟨k, -, hk⟩ := Option.bind_eq_some_iff.1 hatom
      exact .andThen fun _ => .pure (literalsIn_of_atom? hP hk)
    next => exact .fail _

theorem literals_suffix {e : Expr} (he : e.LiteralsIn P) :
    Gives (fun e? => ∀ e ∈ e?, e.LiteralsIn P) (suffix expression e) := by
  refine .andThen fun next => ?_
  split
  · have hargs : Gives (fun args => ∀ e ∈ args, e.LiteralsIn P) (arguments expression) :=
      .bind (gives_separatedUnless h _) fun _ hargs => .andThen fun _ => .pure hargs
    exact .andThen fun _ => .bind hargs fun args hargs =>
      gives_some ⟨he, Expr.itemLiteralsIn_iff.2 hargs⟩
  · exact .andThen fun _ => .bind h fun i hi => .andThen fun _ => gives_some ⟨he, hi⟩
  · exact .andThen fun _ => .andThen fun name => gives_some he
  · exact gives_none

theorem literals_operandWith (hP : Value.IsClosed P) {deeper : TokenParser Expr}
    (hdeeper : Gives (Expr.LiteralsIn P) deeper) :
    Gives (Expr.LiteralsIn P) (operandWith deeper expression) := by
  refine .andThen fun next => ?_
  split
  · exact .andThen fun _ => .bind hdeeper fun e he => .pure he
  · exact .bind (literals_primary h hP) fun _ he => .andThen fun fuel =>
      gives_repeatStep (fun _ he => literals_suffix h he) fuel he

theorem literals_chain (layer : Nat) : Gives (Expr.LiteralsIn P) (chain layer expression) := by
  refine .bind h fun first hfirst => .andThen fun fuel => ?_
  refine gives_repeatStep (fun left hleft => ?_) fuel hfirst
  refine .andThen fun next => ?_
  split
  · split
    · exact .andThen fun _ => .bind h fun right hright => gives_some ⟨hleft, hright⟩
    · exact gives_none
  · exact gives_none

theorem literals_choice {operand : TokenParser Expr}
    (hoperand : Gives (Expr.LiteralsIn P) operand) :
    Gives (Expr.LiteralsIn P) (choice expression operand) := by
  have hbinary : Gives (Expr.LiteralsIn P) (binary operand) :=
    literals_chain (literals_chain (literals_chain (literals_chain (literals_chain
      (literals_chain hoperand 6) 5) 4) 3) 2) 1
  refine .bind hbinary fun condition hcondition => .andThen fun asked => ?_
  split
  · exact .bind h fun yes hyes => .andThen fun _ => .bind h fun no hno =>
      .pure ⟨hcondition, hyes, hno⟩
  · exact .pure hcondition

end

/-- By induction on the levels of nesting that are left. -/
theorem literals_atDepth (hP : Value.IsClosed P) (n : Nat) :
    Gives (Expr.LiteralsIn P) (atDepth n).expression ∧
      Gives (Expr.LiteralsIn P) (atDepth n).operand := by
  induction n with
  | zero => exact ⟨.fail _, literals_operandWith (.fail _) hP (.fail _)⟩
  | succ n ih =>
    have hchoice : Gives (Expr.LiteralsIn P) (atDepth (n + 1)).expression :=
      literals_choice ih.1 ih.2
    exact ⟨hchoice, literals_operandWith hchoice hP ih.2⟩

end ExprParser

/-! ## Literals of programs -/

theorem madeOf_literalsIn (hP : Value.IsClosed P) {source : String} {program : Program}
    (h : parseProgram source = .ok program) : Script.MadeOf (Expr.LiteralsIn P) program :=
  madeOf_of_parseProgram (fun n _ => (ExprParser.literals_atDepth hP n).1) h

theorem literalsIn_of_parseExpression (hP : Value.IsClosed P) {source : String} {e : Expr}
    (h : parseExpression source = .ok e) : e.LiteralsIn P := by
  obtain ⟨stream, -, hrest⟩ := except_bind_eq_ok_iff.1 h
  obtain ⟨⟨e', rest⟩, hexpression, hrest⟩ := except_bind_eq_ok_iff.1 hrest
  obtain ⟨⟨_, rest'⟩, -, hrest⟩ := except_bind_eq_ok_iff.1 hrest
  have he := (ExprParser.literals_atDepth hP maxNesting).1 stream e' rest hexpression
  dsimp only at hrest
  split at hrest
  · cases hrest
    exact he
  · -- Whatever is left over is an error.
    obtain ⟨_, hfail, -⟩ := except_bind_eq_ok_iff.1 hrest
    cases hfail

end TraceTutor
