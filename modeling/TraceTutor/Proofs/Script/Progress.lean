import TraceTutor.Proofs.Script.Climbing
import TraceTutor.Proofs.Script.Realization

/-!
# Progress of the parsers

Every procedure of the recursive descent ends, and does exactly what the parser of its rule does
with as many levels of nesting as are left (`Descent.follows_call`). Recursion ends because each
level takes one of the levels that are left, and a loop ends because each round reads a token. What
is known about the parsers thus holds of the cursor (`Descent.descent_progresses`).
-/

namespace TraceTutor

namespace Descent

open TokenStream

variable {stream : TokenStream} {α β : Type} {c : Cursor} {n : Nat}

/-! ## Rules and their parsers -/

/-- A parser one level deeper, where a level is left. -/
def nested (p : Nat → TokenParser α) : Nat → TokenParser α
  | 0 => TokenParser.fail .shallowNesting
  | n + 1 => p n

open TokenParser StmtParser ExprParser in
/-- The parser of a rule where `n` levels are left. -/
def Rule.parser (n : Nat) : {α : Type} → Rule α → TokenParser α
  | _, program => fun s => StmtParser.program (StmtParser.atDepth n).statement s.tokens s
  | _, standalone => do
    let e ← (ExprParser.atDepth n).expression
    let _ ← accept .semicolon
    if (← peek).isNone then return e else fail .endOfExpression
  | _, statement => (StmtParser.atDepth n).statement
  | _, simple => StmtParser.simple (StmtParser.atDepth n).exprs.expression
  | _, conditional => StmtParser.conditional (StmtParser.atDepth n)
  | _, whileLoop => StmtParser.whileLoop (StmtParser.atDepth n)
  | _, forLoop => StmtParser.forLoop (StmtParser.atDepth n)
  | _, function => StmtParser.function (StmtParser.atDepth n)
  | _, parenthesized => StmtParser.parenthesized (StmtParser.atDepth n).exprs.expression
  | _, block => (StmtParser.atDepth n).body
  | _, blockBody => bodyOf (StmtParser.atDepth n).statement
  | _, blockRest => fun s => StmtParser.blockRest (StmtParser.atDepth n).statement s.tokens s
  | _, expression => (ExprParser.atDepth n).expression
  | _, choice => ExprParser.choice (ExprParser.atDepth n).expression (ExprParser.atDepth n).operand
  | _, binary m => (ExprParser.atDepth n).operand >>= (ExprParser.atDepth n).climb m
  | _, binaryRest m left => (ExprParser.atDepth n).climb m left
  | _, operand => (ExprParser.atDepth n).operand
  | _, postfixed => ExprParser.postfixed (ExprParser.atDepth n).expression
  | _, postfixedRest e => loop (ExprParser.suffix (ExprParser.atDepth n).expression) e
  | _, suffix e => ExprParser.suffix (ExprParser.atDepth n).expression e
  | _, arguments => ExprParser.arguments (ExprParser.atDepth n).expression
  | _, primary => ExprParser.primary (ExprParser.atDepth n).expression
  | _, array => do
    let items ← TokenParser.listUntil .closeBracket (ExprParser.atDepth n).expression (← fuel)
    expect .closeBracket .closeArray
    return .array items
  | _, object => do
    let fields ← TokenParser.listUntil .closeBrace
      (ExprParser.field (ExprParser.atDepth n).expression) (← fuel)
    expect .closeBrace .closeObject
    return .object fields
  | _, field => ExprParser.field (ExprParser.atDepth n).expression
  | _, identifier => TokenParser.identifier
  | _, separated item => fun s => TokenParser.separated (item.parser n) s.tokens s
  | _, listUntil close item => fun s => TokenParser.listUntil close (item.parser n) s.tokens s

/-- The rules do what their parsers do where they are called one level deeper. -/
def IsDeep (stream : TokenStream) (n : Nat) : Prop :=
  ∀ {α : Type} (rule : Rule α), Realizes stream n (.nest rule) (nested (rule.parser ·) n)

theorem isDeep_zero : IsDeep stream 0 := by
  intro α rule c hc hn
  have hdepth : maxNesting ≤ c.depth := Nat.le_of_sub_eq_zero hn
  exact ⟨_, .tooDeep hdepth (.fail _ c), rfl⟩

theorem isDeep_succ
    (h : ∀ {α : Type} (rule : Rule α), Realizes stream n (.call rule) (rule.parser n)) :
    IsDeep stream (n + 1) := by
  intro α rule c hc hn
  have hdepth : c.depth < maxNesting := Nat.lt_of_sub_eq_succ hn
  have hlevels : c.enter.levels = n := by
    show maxNesting - (c.depth + 1) = n
    rw [← Nat.sub_sub]
    exact congrArg Nat.pred hn
  obtain ⟨report, hruns, hp⟩ := h rule c.enter (hc.enter hdepth) hlevels
  cases hruns with
  | call hbody => exact ⟨_, .nest hdepth hbody, hp⟩

theorem expression_atDepth (n : Nat) :
    (ExprParser.atDepth n).expression = nested (Rule.choice.parser ·) n := by
  cases n <;> rfl

theorem body_atDepth (n : Nat) :
    (StmtParser.atDepth n).body = nested (Rule.blockBody.parser ·) n := by
  cases n <;> rfl

theorem elseIf_atDepth (n : Nat) :
    (StmtParser.atDepth n).elseIf = nested (Rule.conditional.parser ·) n := by
  cases n <;> rfl

theorem deeper_eq_nested (n : Nat) : ExprParser.deeper n = nested (Rule.operand.parser ·) n := by
  cases n <;> rfl

/-! ## Expressions -/

section

variable (deep : IsDeep stream n)

include deep

theorem realizes_expression :
    Realizes stream n (.call .expression) (ExprParser.atDepth n).expression :=
  .call (.congr (expression_atDepth n).symm (deep .choice))

theorem realizes_field : Realizes stream n (.call .field) (Rule.field.parser n) := by
  refine .call (.bind .peek fun next => ?_)
  cases next.bind ExprParser.fieldKey? with
  | none => exact .fail _
  | some key =>
    refine .bind .advance fun _ => .bind (.accept _) fun colon => ?_
    split
    · exact .bind (realizes_expression deep) fun e => .pure (key, e)
    · exact .pure _

theorem realizes_array : Realizes stream n (.call .array) (Rule.array.parser n) :=
  .call (.bind (realizes_listUntil (realizes_expression deep) _) fun _ =>
    .bind (.expect _ _) fun _ => .pure _)

theorem realizes_object : Realizes stream n (.call .object) (Rule.object.parser n) :=
  .call (.bind (realizes_listUntil (realizes_field deep) _) fun _ =>
    .bind (.expect _ _) fun _ => .pure _)

theorem realizes_primary : Realizes stream n (.call .primary) (Rule.primary.parser n) := by
  refine .call (.bind .peek fun next => ?_)
  cases next with
  | none => exact .fail _
  | some kind =>
    cases kind with
    | number | string | identifier => exact .bind .advance fun _ => .pure _
    | keyword word =>
      cases word with
      | trueWord | falseWord | nullWord | undefinedWord => exact .bind .advance fun _ => .pure _
      | _ => exact .fail _
    | sign sign =>
      cases sign with
      | openParen =>
        refine .bind .advance fun _ => .bind (realizes_expression deep) fun inner => ?_
        exact .bind (.expect _ _) fun _ => .pure inner
      | openBracket => exact .bind .advance fun _ => realizes_array deep
      | openBrace => exact .bind .advance fun _ => realizes_object deep
      | _ => exact .fail _

theorem realizes_arguments : Realizes stream n (.call .arguments) (Rule.arguments.parser n) :=
  .call (.bind (realizes_separatedUnless (realizes_expression deep) _) fun args =>
    .bind (.expect _ _) fun _ => .pure args)

theorem realizes_suffix (e : Expr) :
    Realizes stream n (.call (.suffix e)) ((Rule.suffix e).parser n) := by
  refine .call (.bind .peek fun next => ?_)
  cases next with
  | none => exact .pure none
  | some kind =>
    cases kind with
    | sign sign =>
      cases sign with
      | openParen => exact .bind .advance fun _ => .bind (realizes_arguments deep) fun _ => .pure _
      | openBracket =>
        refine .bind .advance fun _ => .bind (realizes_expression deep) fun index => ?_
        exact .bind (.expect _ _) fun _ => .pure _
      | dot => exact .bind .advance fun _ => .bind .identifier fun _ => .pure _
      | _ => exact .pure none
    | _ => exact .pure none

/-- By induction on the tokens that are left: each suffix takes some. -/
theorem realizes_postfixedRest (e : Expr) :
    Realizes stream n (.call (.postfixedRest e)) ((Rule.postfixedRest e).parser n) := by
  have hstep := ExprParser.isStep_suffix (ExprParser.consumes_atDepth n).1
  intro c hc hn
  induction hlength : (c.rest stream).tokens.length using Nat.strong_induction_on
    generalizing c e with
  | _ length ih =>
    have hloop := TokenParser.loop_eq hstep e
    refine .congr (congrFun hloop.symm _) (.call ?_)
    refine (realizes_suffix deep e c hc hn).bind hc fun e? c' hc' hlevels _ hp => ?_
    cases e? with
    | none => exact Realizes.pure e c' hc' rfl
    | some e' =>
      have hless := hstep.advances e hp
      exact ih _ (hlength ▸ hless) e' c' hc' (hlevels.trans hn) rfl

theorem realizes_postfixed : Realizes stream n (.call .postfixed) (Rule.postfixed.parser n) :=
  .call (.bind (realizes_primary deep) fun e => realizes_postfixedRest deep e)

theorem realizes_operand : Realizes stream n (.call .operand) (ExprParser.atDepth n).operand := by
  refine .congr (ExprParser.operand_atDepth n).symm (.call (.bind .peek fun next => ?_))
  cases next.bind ExprParser.prefixOp? with
  | none => exact realizes_postfixed deep
  | some op =>
    refine .bind .advance fun _ => .bind ?_ fun e => .pure _
    exact .congr (deeper_eq_nested n).symm (deep .operand)

/-- By induction on the tokens that are left: each operator takes one, so both the operand behind it
and the next round have fewer. -/
theorem realizes_binaryRest (m : Nat) (left : Expr) :
    Realizes stream n (.call (.binaryRest m left)) ((ExprParser.atDepth n).climb m left) := by
  intro c hc hn
  induction hlength : (c.rest stream).tokens.length using Nat.strong_induction_on
    generalizing c m left with
  | _ length ih =>
    have hover : ExprParser.IsBelow m (c.rest stream) →
        Follows stream (pure left) ((ExprParser.atDepth n).climb m left) c := fun h =>
      .congr (ExprParser.climb_of_isBelow h).symm (Realizes.pure left c hc rfl)
    refine .call (.look ?_)
    cases hop : (c.rest stream).kind?.bind ExprParser.binaryOp? with
    | none => exact hover fun op l hl => by cases hop.symm.trans hl
    | some operator =>
      obtain ⟨op, l⟩ := operator
      show Follows stream (if l < m then _ else _) _ c
      split
      next hlt => exact hover fun op' l' hl => by cases hop.symm.trans hl; exact hlt
      next hle =>
        obtain ⟨k, hk, -⟩ := Option.bind_eq_some_iff.1 hop
        have hless : ∀ {c' : Cursor}, (c.advance stream).position ≤ c'.position →
            (c'.rest stream).tokens.length < length :=
          fun hposition => hlength ▸ Cursor.length_rest_lt hk hposition
        have hc₁ : (c.advance stream).IsWithin stream := hc.advance
        have hn₁ : (c.advance stream).levels = n := Cursor.levels_advance.trans hn
        refine .congr (ExprParser.climb_eq_of_binaryOp? hop (not_lt.1 hle)).symm
          (.advance (.bind (.call ?_) hc₁ ?_))
        · refine (realizes_operand deep _ hc₁ hn₁).bind hc₁ fun e c' hc' hlevels hposition _ => ?_
          exact ih _ (hless hposition) (l + 1) e c' hc' (hlevels.trans hn₁) rfl
        · intro right c' hc' hlevels hposition _
          exact ih _ (hless hposition) m _ c' hc' (hlevels.trans hn₁) rfl

theorem realizes_binary (m : Nat) :
    Realizes stream n (.call (.binary m)) ((Rule.binary m).parser n) :=
  .call (.bind (realizes_operand deep) fun left => realizes_binaryRest deep m left)

theorem realizes_choice : Realizes stream n (.call .choice) (Rule.choice.parser n) := by
  have hbinary : (ExprParser.atDepth n).operand >>= (ExprParser.atDepth n).climb 0 =
      ExprParser.binary (ExprParser.atDepth n).operand := by
    have hzero : (ExprParser.atDepth n).climb 0 = (ExprParser.atDepth n).climb 1 :=
      funext fun left => ExprParser.climb_zero
    rw [hzero]
    exact (ExprParser.layer_eq_climb _ Nat.one_pos (by decide)).symm
  refine .call (.bind (.congr hbinary (realizes_binary deep 0)) fun condition => ?_)
  refine .bind (.accept _) fun asked => ?_
  split
  · refine .bind (realizes_expression deep) fun yes => .bind (.expect _ _) fun _ => ?_
    exact .bind (realizes_expression deep) fun no => .pure _
  · exact .pure condition

theorem realizes_standalone : Realizes stream n (.call .standalone) (Rule.standalone.parser n) := by
  refine .call (.bind (realizes_expression deep) fun e => .bind (.accept _) fun _ => ?_)
  refine .bind .peek fun next => ?_
  split
  · exact .pure e
  · exact .fail _

/-! ## Statements -/

theorem realizes_exprs :
    Realizes stream n (.call .expression) (StmtParser.atDepth n).exprs.expression :=
  .congr (congrArg ExprParser.expression (StmtParser.exprs_atDepth n).symm)
    (realizes_expression deep)

theorem realizes_simple : Realizes stream n (.call .simple) (Rule.simple.parser n) := by
  have hexpression := realizes_exprs deep
  refine .call (.bind .location fun l => .bind .peekOpening fun opening => ?_)
  have hend : ∀ e (arrow : Bool), Realizes stream n
      (if arrow then Action.fail .noArrow >>= fun _ : PUnit => pure (.expression l e)
        else pure (.expression l e) : Action Stmt)
      (if arrow then TokenParser.fail .noArrow >>= fun _ : PUnit => pure (.expression l e)
        else pure (.expression l e)) := by
    intro e arrow
    cases arrow with
    | true => exact .bind (.fail _) fun _ => .pure _
    | false => exact .pure _
  cases opening with
  | declaration kind =>
    refine .bind .advance fun _ => .bind .identifier fun name => .bind (.accept _) fun initial => ?_
    split
    · exact .bind hexpression fun e => .pure _
    · exact .pure _
  | prefixUpdate delta => exact .bind .advance fun _ => .bind .identifier fun name => .pure _
  | assignment target op =>
    refine .bind .advance fun _ => .bind .advance fun _ => ?_
    exact .bind hexpression fun e => .pure _
  | postfixUpdate target delta => exact .bind .advance fun _ => .bind .advance fun _ => .pure _
  | expression =>
    refine .bind hexpression fun e => .bind (.check _) fun assigned => ?_
    cases assigned with
    | true => exact .bind (.fail _) fun _ => .bind (.check _) fun arrow => hend e arrow
    | false => exact .bind (.check _) fun arrow => hend e arrow

theorem realizes_parenthesized :
    Realizes stream n (.call .parenthesized) (Rule.parenthesized.parser n) :=
  .call (.bind (.expect _ _) fun _ => .bind (realizes_exprs deep) fun e =>
    .bind (.expect _ _) fun _ => .pure e)

theorem realizes_block : Realizes stream n (.call .block) (StmtParser.atDepth n).body :=
  .call (.congr (body_atDepth n).symm (deep .blockBody))

theorem realizes_conditional :
    Realizes stream n (.call .conditional) (Rule.conditional.parser n) := by
  have hblock := realizes_block deep
  refine .call (.bind .location fun l => .bind .advance fun _ => ?_)
  refine .bind (realizes_parenthesized deep) fun condition => .bind hblock fun yes => ?_
  refine .bind (.acceptWord _) fun alternative => ?_
  split
  · refine .bind .peek fun next => ?_
    split
    · exact .bind (.congr (elseIf_atDepth n).symm (deep .conditional)) fun no => .pure _
    · exact .bind hblock fun no => .pure _
  · exact .pure _

theorem realizes_whileLoop : Realizes stream n (.call .whileLoop) (Rule.whileLoop.parser n) := by
  refine .call (.bind .location fun l => .bind .advance fun _ => ?_)
  refine .bind (realizes_parenthesized deep) fun condition => ?_
  exact .bind (realizes_block deep) fun body => .pure _

theorem realizes_forLoop : Realizes stream n (.call .forLoop) (Rule.forLoop.parser n) := by
  have hsimple := realizes_simple deep
  refine .call (.bind .location fun l => .bind .advance fun _ => .bind (.expect _ _) fun _ => ?_)
  refine .bind (realizes_clause hsimple _) fun initial => .bind (.expect _ _) fun _ => ?_
  refine .bind (realizes_clause (realizes_exprs deep) _) fun condition => ?_
  refine .bind (.expect _ _) fun _ => .bind (realizes_clause hsimple _) fun update => ?_
  exact .bind (.expect _ _) fun _ => .bind (realizes_block deep) fun body => .pure _

theorem realizes_function : Realizes stream n (.call .function) (Rule.function.parser n) := by
  refine .call (.bind .location fun l => .bind .advance fun _ => .bind .identifier fun name => ?_)
  refine .bind (.expect _ _) fun _ => ?_
  refine .bind (realizes_separatedUnless .identifier _) fun params => ?_
  refine .bind (.expect _ _) fun _ => .bind (.check _) fun hasBody => ?_
  split
  · exact .bind (realizes_block deep) fun body => .pure _
  · exact .fail _

theorem realizes_returned :
    Realizes stream n .returned (StmtParser.returned (StmtParser.atDepth n)) := by
  refine .bind .location fun l => .bind .advance fun _ => .bind (.valueFollows _) fun follows => ?_
  split
  · exact .bind (realizes_exprs deep) fun e => .pure _
  · exact .pure _

omit deep in
theorem realizes_terminated {a : Action Stmt} {p : TokenParser Stmt} (h : Realizes stream n a p) :
    Realizes stream n (.terminated a) (StmtParser.terminated p) :=
  .bind h fun s => .bind (.accept _) fun _ => .pure s

theorem realizes_statement :
    Realizes stream n (.call .statement) (StmtParser.atDepth n).statement := by
  have hsimple := realizes_terminated (realizes_simple deep)
  refine .call (.bind .location fun l => .bind .peek fun next => ?_)
  cases next with
  | none => exact hsimple
  | some kind =>
    cases kind with
    | number | string | identifier => exact hsimple
    | keyword word =>
      cases word with
      | ifWord => exact realizes_conditional deep
      | whileWord => exact realizes_whileLoop deep
      | forWord => exact realizes_forLoop deep
      | functionWord => exact realizes_function deep
      | returnWord => exact realizes_terminated (realizes_returned deep)
      | breakWord => exact realizes_terminated (.bind .advance fun _ => .pure _)
      | continueWord => exact realizes_terminated (.bind .advance fun _ => .pure _)
      | _ => exact hsimple
    | sign sign =>
      cases sign with
      | openBrace => exact .bind (realizes_block deep) fun body => .pure _
      | semicolon => exact .bind .advance fun _ => .pure _
      | _ => exact hsimple

/-! ## Bodies and programs -/

omit deep in
theorem consumes_statement (n : Nat) : TokenParser.Consumes (StmtParser.atDepth n).statement :=
  fun s x s' hx =>
    have hstays := StmtParser.staysIn_statement (StmtParser.sound_atDepth (fun _ => True) n)
    ⟨(hstays s (fun _ _ => trivial) x s' hx).1, trivial⟩

/-- A statement, and a rest that has fewer tokens. -/
theorem follows_statementThen {more : Rule (List Stmt)} {rest : TokenParser (List Stmt)}
    (hc : c.IsWithin stream) (hn : c.levels = n)
    (hmore : ∀ c', c'.IsWithin stream → c'.levels = n →
      (c'.rest stream).tokens.length < (c.rest stream).tokens.length →
        Follows stream (.call more) rest c') :
    Follows stream (do
      let s ← .call .statement
      return s :: (← .call more))
      (do
        let s ← (StmtParser.atDepth n).statement
        return s :: (← rest)) c := by
  refine (realizes_statement deep c hc hn).bind hc fun s c' hc' hlevels _ hp => ?_
  have hless := (consumes_statement n _ _ _ hp).1.length_le
  have hrest := hmore c' hc' (hlevels.trans hn) hless
  exact hrest.bind hc' fun body c₁ hc₁ _ _ _ => Realizes.pure (s :: body) c₁ hc₁ rfl

/-- By induction on the fuel of the parser: each statement reads a token. -/
theorem follows_blockRest (fuel : List Token) (hc : c.IsWithin stream) (hn : c.levels = n)
    (hfuel : (c.rest stream).tokens.length ≤ fuel.length) :
    Follows stream (.call .blockRest)
      (StmtParser.blockRest (StmtParser.atDepth n).statement fuel) c := by
  induction fuel generalizing c with
  | nil =>
    have hend : (c.rest stream).kind? = none := TokenParser.kind?_eq_none_of_length_le hfuel
    have hbrace : (c.rest stream).kind? ≠ some (.sign .closeBrace) := by simp [hend]
    refine .call (.accept_of_ne hbrace (.look ?_))
    rw [hend]
    exact Realizes.fail _ c hc rfl
  | cons token fuel ih =>
    refine .call (.accept (fun _ => Realizes.pure [] _ hc.advance rfl) fun _ => ?_)
    refine .view (fun _ => rfl) ?_
    cases (c.rest stream).kind? with
    | none => exact Realizes.fail _ c hc rfl
    | some kind =>
      refine follows_statementThen deep hc hn fun c' hc' hn' hless => ih hc' hn' ?_
      exact Nat.lt_succ_iff.1 (hless.trans_le hfuel)

theorem realizes_blockBody : Realizes stream n (.call .blockBody) (Rule.blockBody.parser n) := by
  refine .call (.bind (.accept _) fun opened => ?_)
  split
  · exact fun c hc hn => follows_blockRest deep _ hc hn le_rfl
  · exact .bind (realizes_statement deep) fun s => .pure [s]

theorem follows_program (fuel : List Token) (hc : c.IsWithin stream) (hn : c.levels = n)
    (hfuel : (c.rest stream).tokens.length ≤ fuel.length) :
    Follows stream (.call .program)
      (StmtParser.program (StmtParser.atDepth n).statement fuel) c := by
  induction fuel generalizing c with
  | nil =>
    refine .call (.look ?_)
    rw [TokenParser.kind?_eq_none_of_length_le hfuel]
    exact Realizes.pure [] c hc rfl
  | cons token fuel ih =>
    refine .call (.view (fun _ => rfl) ?_)
    cases (c.rest stream).kind? with
    | none => exact Realizes.pure [] c hc rfl
    | some kind =>
      refine follows_statementThen deep hc hn fun c' hc' hn' hless => ih hc' hn' ?_
      exact Nat.lt_succ_iff.1 (hless.trans_le hfuel)

/-- One case for each rule. -/
theorem realizes_call (rule : Rule α) : Realizes stream n (.call rule) (rule.parser n) := by
  induction rule with
  | program => exact fun c hc hn => follows_program deep _ hc hn le_rfl
  | standalone => exact realizes_standalone deep
  | statement => exact realizes_statement deep
  | simple => exact realizes_simple deep
  | conditional => exact realizes_conditional deep
  | whileLoop => exact realizes_whileLoop deep
  | forLoop => exact realizes_forLoop deep
  | function => exact realizes_function deep
  | parenthesized => exact realizes_parenthesized deep
  | block => exact realizes_block deep
  | blockBody => exact realizes_blockBody deep
  | blockRest => exact fun c hc hn => follows_blockRest deep _ hc hn le_rfl
  | expression => exact realizes_expression deep
  | choice => exact realizes_choice deep
  | binary m => exact realizes_binary deep m
  | binaryRest m left => exact realizes_binaryRest deep m left
  | operand => exact realizes_operand deep
  | postfixed => exact realizes_postfixed deep
  | postfixedRest e => exact realizes_postfixedRest deep e
  | suffix e => exact realizes_suffix deep e
  | arguments => exact realizes_arguments deep
  | primary => exact realizes_primary deep
  | array => exact realizes_array deep
  | object => exact realizes_object deep
  | field => exact realizes_field deep
  | identifier => exact .identifier
  | separated item ih => exact realizes_separated ih
  | listUntil close item ih => exact realizes_listUntil ih close

end

/-- By induction on the levels that are left: the calls one level deeper have a level less. -/
theorem follows_call (rule : Rule α) (hc : c.IsWithin stream) :
    Follows stream (.call rule) (rule.parser c.levels) c := by
  have hdeep : ∀ n, IsDeep stream n := by
    intro n
    induction n with
    | zero => exact isDeep_zero
    | succ n ih => exact isDeep_succ fun rule => realizes_call ih rule
  exact realizes_call (hdeep c.levels) rule c hc rfl

/-! ## Progress -/

/-- A program is only over where its text is. -/
theorem tokens_eq_nil_of_program {statement : TokenParser Stmt} (h : TokenParser.Consumes statement)
    {fuel : List Token} {s s' : TokenStream} {program : Program}
    (hfuel : s.tokens.length ≤ fuel.length)
    (hprogram : StmtParser.program statement fuel s = .ok (program, s')) : s'.tokens = [] := by
  induction fuel generalizing s program with
  | nil =>
    cases hprogram
    exact List.length_eq_zero_iff.1 (Nat.le_zero.1 hfuel)
  | cons token fuel ih =>
    have hprogram' := (TokenParser.bind_of_ok (ExprParser.peek_eq s)).symm.trans hprogram
    cases htokens : s.tokens with
    | nil =>
      have hend : s.kind? = none := by simp [kind?, head?, htokens]
      rw [hend] at hprogram'
      cases hprogram'
      exact htokens
    | cons first rest =>
      have hkind : s.kind? = some first.kind := by simp [kind?, head?, htokens]
      rw [hkind] at hprogram'
      obtain ⟨⟨x, s₁⟩, hx, hrest⟩ := except_bind_eq_ok_iff.1 hprogram'
      obtain ⟨⟨xs, s₂⟩, hxs, heq⟩ := except_bind_eq_ok_iff.1 hrest
      cases heq
      have hless := (h s x s₁ hx).1.length_le
      rw [List.length_cons] at hfuel
      exact ih (by omega) hxs

section

variable {rule : Rule α} {report : Report α} (hruns : rule.Runs stream c report)
  (hc : c.IsWithin stream)

include hruns hc

theorem parser_eq_of_runs : rule.parser c.levels (c.rest stream) =
    report.outcome.map fun x => (x, report.cursor.rest stream) := by
  obtain ⟨report', hruns', hparser⟩ := follows_call rule hc
  cases hruns.unique hruns'
  exact hparser

theorem outcome_eq_of_runs :
    report.outcome = (rule.parser c.levels (c.rest stream)).map Prod.fst := by
  rw [parser_eq_of_runs hruns hc]
  cases report.outcome <;> rfl

theorem position_lt_of_consumes (h : (rule.parser c.levels).Consumes) {x : α}
    (hok : report.outcome = .ok x) : c.position < report.cursor.position := by
  have hparser := parser_eq_of_runs hruns hc
  rw [hok] at hparser
  have hless := (h _ _ _ hparser).1.length_le
  rw [Cursor.length_rest, Cursor.length_rest] at hless
  have hwithin := (Report.staysWithin_of_runs hruns hc).cursor.position_le
  omega

end

theorem parseProgram_eq {source : String} (h : tokenize source = .ok stream) :
    parseProgram source = (Rule.program.parser maxNesting stream).map Prod.fst := by
  unfold parseProgram
  rw [h]
  show (Rule.program.parser maxNesting stream >>= _) = _
  cases Rule.program.parser maxNesting stream with
  | error fault => rfl
  | ok result => rfl

theorem parseExpression_eq {source : String} (h : tokenize source = .ok stream) :
    parseExpression source = (Rule.standalone.parser maxNesting stream).map Prod.fst := by
  unfold parseExpression
  rw [h]
  show ((ExprParser.atDepth maxNesting).expression stream >>= _) = Except.map _
    (((ExprParser.atDepth maxNesting).expression >>= _) stream)
  cases hexpression : (ExprParser.atDepth maxNesting).expression stream with
  | error fault =>
    rw [TokenParser.bind_of_error hexpression]
    rfl
  | ok result =>
    obtain ⟨e, s⟩ := result
    rw [TokenParser.bind_of_ok hexpression]
    obtain ⟨b, s', haccept⟩ : ∃ b s', TokenParser.accept .semicolon s = .ok (b, s') := by
      unfold TokenParser.accept
      split <;> exact ⟨_, _, rfl⟩
    rw [TokenParser.bind_of_ok haccept]
    show (TokenParser.accept .semicolon s >>= _) = _
    rw [haccept]
    obtain ⟨tokens, stop⟩ := s'
    cases tokens <;> rfl

/-- On all tokens, each call of a rule within bounds has one run. It ends with the outcome of the
parser of the rule, keeps within the tokens and the limit on nesting at each move, and returns at
the depth of the call, with or without a fault. A statement or an expression that is read takes a
token at least, and a program that is read takes all of them. What the tokens of a text are read as
is what the text is read as. -/
theorem descent_progresses (stream : TokenStream) :
    (∀ (α : Type) (rule : Rule α) (c : Cursor), c.IsWithin stream →
      ∃! report, rule.Runs stream c report) ∧
    (∀ (α : Type) (rule : Rule α) (c : Cursor) (report : Report α), c.IsWithin stream →
      rule.Runs stream c report →
        report.outcome = (rule.parser c.levels (c.rest stream)).map Prod.fst ∧
        report.StaysWithin stream c) ∧
    (∀ c report s, c.IsWithin stream → Rule.statement.Runs stream c report →
      report.outcome = .ok s → c.position < report.cursor.position) ∧
    (∀ c report e, c.IsWithin stream → Rule.expression.Runs stream c report →
      report.outcome = .ok e → c.position < report.cursor.position) ∧
    (∀ c report program, c.IsWithin stream → Rule.program.Runs stream c report →
      report.outcome = .ok program → report.cursor.position = stream.tokens.length) ∧
    ∀ source, tokenize source = .ok stream →
      (∃ report, Rule.program.Runs stream .start report ∧
        report.outcome = parseProgram source) ∧
      ∃ report, Rule.standalone.Runs stream .start report ∧
        report.outcome = parseExpression source := by
  refine ⟨?_, ?_, ?_, ?_, ?_, ?_⟩
  · intro α rule c hc
    obtain ⟨report, hruns, -⟩ := follows_call rule hc
    exact ⟨report, hruns, fun report' hruns' => hruns'.unique hruns⟩
  · intro α rule c report hc hruns
    exact ⟨outcome_eq_of_runs hruns hc, Report.staysWithin_of_runs hruns hc⟩
  · intro c report s hc hruns hok
    exact position_lt_of_consumes hruns hc (consumes_statement _) hok
  · intro c report e hc hruns hok
    exact position_lt_of_consumes hruns hc (ExprParser.consumes_atDepth _).1 hok
  · intro c report program hc hruns hok
    have hparser := parser_eq_of_runs hruns hc
    rw [hok] at hparser
    have hnil := tokens_eq_nil_of_program (consumes_statement _) le_rfl hparser
    have hle := List.drop_eq_nil_iff.1 hnil
    exact Nat.le_antisymm (Report.staysWithin_of_runs hruns hc).cursor.position_le hle
  · intro source htokens
    rw [parseProgram_eq htokens, parseExpression_eq htokens]
    have hstart : Cursor.start.IsWithin stream := Cursor.isWithin_start
    obtain ⟨report, hruns, -⟩ := follows_call .program hstart
    obtain ⟨report', hruns', -⟩ := follows_call .standalone hstart
    exact ⟨⟨report, hruns, outcome_eq_of_runs hruns hstart⟩,
      report', hruns', outcome_eq_of_runs hruns' hstart⟩

/-- A condition, and a prefix operator that takes a level of its own. -/
theorem descent_progresses_conditional :
    let source := "if (a) -b"
    let stream : TokenStream := ⟨[⟨.keyword .ifWord, ⟨1, 1⟩⟩, ⟨.sign .openParen, ⟨1, 4⟩⟩,
      ⟨.identifier "a", ⟨1, 5⟩⟩, ⟨.sign .closeParen, ⟨1, 6⟩⟩, ⟨.sign .minus, ⟨1, 8⟩⟩,
      ⟨.identifier "b", ⟨1, 9⟩⟩], ⟨1, 10⟩⟩
    let program : Program :=
      [.cond ⟨1, 1⟩ (.name "a") [.expression ⟨1, 8⟩ (.unary .neg (.name "b"))] none]
    tokenize source = .ok stream ∧ parseProgram source = .ok program ∧
      ∃ report, Rule.program.Runs stream .start report ∧
        report.outcome = .ok program ∧ report.cursor.position = 6 := by
  intro source stream program
  have htokens : tokenize source = .ok stream := by decide +kernel
  have hparse : parseProgram source = .ok program := by
    unfold parseProgram
    rw [htokens]
    rfl
  obtain ⟨-, -, -, -, hover, hread⟩ := descent_progresses stream
  obtain ⟨⟨report, hruns, houtcome⟩, -⟩ := hread source htokens
  rw [hparse] at houtcome
  have hposition := hover .start report program Cursor.isWithin_start hruns houtcome
  exact ⟨htokens, hparse, report, hruns, houtcome, hposition⟩

end Descent

end TraceTutor
