import TraceTutor.Script.Parser.Statement

/-!
# Parsing by recursive descent

The grammar once more, as procedures on a cursor: a place in a list of tokens that stays as it is,
and a count of the levels of nesting that are open. `Rule` names the procedures and the rounds of
their loops, `Rule.body` says what each of them does, and `Action.Runs` says how that is carried out
and what it ends with. Nothing bounds the recursion or the rounds, so that there is no run of a
procedure that does not end.

Only `advance` and `nest` move the cursor. So whatever is run, the cursor stays within the tokens
and within the limit on nesting at each move, and stands at the depth where it started in the end,
with or without a fault (`Report.staysWithin_of_runs`).
-/

namespace TraceTutor

namespace Descent

/-! ## Cursors -/

/-- The number of tokens that were read, and the levels of nesting that are open. -/
structure Cursor where
  position : Nat
  depth : Nat
deriving DecidableEq, Repr

namespace Cursor

def start : Cursor := ⟨0, 0⟩

/-- The levels of nesting that may still be opened. -/
def levels (c : Cursor) : Nat :=
  maxNesting - c.depth

/-- The tokens that are still to be read. -/
def rest (stream : TokenStream) (c : Cursor) : TokenStream :=
  { stream with tokens := stream.tokens.drop c.position }

/-- The cursor behind the next token. The end of the text is no token that is read. -/
def advance (stream : TokenStream) (c : Cursor) : Cursor :=
  if c.position < stream.tokens.length then { c with position := c.position + 1 } else c

def enter (c : Cursor) : Cursor :=
  { c with depth := c.depth + 1 }

def leave (c : Cursor) : Cursor :=
  { c with depth := c.depth - 1 }

end Cursor

/-! ## Rules and actions -/

/-- The procedures of the grammar and the rounds of their loops, with what they yield. -/
inductive Rule : Type → Type 1
  | program : Rule Program
  | standalone : Rule Expr
  | statement : Rule Stmt
  | simple : Rule Stmt
  | conditional : Rule Stmt
  | whileLoop : Rule Stmt
  | forLoop : Rule Stmt
  | function : Rule Stmt
  | parenthesized : Rule Expr
  | block : Rule (List Stmt)
  | blockBody : Rule (List Stmt)
  | blockRest : Rule (List Stmt)
  | expression : Rule Expr
  | choice : Rule Expr
  /-- An expression with binary operators of the layer `m` and tighter ones. -/
  | binary (m : Nat) : Rule Expr
  | binaryRest (m : Nat) (left : Expr) : Rule Expr
  | operand : Rule Expr
  | postfixed : Rule Expr
  | postfixedRest (e : Expr) : Rule Expr
  | suffix (e : Expr) : Rule (Option Expr)
  | arguments : Rule (List Expr)
  | primary : Rule Expr
  | array : Rule Expr
  | object : Rule Expr
  | field : Rule (String × Expr)
  | identifier : Rule String
  /-- Items with commas between them, at least one. -/
  | separated {α : Type} (item : Rule α) : Rule (List α)
  /-- Items up to a closing sign, with commas between them and perhaps one at the end. -/
  | listUntil {α : Type} (close : Sign) (item : Rule α) : Rule (List α)

/-- What a procedure does. -/
inductive Action : Type → Type 1
  | done {α : Type} (x : α) : Action α
  | fail {α : Type} (wanted : Expectation) : Action α
  /-- Looks at the tokens that are still to be read. -/
  | look {α : Type} (view : TokenStream → α) : Action α
  | advance : Action Unit
  | call {α : Type} (rule : Rule α) : Action α
  /-- Calls a rule one level deeper. -/
  | nest {α : Type} (rule : Rule α) : Action α
  | andThen {α β : Type} (first : Action α) (next : α → Action β) : Action β

namespace Action

instance : Monad Action where
  pure := done
  bind := andThen

def peek : Action (Option TokenKind) :=
  look TokenStream.kind?

def location : Action Location :=
  look TokenStream.location

def check (sign : Sign) : Action Bool :=
  look fun s => s.kind? == some (.sign sign)

def accept (sign : Sign) : Action Bool := do
  if ← check sign then
    advance
    return true
  else return false

def acceptWord (word : Keyword) : Action Bool := do
  if (← peek) = some (.keyword word) then
    advance
    return true
  else return false

def expect (sign : Sign) (wanted : Expectation) : Action Unit := do
  if ← accept sign then return () else fail wanted

def peekOpening : Action StmtParser.Opening :=
  look fun s => StmtParser.opening s.kind? s.tail.kind?

def valueFollows (line : Nat) : Action Bool :=
  look fun s => match s.head? with
    | none => false
    | some token =>
      token.kind ≠ .sign .semicolon && token.kind ≠ .sign .closeBrace && token.location.line = line

def separatedUnless {α : Type} (close : Sign) (item : Rule α) : Action (List α) := do
  if ← check close then return [] else call (.separated item)

def clause {α : Type} (close : Sign) (part : Rule α) : Action (Option α) := do
  if ← check close then return none else return some (← call part)

def returned : Action Stmt := do
  let l ← location
  advance
  if ← valueFollows l.line then return .ret l (some (← call .expression)) else return .ret l none

def terminated (statement : Action Stmt) : Action Stmt := do
  let s ← statement
  let _ ← accept .semicolon
  return s

end Action

open TraceTutor.Descent.Action StmtParser ExprParser in
/-- What a rule does when it is called. -/
def Rule.body : {α : Type} → Rule α → Action α
  | _, program => do
    match ← peek with
    | none => return []
    | some _ =>
      let s ← call statement
      return s :: (← call program)
  | _, standalone => do
    let e ← call expression
    let _ ← accept .semicolon
    if (← peek).isNone then return e else fail .endOfExpression
  | _, statement => do
    let l ← location
    match ← peek with
    | some (.sign .openBrace) => return .block l (← call block)
    | some (.keyword .ifWord) => call conditional
    | some (.keyword .whileWord) => call whileLoop
    | some (.keyword .forWord) => call forLoop
    | some (.keyword .functionWord) => call function
    | some (.keyword .returnWord) => terminated returned
    | some (.keyword .breakWord) => terminated (do advance; return .stop l)
    | some (.keyword .continueWord) => terminated (do advance; return .next l)
    | some (.sign .semicolon) =>
      advance
      return .block l []
    | _ => terminated (call simple)
  | _, simple => do
    let l ← location
    match ← peekOpening with
    | .declaration kind =>
      advance
      let name ← call identifier
      if ← accept .assign then return .declare l kind name (some (← call expression))
      else return .declare l kind name none
    | .prefixUpdate delta =>
      advance
      return .update l (← call identifier) delta
    | .assignment target op =>
      advance
      advance
      return .assign l target op (← call expression)
    | .postfixUpdate target delta =>
      advance
      advance
      return .update l target delta
    | .expression =>
      let e ← call expression
      if ← check .assign then fail .plainTarget
      if ← check .arrow then fail .noArrow
      return .expression l e
  | _, conditional => do
    let l ← location
    advance
    let condition ← call parenthesized
    let yes ← call block
    if ← acceptWord .elseWord then
      if (← peek) = some (.keyword .ifWord) then
        return .cond l condition yes (some [← nest conditional])
      else return .cond l condition yes (some (← call block))
    else return .cond l condition yes none
  | _, whileLoop => do
    let l ← location
    advance
    let condition ← call parenthesized
    return .whileLoop l condition (← call block)
  | _, forLoop => do
    let l ← location
    advance
    expect .openParen .forOpen
    let initial ← clause .semicolon simple
    expect .semicolon .forInitializerEnd
    let condition ← clause .semicolon expression
    expect .semicolon .forConditionEnd
    let update ← clause .closeParen simple
    expect .closeParen .forClose
    return .forLoop l initial condition update (← call block)
  | _, function => do
    let l ← location
    advance
    let name ← call identifier
    expect .openParen .parametersOpen
    let params ← separatedUnless .closeParen identifier
    expect .closeParen .parametersClose
    if ← check .openBrace then return .function l name params (← call block)
    else fail .functionBody
  | _, parenthesized => do
    expect .openParen .openParen
    let e ← call expression
    expect .closeParen .closeParen
    return e
  | _, block => nest blockBody
  | _, blockBody => do
    if ← accept .openBrace then call blockRest else return [← call statement]
  | _, blockRest => do
    if ← accept .closeBrace then return []
    match ← peek with
    | none => fail .closeBlock
    | some _ =>
      let s ← call statement
      return s :: (← call blockRest)
  | _, expression => nest choice
  | _, choice => do
    let condition ← call (binary 0)
    if ← accept .question then
      let yes ← call expression
      expect .colon .ternaryColon
      return .ternary condition yes (← call expression)
    else return condition
  | _, binary m => do call (binaryRest m (← call operand))
  | _, binaryRest m left => do
    match (← peek).bind binaryOp? with
    | some (op, l) =>
      if l < m then return left else
        advance
        let right ← call (binary (l + 1))
        call (binaryRest m (.binary op left right))
    | none => return left
  | _, operand => do
    match (← peek).bind prefixOp? with
    | some op =>
      advance
      return .unary op (← nest operand)
    | none => call postfixed
  | _, postfixed => do call (postfixedRest (← call primary))
  | _, postfixedRest e => do
    match ← call (suffix e) with
    | some e => call (postfixedRest e)
    | none => return e
  | _, suffix e => do
    match ← peek with
    | some (.sign .openParen) =>
      advance
      return some (.call e (← call arguments))
    | some (.sign .openBracket) =>
      advance
      let index ← call expression
      expect .closeBracket .closeIndex
      return some (.index e index)
    | some (.sign .dot) =>
      advance
      return some (.member e (← call identifier))
    | _ => return none
  | _, arguments => do
    let args ← separatedUnless .closeParen expression
    expect .closeParen .closeArguments
    return args
  | _, primary => do
    match ← peek with
    | some (.sign .openParen) =>
      advance
      let inner ← call expression
      expect .closeParen .closeParen
      return inner
    | some (.sign .openBracket) =>
      advance
      call array
    | some (.sign .openBrace) =>
      advance
      call object
    | kind? =>
      match kind?.bind atom? with
      | some e =>
        advance
        return e
      | none => fail .expression
  | _, array => do
    let items ← call (listUntil .closeBracket expression)
    expect .closeBracket .closeArray
    return .array items
  | _, object => do
    let fields ← call (listUntil .closeBrace field)
    expect .closeBrace .closeObject
    return .object fields
  | _, field => do
    match (← peek).bind fieldKey? with
    | none => fail .propertyName
    | some key =>
      advance
      if ← accept .colon then return (key, ← call expression) else return (key, .name key)
  | _, identifier => do
    match ← peek with
    | some (.identifier name) =>
      advance
      return name
    | _ => fail .identifier
  | _, separated item => do
    let x ← call item
    if ← accept .comma then return x :: (← call (separated item)) else return [x]
  | _, listUntil close item => do
    if ← check close then return []
    let x ← call item
    if ← accept .comma then return x :: (← call (listUntil close item)) else return [x]

/-! ## Runs -/

/-- What a run leaves behind: its outcome, the cursor, and all cursors that it moved to. -/
structure Report (α : Type) where
  outcome : Except SyntaxFault α
  cursor : Cursor
  moves : List Cursor

/-- The action runs from the cursor and ends with the report. What does not end has no run. -/
inductive Action.Runs (stream : TokenStream) : {α : Type} → Action α → Cursor → Report α → Prop
  | done {α : Type} (x : α) (c : Cursor) : Runs stream (.done x) c ⟨.ok x, c, []⟩
  | fail {α : Type} (wanted : Expectation) (c : Cursor) :
    Runs stream (.fail wanted : Action α) c
      ⟨.error ⟨.unexpected wanted (c.rest stream).kind?, (c.rest stream).location⟩, c, []⟩
  | look {α : Type} (view : TokenStream → α) (c : Cursor) :
    Runs stream (.look view) c ⟨.ok (view (c.rest stream)), c, []⟩
  | advance (c : Cursor) :
    Runs stream .advance c ⟨.ok (), c.advance stream, [c.advance stream]⟩
  | call {α : Type} {rule : Rule α} {c : Cursor} {report : Report α}
    (body : Runs stream rule.body c report) : Runs stream (.call rule) c report
  | nest {α : Type} {rule : Rule α} {c : Cursor} {inner : Report α}
    (shallow : c.depth < maxNesting) (body : Runs stream rule.body c.enter inner) :
    Runs stream (.nest rule) c
      ⟨inner.outcome, inner.cursor.leave, c.enter :: inner.moves ++ [inner.cursor.leave]⟩
  | tooDeep {α : Type} {rule : Rule α} {c : Cursor} {report : Report α}
    (deep : maxNesting ≤ c.depth)
    (failure : Runs stream (.fail .shallowNesting) c report) : Runs stream (.nest rule) c report
  | andThen {α β : Type} {first : Action α} {next : α → Action β} {c c' c'' : Cursor} {x : α}
    {outcome : Except SyntaxFault β} {moves moves' : List Cursor}
    (start : Runs stream first c ⟨.ok x, c', moves⟩)
    (continued : Runs stream (next x) c' ⟨outcome, c'', moves'⟩) :
    Runs stream (.andThen first next) c ⟨outcome, c'', moves ++ moves'⟩
  | stop {α β : Type} {first : Action α} {next : α → Action β} {c c' : Cursor}
    {fault : SyntaxFault} {moves : List Cursor}
    (start : Runs stream first c ⟨.error fault, c', moves⟩) :
    Runs stream (.andThen first next) c ⟨.error fault, c', moves⟩

namespace Action

variable {stream : TokenStream} {c : Cursor} {α : Type}

/-- An action has no more than one run from a cursor. -/
theorem Runs.unique {action : Action α} {report report' : Report α}
    (h : action.Runs stream c report) (h' : action.Runs stream c report') : report = report' := by
  induction h with
  | done | fail | look | advance =>
    cases h'
    rfl
  | call _ ih =>
    cases h' with
    | call body => exact ih body
  | nest shallow _ ih =>
    cases h' with
    | nest _ body => rw [ih body]
    | tooDeep deep _ => exact absurd shallow (Nat.not_lt.2 deep)
  | tooDeep deep _ ih =>
    cases h' with
    | nest shallow _ => exact absurd shallow (Nat.not_lt.2 deep)
    | tooDeep _ failure => exact ih failure
  | andThen _ _ ihStart ihContinued =>
    cases h' with
    | andThen start continued =>
      cases ihStart start
      cases ihContinued continued
      rfl
    | stop start => cases ihStart start
  | stop _ ih =>
    cases h' with
    | andThen start _ => cases ih start
    | stop start =>
      cases ih start
      rfl

theorem runs_check {sign : Sign} {present : Bool}
    (h : ((c.rest stream).kind? == some (.sign sign)) = present) :
    (check sign).Runs stream c ⟨.ok present, c, []⟩ := by
  subst h
  exact .look _ c

theorem runs_accept_of_kind? {sign : Sign} (h : (c.rest stream).kind? = some (.sign sign)) :
    (accept sign).Runs stream c ⟨.ok true, c.advance stream, [c.advance stream]⟩ :=
  Runs.andThen (runs_check (beq_iff_eq.2 h)) (Runs.andThen (Runs.advance c) (Runs.done true _))

theorem runs_accept_of_kind?_ne {sign : Sign} (h : (c.rest stream).kind? ≠ some (.sign sign)) :
    (accept sign).Runs stream c ⟨.ok false, c, []⟩ :=
  Runs.andThen (runs_check (beq_eq_false_iff_ne.2 h)) (Runs.done false c)

end Action

/-- A call of the rule runs from the cursor and ends with the report. -/
def Rule.Runs (stream : TokenStream) {α : Type} (rule : Rule α) (c : Cursor) (report : Report α) :
    Prop :=
  (Action.call rule).Runs stream c report

/-! ## What a run keeps -/

/-- A token or the end of the text comes next, and no more levels are open than may be. -/
structure Cursor.IsWithin (stream : TokenStream) (c : Cursor) : Prop where
  position_le : c.position ≤ stream.tokens.length
  depth_le : c.depth ≤ maxNesting

namespace Cursor

variable {stream : TokenStream} {c : Cursor}

theorem isWithin_start : start.IsWithin stream :=
  ⟨Nat.zero_le _, Nat.zero_le _⟩

theorem IsWithin.advance (h : c.IsWithin stream) : (c.advance stream).IsWithin stream := by
  unfold Cursor.advance
  split
  next hlt => exact ⟨hlt, h.depth_le⟩
  next => exact h

theorem depth_advance : (c.advance stream).depth = c.depth := by
  unfold Cursor.advance
  split <;> rfl

theorem position_le_advance : c.position ≤ (c.advance stream).position := by
  unfold Cursor.advance
  split
  · exact Nat.le_succ _
  · exact Nat.le_refl _

theorem IsWithin.enter (h : c.IsWithin stream) (hdepth : c.depth < maxNesting) :
    c.enter.IsWithin stream :=
  ⟨h.position_le, hdepth⟩

theorem IsWithin.leave (h : c.IsWithin stream) : c.leave.IsWithin stream :=
  ⟨h.position_le, Nat.le_trans (Nat.sub_le _ _) h.depth_le⟩

end Cursor

/-- A run from `c` went forward within bounds, and closed every level that it opened. -/
structure Report.StaysWithin (stream : TokenStream) (c : Cursor) {α : Type} (report : Report α) :
    Prop where
  moves : ∀ d ∈ report.moves, d.IsWithin stream
  cursor : report.cursor.IsWithin stream
  position_le : c.position ≤ report.cursor.position
  depth_eq : report.cursor.depth = c.depth

namespace Report

variable {stream : TokenStream} {c : Cursor} {α β : Type}

theorem staysWithin_of_unmoved (h : c.IsWithin stream) (outcome : Except SyntaxFault α) :
    StaysWithin stream c ⟨outcome, c, []⟩ :=
  ⟨List.forall_mem_nil _, h, Nat.le_refl _, rfl⟩

theorem staysWithin_of_advance (h : c.IsWithin stream) (outcome : Except SyntaxFault α) :
    StaysWithin stream c ⟨outcome, c.advance stream, [c.advance stream]⟩ :=
  ⟨List.forall_mem_singleton.2 h.advance, h.advance, Cursor.position_le_advance,
    Cursor.depth_advance⟩

/-- A level that is opened is closed, whatever came of it. -/
theorem StaysWithin.nest {inner : Report α} (h : c.IsWithin stream) (hdepth : c.depth < maxNesting)
    (hinner : inner.StaysWithin stream c.enter) (outcome : Except SyntaxFault α) :
    StaysWithin stream c
      ⟨outcome, inner.cursor.leave, c.enter :: inner.moves ++ [inner.cursor.leave]⟩ where
  moves := by
    intro d hd
    rcases List.mem_append.1 hd with hd | hd
    · rcases List.mem_cons.1 hd with rfl | hd
      · exact h.enter hdepth
      · exact hinner.moves d hd
    · cases List.mem_singleton.1 hd
      exact hinner.cursor.leave
  cursor := hinner.cursor.leave
  position_le := hinner.position_le
  depth_eq := by
    show inner.cursor.depth - 1 = c.depth
    rw [hinner.depth_eq]
    rfl

theorem StaysWithin.andThen {first : Report α} {second : Report β}
    (h : first.StaysWithin stream c) (h' : second.StaysWithin stream first.cursor) :
    StaysWithin stream c ⟨second.outcome, second.cursor, first.moves ++ second.moves⟩ where
  moves := List.forall_mem_append.2 ⟨h.moves, h'.moves⟩
  cursor := h'.cursor
  position_le := Nat.le_trans h.position_le h'.position_le
  depth_eq := h'.depth_eq.trans h.depth_eq

/-- By induction on the run, one case for each kind of action. -/
theorem staysWithin_of_runs {action : Action α} {report : Report α}
    (hruns : action.Runs stream c report) (h : c.IsWithin stream) :
    report.StaysWithin stream c := by
  induction hruns with
  | done | fail | look => exact staysWithin_of_unmoved h _
  | advance => exact staysWithin_of_advance h _
  | call _ ih => exact ih h
  | nest shallow _ ih => exact .nest h shallow (ih (h.enter shallow)) _
  | tooDeep _ _ ih => exact ih h
  | andThen _ _ ihStart ihContinued =>
    have hstart := ihStart h
    exact hstart.andThen (ihContinued hstart.cursor)
  | stop _ ih =>
    have hstart := ih h
    exact ⟨hstart.moves, hstart.cursor, hstart.position_le, hstart.depth_eq⟩

end Report

end Descent

end TraceTutor
