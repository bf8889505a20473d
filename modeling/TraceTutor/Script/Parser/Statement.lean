import TraceTutor.Script.Parser.Expression

/-!
# Parsing statements

A statement is a block, a control statement, a declaration, an assignment, an update or an
expression. A semicolon after a statement may be left out. The body of a control statement is one
level deeper than the statement.
-/

namespace TraceTutor

/-- The parsers for statements at one depth of nesting. -/
structure StmtParser where
  exprs : ExprParser
  /-- The statements of a body, one level deeper. -/
  body : TokenParser (List Stmt)
  /-- An `if` that follows `else`, one level deeper. -/
  elseIf : TokenParser Stmt

namespace StmtParser

open TokenParser

/-! ## Simple statements -/

def declarationKind? : TokenKind → Option DeclarationKind
  | .keyword .letWord => some .letKind
  | .keyword .constWord => some .constKind
  | .keyword .varWord => some .varKind
  | _ => none

/-- The sign of an assignment, with the operator of a compound one. -/
def assignment? : TokenKind → Option (Option BinaryOp)
  | .sign .assign => some none
  | .sign .plusAssign => some (some .add)
  | .sign .minusAssign => some (some .sub)
  | .sign .starAssign => some (some .mul)
  | .sign .slashAssign => some (some .div)
  | .sign .percentAssign => some (some .mod)
  | _ => none

/-- The sign of an update, with its step. -/
def delta? : TokenKind → Option Int
  | .sign .increment => some 1
  | .sign .decrement => some (-1)
  | _ => none

/-- A simple statement that is known from its first two tokens. -/
inductive Opening where
  | declaration (kind : DeclarationKind)
  | prefixUpdate (delta : Int)
  | assignment (target : String) (op : Option BinaryOp)
  | postfixUpdate (target : String) (delta : Int)
  | expression
deriving Repr

/-- What the next two tokens open. -/
def opening (first second : Option TokenKind) : Opening :=
  match first.bind declarationKind?, first.bind delta?, first with
  | some kind, _, _ => .declaration kind
  | _, some delta, _ => .prefixUpdate delta
  | _, _, some (.identifier name) =>
    match second.bind assignment?, second.bind delta? with
    | some op, _ => .assignment name op
    | _, some delta => .postfixUpdate name delta
    | _, _ => .expression
  | _, _, _ => .expression

def peekOpening : TokenParser Opening := fun s =>
  .ok (opening s.kind? s.tail.kind?, s)

/-- A declaration, an assignment, an update or an expression, without its semicolon. -/
def simple (expression : TokenParser Expr) : TokenParser Stmt := do
  let l ← location
  match ← peekOpening with
  | .declaration kind =>
    advance
    let name ← identifier
    if ← accept .assign then return .declare l kind name (some (← expression))
    else return .declare l kind name none
  | .prefixUpdate delta =>
    advance
    return .update l (← identifier) delta
  | .assignment target op =>
    advance
    advance
    return .assign l target op (← expression)
  | .postfixUpdate target delta =>
    advance
    advance
    return .update l target delta
  | .expression =>
    let e ← expression
    if ← check .assign then fail .plainTarget
    if ← check .arrow then fail .noArrow
    return .expression l e

/-! ## Control statements -/

def parenthesized (expression : TokenParser Expr) : TokenParser Expr := do
  expect .openParen .openParen
  let e ← expression
  expect .closeParen .closeParen
  return e

/-- An `if` statement. -/
def conditional (p : StmtParser) : TokenParser Stmt := do
  let l ← location
  advance
  let condition ← parenthesized p.exprs.expression
  let yes ← p.body
  if ← acceptWord .elseWord then
    if (← peek) = some (.keyword .ifWord) then return .cond l condition yes (some [← p.elseIf])
    else return .cond l condition yes (some (← p.body))
  else return .cond l condition yes none

def whileLoop (p : StmtParser) : TokenParser Stmt := do
  let l ← location
  advance
  let condition ← parenthesized p.exprs.expression
  return .whileLoop l condition (← p.body)

/-- A part of a `for` header that is left out if its closing sign comes next. -/
def clause {α : Type} (close : Sign) (part : TokenParser α) : TokenParser (Option α) := do
  if ← check close then return none else return some (← part)

def forLoop (p : StmtParser) : TokenParser Stmt := do
  let l ← location
  advance
  expect .openParen .forOpen
  let initial ← clause .semicolon (simple p.exprs.expression)
  expect .semicolon .forInitializerEnd
  let condition ← clause .semicolon p.exprs.expression
  expect .semicolon .forConditionEnd
  let update ← clause .closeParen (simple p.exprs.expression)
  expect .closeParen .forClose
  return .forLoop l initial condition update (← p.body)

def function (p : StmtParser) : TokenParser Stmt := do
  let l ← location
  advance
  let name ← identifier
  expect .openParen .parametersOpen
  let params ← separatedUnless .closeParen identifier
  expect .closeParen .parametersClose
  if ← check .openBrace then return .function l name params (← p.body)
  else fail .functionBody

/-- Whether the value of a `return` on a line comes next. It starts on the same line. -/
def valueFollows (line : Nat) : TokenParser Bool := fun s =>
  .ok (match s.head? with
    | none => false
    | some token =>
      token.kind ≠ .sign .semicolon && token.kind ≠ .sign .closeBrace && token.location.line = line,
    s)

/-- A `return` statement. -/
def returned (p : StmtParser) : TokenParser Stmt := do
  let l ← location
  advance
  if ← valueFollows l.line then return .ret l (some (← p.exprs.expression)) else return .ret l none

/-- Reads a semicolon after a statement, if there is one. -/
def terminated (statement : TokenParser Stmt) : TokenParser Stmt := do
  let s ← statement
  let _ ← accept .semicolon
  return s

/-- One statement. A semicolon alone is an empty block. -/
def statement (p : StmtParser) : TokenParser Stmt := do
  let l ← location
  match ← peek with
  | some (.sign .openBrace) => return .block l (← p.body)
  | some (.keyword .ifWord) => conditional p
  | some (.keyword .whileWord) => whileLoop p
  | some (.keyword .forWord) => forLoop p
  | some (.keyword .functionWord) => function p
  | some (.keyword .returnWord) => terminated (returned p)
  | some (.keyword .breakWord) => terminated (do advance; return .stop l)
  | some (.keyword .continueWord) => terminated (do advance; return .next l)
  | some (.sign .semicolon) =>
    advance
    return .block l []
  | _ => terminated (simple p.exprs.expression)

/-! ## Bodies -/

/-- Statements up to a closing brace, which is read. -/
def blockRest (statement : TokenParser Stmt) : List Token → TokenParser (List Stmt)
  | [] => fail .closeBlock
  | _ :: fuel => do
    if ← accept .closeBrace then return []
    match ← peek with
    | none => fail .closeBlock
    | some _ =>
      let s ← statement
      return s :: (← blockRest statement fuel)

/-- Statements between braces, or a single statement. -/
def bodyOf (statement : TokenParser Stmt) : TokenParser (List Stmt) := do
  if ← accept .openBrace then blockRest statement (← fuel) else return [← statement]

/-! ## Depth -/

/-- The parsers where no level is left. -/
def innermost : StmtParser :=
  ⟨.innermost, fail .shallowNesting, fail .shallowNesting⟩

/-- The parsers with one level more than the given ones. -/
def outer (inner : StmtParser) : StmtParser :=
  ⟨inner.exprs.outer, bodyOf (statement inner), conditional inner⟩

/-- The parsers with `n` levels left. -/
def atDepth : Nat → StmtParser
  | 0 => innermost
  | n + 1 => (atDepth n).outer

/-- Statements up to the end of the text. -/
def program (statement : TokenParser Stmt) : List Token → TokenParser Program
  | [] => return []
  | _ :: fuel => do
    match ← peek with
    | none => return []
    | some _ =>
      let s ← statement
      return s :: (← program statement fuel)

end StmtParser

/-- The program that a text holds. -/
def parseProgram (source : String) : Except SyntaxFault Program := do
  let stream ← tokenize source
  let (program, _) ← StmtParser.program
    (StmtParser.atDepth maxNesting).statement stream.tokens stream
  return program

end TraceTutor
