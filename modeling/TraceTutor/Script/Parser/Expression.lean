import TraceTutor.Script.Parser.Basic

/-!
# Parsing expressions

From loose to tight, an expression is a choice `c ? a : b`, a chain of binary operators, a prefix
operator, and a primary with calls, indices and members after it. Binary operators come in six
layers and associate to the left.

Nesting is limited. `ExprParser.atDepth n` holds the parsers for a place with `n` levels left; it is
built from the one with a level less, so that the limit is also what makes the recursion end.
-/

namespace TraceTutor

/-- The parsers for expressions at one depth of nesting. -/
structure ExprParser where
  /-- An expression, one level deeper. -/
  expression : TokenParser Expr
  /-- A prefix operator with its operand, or a primary, at this level. -/
  operand : TokenParser Expr

namespace ExprParser

open TokenParser

/-! ## Primaries -/

/-- The key of a field. A number stands for its text. -/
def fieldKey? : TokenKind → Option String
  | .identifier name => some name
  | .string s => some s
  | .number x => some (Value.ofBinary64 x).display
  | _ => none

/-- A field of an object. A key alone stands for the variable of that name. -/
def field (expression : TokenParser Expr) : TokenParser (String × Expr) := do
  match (← peek).bind fieldKey? with
  | none => fail .propertyName
  | some key =>
    advance
    if ← accept .colon then return (key, ← expression) else return (key, .name key)

/-- The tree of a token that is an expression by itself. -/
def atom? : TokenKind → Option Expr
  | .number x => some (.literal (.ofBinary64 x))
  | .string s => some (.literal (.string s))
  | .keyword .trueWord => some (.literal (.bool true))
  | .keyword .falseWord => some (.literal (.bool false))
  | .keyword .nullWord => some (.literal .null)
  | .keyword .undefinedWord => some (.name "undefined")
  | .identifier name => some (.name name)
  | _ => none

def primary (expression : TokenParser Expr) : TokenParser Expr := do
  match ← peek with
  | some (.sign .openParen) =>
    advance
    let inner ← expression
    expect .closeParen .closeParen
    return inner
  | some (.sign .openBracket) =>
    advance
    let items ← listUntil .closeBracket expression (← fuel)
    expect .closeBracket .closeArray
    return .array items
  | some (.sign .openBrace) =>
    advance
    let fields ← listUntil .closeBrace (field expression) (← fuel)
    expect .closeBrace .closeObject
    return .object fields
  | kind? =>
    match kind?.bind atom? with
    | some e =>
      advance
      return e
    | none => fail .expression

/-! ## Calls, indices and members -/

/-- The arguments of a call after its opening parenthesis. -/
def arguments (expression : TokenParser Expr) : TokenParser (List Expr) := do
  let args ← separatedUnless .closeParen expression
  expect .closeParen .closeArguments
  return args

/-- One call, index or member after a primary, if there is one. -/
def suffix (expression : TokenParser Expr) (e : Expr) : TokenParser (Option Expr) := do
  match ← peek with
  | some (.sign .openParen) =>
    advance
    return some (.call e (← arguments expression))
  | some (.sign .openBracket) =>
    advance
    let index ← expression
    expect .closeBracket .closeIndex
    return some (.index e index)
  | some (.sign .dot) =>
    advance
    return some (.member e (← identifier))
  | _ => return none

def postfixed (expression : TokenParser Expr) : TokenParser Expr := do
  let e ← primary expression
  repeatStep (suffix expression) (← fuel) e

/-! ## Operators -/

def prefixOp? : TokenKind → Option UnaryOp
  | .sign .minus => some .neg
  | .sign .plus => some .plus
  | .sign .bang => some .not
  | _ => none

/-- A prefix operator on an operand one level deeper, or a primary. -/
def operandWith (deeper expression : TokenParser Expr) : TokenParser Expr := do
  match (← peek).bind prefixOp? with
  | some op =>
    advance
    return .unary op (← deeper)
  | none => postfixed expression

/-- The binary operators with their layers, from `1` for the loosest to `6`. -/
def binaryOp? : TokenKind → Option (BinaryOp × Nat)
  | .sign .eitherOr => some (.or, 1)
  | .sign .bothAnd => some (.and, 2)
  | .sign .equal => some (.eq, 3)
  | .sign .notEqual => some (.ne, 3)
  | .sign .less => some (.lt, 4)
  | .sign .lessEqual => some (.le, 4)
  | .sign .greater => some (.gt, 4)
  | .sign .greaterEqual => some (.ge, 4)
  | .sign .plus => some (.add, 5)
  | .sign .minus => some (.sub, 5)
  | .sign .star => some (.mul, 6)
  | .sign .slash => some (.div, 6)
  | .sign .percent => some (.mod, 6)
  | _ => none

/-- One more operator of a layer with its right operand, if there is one. -/
def chainStep (layer : Nat) (operand : TokenParser Expr) (left : Expr) : TokenParser (Option Expr) := do
  match (← peek).bind binaryOp? with
  | some (op, l) =>
    if l = layer then
      advance
      return some (.binary op left (← operand))
    else return none
  | none => return none

/-- Operands with the operators of one layer between them. -/
def chain (layer : Nat) (operand : TokenParser Expr) : TokenParser Expr := do
  let first ← operand
  repeatStep (chainStep layer operand) (← fuel) first

/-- Operands with any binary operators between them. -/
def binary (operand : TokenParser Expr) : TokenParser Expr :=
  chain 1 (chain 2 (chain 3 (chain 4 (chain 5 (chain 6 operand)))))

/-- A choice, or its condition alone. -/
def choice (expression operand : TokenParser Expr) : TokenParser Expr := do
  let condition ← binary operand
  if ← accept .question then
    let yes ← expression
    expect .colon .ternaryColon
    return .ternary condition yes (← expression)
  else return condition

/-! ## Depth -/

/-- The parsers where no level is left. -/
def innermost : ExprParser :=
  ⟨fail .shallowNesting, operandWith (fail .shallowNesting) (fail .shallowNesting)⟩

/-- The parsers with one level more than the given ones. -/
def outer (inner : ExprParser) : ExprParser :=
  let expression := choice inner.expression inner.operand
  ⟨expression, operandWith inner.operand expression⟩

/-- The parsers with `n` levels left. -/
def atDepth : Nat → ExprParser
  | 0 => innermost
  | n + 1 => (atDepth n).outer

end ExprParser

/-- How deep expressions and statements may be nested. -/
def maxNesting : Nat := 64

/-- The expression that a text holds, with at most a semicolon after it. -/
def parseExpression (source : String) : Except SyntaxFault Expr := do
  let (e, rest) ← (ExprParser.atDepth maxNesting).expression (← tokenize source)
  let (_, rest) ← TokenParser.accept .semicolon rest
  if rest.tokens.isEmpty then return e
  let (e, _) ← TokenParser.fail .endOfExpression rest
  return e

end TraceTutor
