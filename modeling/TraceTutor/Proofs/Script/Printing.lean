import TraceTutor.Proofs.Number.Whole
import TraceTutor.Script.Lexer
import TraceTutor.Script.Program

/-!
# Printed expressions

`Expr.print` writes an expression with single spaces between its tokens, and with parentheses only
where an operand is looser than the place that it stands in. `Expr.nesting` counts how deep the
printed text nests, and `Expr.IsPrintable` says that the text has tokens for all parts of the
expression.
-/

namespace TraceTutor

/-! ## Spelled tokens -/

/-- A token with its spelling. -/
structure Lexeme where
  kind : TokenKind
  text : List Char

namespace Lexeme

def sign (s : Sign) : Lexeme :=
  ⟨.sign s, s.text.toList⟩

def word (k : Keyword) : Lexeme :=
  ⟨.keyword k, k.text.toList⟩

def identifier (name : String) : Lexeme :=
  ⟨.identifier name, name.toList⟩

/-- A whole number in decimal digits. -/
def whole (n : Nat) : Lexeme :=
  ⟨.number (.finite (.whole n)), Nat.toDigits 10 n⟩

/-- A character of a string, escaped if it is a quote, a backslash or a control character that has a
letter. -/
def escaped (c : Char) : List Char :=
  if c = '\n' then ['\\', 'n']
  else if c = '\t' then ['\\', 't']
  else if c = '\r' then ['\\', 'r']
  else if c = '\x00' then ['\\', '0']
  else if c = '"' ∨ c = '\\' then ['\\', c]
  else [c]

/-- A string between double quotes. -/
def string (s : String) : Lexeme :=
  ⟨.string s, '"' :: (s.toList.flatMap escaped ++ ['"'])⟩

/-- The text of tokens with a space between them. -/
def spaced (xs : List Lexeme) : List Char :=
  [' '].intercalate (xs.map text)

end Lexeme

/-! ## Layers -/

namespace BinaryOp

def sign : BinaryOp → Sign
  | add => .plus
  | sub => .minus
  | mul => .star
  | div => .slash
  | mod => .percent
  | eq => .equal
  | ne => .notEqual
  | lt => .less
  | le => .lessEqual
  | gt => .greater
  | ge => .greaterEqual
  | and => .bothAnd
  | or => .eitherOr

/-- How tight an operator binds, from `1` for `||` to `6` for `*`. -/
def layer : BinaryOp → Nat
  | or => 1
  | and => 2
  | eq | ne => 3
  | lt | le | gt | ge => 4
  | add | sub => 5
  | mul | div | mod => 6

end BinaryOp

def UnaryOp.sign : UnaryOp → Sign
  | neg => .minus
  | plus => .plus
  | not => .bang

/-- How tight an expression holds together: a choice is `0`, binary operators follow, a prefix
operator is `7`, a call, an index or a member is `8`, and anything else is `9`. -/
def Expr.layer : Expr → Nat
  | ternary .. => 0
  | binary op .. => op.layer
  | unary .. => 7
  | index .. | member .. | call .. => 8
  | _ => 9

theorem Expr.layer_le (e : Expr) : e.layer ≤ 9 := by
  cases e with
  | binary op left right => cases op <;> simp [layer, BinaryOp.layer]
  | _ => simp [layer]

/-! ## Printing -/

/-- The token of a literal. Only values that have literals are of interest. -/
def Value.lexeme : Value → Lexeme
  | bool true => .word .trueWord
  | bool false => .word .falseWord
  | number (.int n) => .whole n.natAbs
  | string s => .string s
  | _ => .word .nullWord

/-- Tokens in parentheses, if need be. -/
def enclosed (needed : Bool) (xs : List Lexeme) : List Lexeme :=
  if needed then .sign .openParen :: (xs ++ [.sign .closeParen]) else xs

/-- Items with commas between them. -/
def listed (items : List (List Lexeme)) : List Lexeme :=
  [.sign .comma].intercalate items

mutual

/-- The tokens of an expression. -/
@[simp]
def Expr.lexemes : Expr → List Lexeme
  | .literal v => [v.lexeme]
  | .name n => [if n = "undefined" then .word .undefinedWord else .identifier n]
  | .array items =>
    .sign .openBracket :: (listed (Expr.itemLexemes items) ++ [.sign .closeBracket])
  | .object fields =>
    .sign .openBrace :: (listed (Expr.fieldLexemes fields) ++ [.sign .closeBrace])
  | .unary op operand => .sign op.sign :: enclosed (operand.layer < 7) operand.lexemes
  | .binary op left right =>
    enclosed (left.layer < op.layer) left.lexemes ++
      .sign op.sign :: enclosed (right.layer < op.layer + 1) right.lexemes
  | .ternary condition yes no =>
    enclosed (condition.layer < 1) condition.lexemes ++
      .sign .question :: (yes.lexemes ++ .sign .colon :: no.lexemes)
  | .index target i =>
    enclosed (target.layer < 8) target.lexemes ++
      .sign .openBracket :: (i.lexemes ++ [.sign .closeBracket])
  | .member target property =>
    enclosed (target.layer < 8) target.lexemes ++ [.sign .dot, .identifier property]
  | .call callee args =>
    enclosed (callee.layer < 8) callee.lexemes ++
      .sign .openParen :: (listed (Expr.itemLexemes args) ++ [.sign .closeParen])

@[simp]
def Expr.itemLexemes : List Expr → List (List Lexeme)
  | [] => []
  | e :: rest => e.lexemes :: Expr.itemLexemes rest

@[simp]
def Expr.fieldLexemes : List (String × Expr) → List (List Lexeme)
  | [] => []
  | (key, e) :: rest => (.string key :: .sign .colon :: e.lexemes) :: Expr.fieldLexemes rest

end

theorem Expr.itemLexemes_eq_map (items : List Expr) :
    Expr.itemLexemes items = items.map Expr.lexemes := by
  induction items with
  | nil => rw [itemLexemes, List.map_nil]
  | cons e rest ih => rw [itemLexemes, ih, List.map_cons]

theorem Expr.fieldLexemes_eq_map (fields : List (String × Expr)) :
    Expr.fieldLexemes fields =
      fields.map fun field => .string field.1 :: .sign .colon :: field.2.lexemes := by
  induction fields with
  | nil => rw [fieldLexemes, List.map_nil]
  | cons field rest ih => rw [fieldLexemes, ih, List.map_cons]

/-- The text of an expression. -/
def Expr.print (e : Expr) : String :=
  String.ofList (Lexeme.spaced e.lexemes)

/-! ## Nesting -/

/-- Parentheses are one level. -/
def enclosedLevels (needed : Bool) (levels : Nat) : Nat :=
  if needed then levels + 1 else levels

mutual

/-- How many levels the text of an expression opens within itself: each pair of parentheses,
argument, index, item, field value, branch of a choice and operand of a prefix operator is one. -/
@[simp]
def Expr.levels : Expr → Nat
  | .literal _ | .name _ => 0
  | .array items => Expr.itemLevels items
  | .object fields => Expr.fieldLevels fields
  | .unary _ operand => enclosedLevels (operand.layer < 7) operand.levels + 1
  | .binary op left right =>
    max (enclosedLevels (left.layer < op.layer) left.levels)
      (enclosedLevels (right.layer < op.layer + 1) right.levels)
  | .ternary condition yes no =>
    max (enclosedLevels (condition.layer < 1) condition.levels)
      (max (yes.levels + 1) (no.levels + 1))
  | .index target i =>
    max (enclosedLevels (target.layer < 8) target.levels) (i.levels + 1)
  | .member target _ => enclosedLevels (target.layer < 8) target.levels
  | .call callee args =>
    max (enclosedLevels (callee.layer < 8) callee.levels) (Expr.itemLevels args)

@[simp]
def Expr.itemLevels : List Expr → Nat
  | [] => 0
  | e :: rest => max (e.levels + 1) (Expr.itemLevels rest)

@[simp]
def Expr.fieldLevels : List (String × Expr) → Nat
  | [] => 0
  | (_, e) :: rest => max (e.levels + 1) (Expr.fieldLevels rest)

end

theorem Expr.itemLevels_le_iff {items : List Expr} {n : Nat} :
    Expr.itemLevels items ≤ n ↔ ∀ e ∈ items, e.levels + 1 ≤ n := by
  induction items with
  | nil => simp [itemLevels]
  | cons e rest ih => rw [itemLevels, Nat.max_le, ih, List.forall_mem_cons]

theorem Expr.fieldLevels_le_iff {fields : List (String × Expr)} {n : Nat} :
    Expr.fieldLevels fields ≤ n ↔ ∀ field ∈ fields, field.2.levels + 1 ≤ n := by
  induction fields with
  | nil => simp [fieldLevels]
  | cons field rest ih => rw [fieldLevels, Nat.max_le, ih, List.forall_mem_cons]

/-- How deep the text of an expression nests: the whole expression is one level. -/
def Expr.nesting (e : Expr) : Nat :=
  e.levels + 1

/-! ## What can be printed -/

/-- The text is spelled like a word: a reserved one or the name of a variable. -/
structure IsWord (name : String) : Prop where
  head : ∃ c rest, name.toList = c :: rest ∧ Lexer.isWordStart c = true
  parts : ∀ c ∈ name.toList, Lexer.isWordPart c = true

/-- The text is the name of a variable. -/
structure IsIdentifier (name : String) : Prop extends IsWord name where
  free : Keyword.ofText? name = none

/-- The value has a literal: `null`, a boolean, a string, or a whole number up to the largest one of
which doubles hold all below it. -/
def Value.HasLiteral : Value → Prop
  | null | bool _ | string _ => True
  | number (.int n) => 0 ≤ n ∧ n ≤ maxExactInt
  | _ => False

mutual

/-- All names in the expression are identifiers, or `undefined` for a variable, and all values have
literals. -/
def Expr.IsPrintable : Expr → Prop
  | .literal v => v.HasLiteral
  | .name n => n = "undefined" ∨ IsIdentifier n
  | .array items => Expr.AllPrintable items
  | .object fields => Expr.FieldsPrintable fields
  | .unary _ operand => operand.IsPrintable
  | .binary _ left right => left.IsPrintable ∧ right.IsPrintable
  | .ternary condition yes no => condition.IsPrintable ∧ yes.IsPrintable ∧ no.IsPrintable
  | .index target i => target.IsPrintable ∧ i.IsPrintable
  | .member target property => target.IsPrintable ∧ IsIdentifier property
  | .call callee args => callee.IsPrintable ∧ Expr.AllPrintable args

def Expr.AllPrintable : List Expr → Prop
  | [] => True
  | e :: rest => e.IsPrintable ∧ Expr.AllPrintable rest

def Expr.FieldsPrintable : List (String × Expr) → Prop
  | [] => True
  | (_, e) :: rest => e.IsPrintable ∧ Expr.FieldsPrintable rest

end

end TraceTutor
