import TraceTutor.Script.Operator
import TraceTutor.Script.Token

/-!
# Programs

The trees of the script language: expressions, and statements with the place where they start.
-/

namespace TraceTutor

inductive Expr where
  | literal (v : Value)
  | name (name : String)
  | array (items : List Expr)
  | object (fields : List (String × Expr))
  | unary (op : UnaryOp) (operand : Expr)
  | binary (op : BinaryOp) (left right : Expr)
  | ternary (condition yes no : Expr)
  | index (target index : Expr)
  | member (target : Expr) (property : String)
  | call (callee : Expr) (args : List Expr)
deriving Inhabited, Repr

/-- The dotted path of a callee such as `Math.max`, if it is one. -/
def Expr.path? : Expr → Option String
  | name n => some n
  | member target property => target.path?.map fun base => base ++ "." ++ property
  | _ => none

/-- The word of a declaration. -/
inductive DeclarationKind where
  | letKind
  | constKind
  | varKind
deriving DecidableEq, Inhabited, Repr

inductive Stmt where
  | declare (location : Location) (kind : DeclarationKind) (name : String) (initial : Option Expr)
  /-- An assignment; a compound one names its operator. -/
  | assign (location : Location) (target : String) (op : Option BinaryOp) (value : Expr)
  /-- An increment by `1` or `-1`. -/
  | update (location : Location) (target : String) (delta : Int)
  | expression (location : Location) (expr : Expr)
  | block (location : Location) (body : List Stmt)
  | cond (location : Location) (condition : Expr) (yes : List Stmt) (no : Option (List Stmt))
  | whileLoop (location : Location) (condition : Expr) (body : List Stmt)
  | forLoop (location : Location) (initial : Option Stmt) (condition : Option Expr)
      (update : Option Stmt) (body : List Stmt)
  | function (location : Location) (name : String) (params : List String) (body : List Stmt)
  | ret (location : Location) (value : Option Expr)
  | stop (location : Location)
  | next (location : Location)
deriving Inhabited, Repr

/-- The place where a statement starts. -/
def Stmt.location : Stmt → Location
  | declare l .. => l
  | assign l .. => l
  | update l .. => l
  | expression l .. => l
  | block l .. => l
  | cond l .. => l
  | whileLoop l .. => l
  | forLoop l .. => l
  | function l .. => l
  | ret l .. => l
  | stop l => l
  | next l => l

/-- A program is the list of its statements. -/
abbrev Program := List Stmt

end TraceTutor
