import Lox.Span

set_option autoImplicit false
set_option relaxedAutoImplicit false

namespace Lox

open Text (lit)

/-- Operators before an operand. An operator that the language lacks keeps its spelling. -/
inductive UnaryOp
  | negate
  | not
  | other (spelling : Text)
  deriving DecidableEq

/-- Operators between two operands that are both evaluated. -/
inductive BinaryOp
  | add | sub | mul | div | greater | less | greaterEqual | lessEqual | equal | notEqual
  | other (spelling : Text)
  deriving DecidableEq

/-- Operators that may leave their second operand alone. -/
inductive LogicalOp
  | and
  | or
  | other (spelling : Text)
  deriving DecidableEq

namespace UnaryOp

def spelling : UnaryOp → Text
  | negate => lit "-"
  | not => lit "!"
  | other t => t

def ofSpelling (t : Text) : UnaryOp :=
  ([negate, not].find? fun op => op.spelling == t).getD (other t)

end UnaryOp

namespace BinaryOp

def spelling : BinaryOp → Text
  | add => lit "+"
  | sub => lit "-"
  | mul => lit "*"
  | div => lit "/"
  | greater => lit ">"
  | less => lit "<"
  | greaterEqual => lit ">="
  | lessEqual => lit "<="
  | equal => lit "=="
  | notEqual => lit "!="
  | other t => t

def ofSpelling (t : Text) : BinaryOp :=
  ([add, sub, mul, div, greater, less, greaterEqual, lessEqual, equal, notEqual].find?
    fun op => op.spelling == t).getD (other t)

end BinaryOp

namespace LogicalOp

def spelling : LogicalOp → Text
  | and => lit "and"
  | or => lit "or"
  | other t => t

def ofSpelling (t : Text) : LogicalOp :=
  ([and, or].find? fun op => op.spelling == t).getD (other t)

end LogicalOp

/-- The constants of the language. -/
inductive Literal
  | nil
  | bool (value : Bool)
  | number (value : Float)
  | string (value : Text)
  deriving DecidableEq

/-- A parameter of a function. -/
structure Param where
  span : Span
  name : Text
  deriving DecidableEq

/-- An occurrence of a name that is read. -/
structure NameUse where
  span : Span
  name : Text
  hops : Option Int
  deriving DecidableEq

mutual

/-- Expressions. -/
inductive Expr
  | literal (span : Span) (value : Literal)
  | grouping (span : Span) (inner : Expr)
  | unary (span : Span) (op : UnaryOp) (operand : Expr)
  | binary (span : Span) (op : BinaryOp) (left right : Expr)
  | logical (span : Span) (op : LogicalOp) (left right : Expr)
  | conditional (span : Span) (condition yes no : Expr)
  | name (use : NameUse)
  | assign (target : NameUse) (value : Expr)
  | call (span : Span) (callee : Expr) (args : List Expr)
  | get (span : Span) (object : Expr) (name : Text)
  | set (span : Span) (object : Expr) (name : Text) (value : Expr)
  | this (span : Span) (hops : Option Int)
  | super (span : Span) (method : Text) (hops : Option Int)
  | lambda (span : Span) (params : List Param) (body : List Stmt)

/-- Statements and declarations. -/
inductive Stmt
  | exprStmt (span : Span) (expr : Expr)
  | printStmt (span : Span) (expr : Expr)
  | varDecl (span : Span) (name : Text) (init : Option Expr)
  | block (span : Span) (body : List Stmt)
  | ifStmt (span : Span) (condition : Expr) (yes : Stmt) (no : Option Stmt)
  | whileStmt (span : Span) (condition : Expr) (body : Stmt)
  | forStmt (span : Span) (init : Option Stmt) (condition step : Option Expr) (body : Stmt)
  | breakStmt (span : Span)
  | returnStmt (span : Span) (value : Option Expr)
  | funDecl (decl : FunDecl)
  | classDecl (span : Span) (name : Text) (superclass : Option NameUse)
      (methods statics : List FunDecl)

/-- A function with a name: a declared function, a method or a static method. -/
inductive FunDecl
  | mk (span : Span) (name : Text) (params : List Param) (body : List Stmt)

end

namespace FunDecl

/-- The span of a declaration, from its keyword if it has one. -/
def span : FunDecl → Span
  | mk s _ _ _ => s

def name : FunDecl → Text
  | mk _ n _ _ => n

def params : FunDecl → List Param
  | mk _ _ ps _ => ps

def body : FunDecl → List Stmt
  | mk _ _ _ b => b

end FunDecl

namespace Expr

/-- The span of an expression. For an assignment it reaches from the target to the value. -/
def span : Expr → Span
  | .literal s _ | .grouping s _ | .unary s _ _ | .binary s _ _ _ | .logical s _ _ _
  | .conditional s _ _ _ | .call s _ _ | .get s _ _ | .set s _ _ _ | .this s _ | .super s _ _
  | .lambda s _ _ => s
  | .name use => use.span
  | .assign target _ => target.span

end Expr

namespace Stmt

/-- The span of a statement, up to its last mark. -/
def span : Stmt → Span
  | .exprStmt s _ | .printStmt s _ | .varDecl s _ _ | .block s _ | .ifStmt s _ _ _
  | .whileStmt s _ _ | .forStmt s _ _ _ _ | .breakStmt s | .returnStmt s _
  | .classDecl s _ _ _ _ => s
  | .funDecl d => d.span

end Stmt

/-- A program. -/
structure Program where
  span : Span
  body : List Stmt

end Lox
