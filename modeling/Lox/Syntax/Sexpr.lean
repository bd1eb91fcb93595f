import Lox.Decimal.Layout
import Lox.Syntax.Basic

set_option autoImplicit false
set_option relaxedAutoImplicit false

namespace Lox

open Text (lit)

/-- The written form of a constant. Strings stand in quotes and have no escapes. -/
def Literal.source : Literal → Text
  | .nil => lit "nil"
  | .bool b => lit (if b then "true" else "false")
  | .number x => Decimal.literal x
  | .string t => Byte.quote :: t ++ [Byte.quote]

def Param.listSource (ps : List Param) : Text :=
  lit "(" ++ Text.join (lit ", ") (ps.map Param.name) ++ lit ")"

namespace Sexpr

def form (head : Text) (parts : List Text) : Text :=
  lit "(" ++ head ++ parts.flatMap (lit " " ++ ·) ++ lit ")"

mutual

def expr : Expr → Text
  | .literal _ v => v.source
  | .grouping _ e => form (lit "group") [expr e]
  | .unary _ op e => form op.spelling [expr e]
  | .binary _ op a b => form op.spelling [expr a, expr b]
  | .logical _ op a b => form op.spelling [expr a, expr b]
  | .conditional _ c a b => form (lit "?:") [expr c, expr a, expr b]
  | .name use => use.name
  | .assign target e => form (lit "= " ++ target.name) [expr e]
  | .call _ f args => form (lit "call") (expr f :: exprs args)
  | .get _ o n => form (lit "." ++ n) [expr o]
  | .set _ o n e => form (lit "set ." ++ n) [expr o, expr e]
  | .this _ _ => lit "this"
  | .super _ m _ => form (lit "super " ++ m) []
  | .lambda _ ps body => form (lit "fun " ++ Param.listSource ps) (stmts body)

def exprs : List Expr → List Text
  | [] => []
  | e :: r => expr e :: exprs r

def clause : Option Expr → Text
  | none => lit "nil"
  | some e => expr e

def stmt : Stmt → Text
  | .exprStmt _ e => form (lit ";") [expr e]
  | .printStmt _ e => form (lit "print") [expr e]
  | .varDecl _ n none => form (lit "var " ++ n) []
  | .varDecl _ n (some e) => form (lit "var " ++ n) [expr e]
  | .block _ body => form (lit "block") (stmts body)
  | .ifStmt _ c a none => form (lit "if") [expr c, stmt a]
  | .ifStmt _ c a (some b) => form (lit "if") [expr c, stmt a, stmt b]
  | .whileStmt _ c b => form (lit "while") [expr c, stmt b]
  | .forStmt _ none c i b => form (lit "for") [lit "nil", clause c, clause i, stmt b]
  | .forStmt _ (some s) c i b => form (lit "for") [stmt s, clause c, clause i, stmt b]
  | .breakStmt _ => form (lit "break") []
  | .returnStmt _ none => form (lit "return") []
  | .returnStmt _ (some e) => form (lit "return") [expr e]
  | .funDecl d => funDecl (lit "fun ") d
  | .classDecl _ n none ms ss =>
    form (lit "class " ++ n) (funDecls (lit "static ") ss ++ funDecls (lit "method ") ms)
  | .classDecl _ n (some sup) ms ss =>
    form (lit "class " ++ n ++ lit " < " ++ sup.name)
      (funDecls (lit "static ") ss ++ funDecls (lit "method ") ms)

def stmts : List Stmt → List Text
  | [] => []
  | s :: r => stmt s :: stmts r

def funDecl (head : Text) : FunDecl → Text
  | .mk _ n ps body => form (head ++ n ++ Param.listSource ps) (stmts body)

def funDecls (head : Text) : List FunDecl → List Text
  | [] => []
  | d :: r => funDecl head d :: funDecls head r

end

end Sexpr

/-- The parenthesised forms of the statements of a program, each with a line feed. -/
def Program.sexpr (p : Program) : Text :=
  (Sexpr.stmts p.body).flatMap (· ++ [Byte.lineFeed])

end Lox
