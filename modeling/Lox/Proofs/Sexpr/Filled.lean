import Lox.Proofs.Layout.RoundTrip
import Lox.Syntax.Sexpr

set_option autoImplicit false
set_option relaxedAutoImplicit false

namespace Lox

mutual

/-- An expression with a `nil` in place of each clause that a loop in it lacks. -/
def Expr.filled : Expr → Expr
  | .literal s v => .literal s v
  | .grouping s e => .grouping s e.filled
  | .unary s op e => .unary s op e.filled
  | .binary s op a b => .binary s op a.filled b.filled
  | .logical s op a b => .logical s op a.filled b.filled
  | .conditional s c a b => .conditional s c.filled a.filled b.filled
  | .name use => .name use
  | .assign target e => .assign target e.filled
  | .call s f args => .call s f.filled (Expr.filledAll args)
  | .get s o n => .get s o.filled n
  | .set s o n e => .set s o.filled n e.filled
  | .this s hops => .this s hops
  | .super s m hops => .super s m hops
  | .lambda s ps body => .lambda s ps (Stmt.filledAll body)

def Expr.filledAll : List Expr → List Expr
  | [] => []
  | e :: r => e.filled :: Expr.filledAll r

def Expr.filledOption : Option Expr → Option Expr
  | none => none
  | some e => some e.filled

def Expr.filledClause : Option Expr → Expr
  | none => .literal .blank .nil
  | some e => e.filled

/-- A statement with a `nil` in place of each condition and last clause that a loop in it lacks. -/
def Stmt.filled : Stmt → Stmt
  | .exprStmt s e => .exprStmt s e.filled
  | .printStmt s e => .printStmt s e.filled
  | .varDecl s n init => .varDecl s n (Expr.filledOption init)
  | .block s body => .block s (Stmt.filledAll body)
  | .ifStmt s c a b => .ifStmt s c.filled a.filled (Stmt.filledOption b)
  | .whileStmt s c b => .whileStmt s c.filled b.filled
  | .forStmt s init c step b =>
    .forStmt s (Stmt.filledOption init) (some (Expr.filledClause c)) (some (Expr.filledClause step))
      b.filled
  | .breakStmt s => .breakStmt s
  | .returnStmt s e => .returnStmt s (Expr.filledOption e)
  | .funDecl d => .funDecl d.filled
  | .classDecl s n sup ms ss => .classDecl s n sup (FunDecl.filledAll ms) (FunDecl.filledAll ss)

def Stmt.filledAll : List Stmt → List Stmt
  | [] => []
  | s :: r => s.filled :: Stmt.filledAll r

def Stmt.filledOption : Option Stmt → Option Stmt
  | none => none
  | some s => some s.filled

/-- A function with a `nil` in place of each clause that a loop in it lacks. -/
def FunDecl.filled : FunDecl → FunDecl
  | .mk s n ps body => .mk s n ps (Stmt.filledAll body)

def FunDecl.filledAll : List FunDecl → List FunDecl
  | [] => []
  | d :: r => d.filled :: FunDecl.filledAll r

end

/-- A program with a `nil` in place of each clause that a loop in it lacks. -/
def Program.filled (p : Program) : Program := { p with body := Stmt.filledAll p.body }

namespace Sexpr

mutual

theorem expr_filled (e : Expr) : expr e.bare.filled = expr e := by
  cases e with
  | literal | name | this | super => rfl
  | grouping _ e | unary _ _ e | assign _ e | get _ e _ =>
    simp only [Expr.bare, Expr.filled, NameUse.bare, expr, expr_filled e]
  | binary _ _ a b | logical _ _ a b | set _ a _ b =>
    simp only [Expr.bare, Expr.filled, expr, expr_filled a, expr_filled b]
  | conditional _ c a b =>
    simp only [Expr.bare, Expr.filled, expr, expr_filled c, expr_filled a, expr_filled b]
  | call _ f args => simp only [Expr.bare, Expr.filled, expr, expr_filled f, exprs_filled args]
  | lambda _ ps body =>
    simp only [Expr.bare, Expr.filled, expr, Param.listSource_bare, stmts_filled body]

theorem exprs_filled (es : List Expr) : exprs (Expr.filledAll (Expr.bareAll es)) = exprs es := by
  cases es with
  | nil => rfl
  | cons e es => simp only [Expr.bareAll, Expr.filledAll, exprs, expr_filled e, exprs_filled es]

theorem clause_filled (c : Option Expr) :
    clause (some (Expr.filledClause (Expr.bareOption c))) = clause c := by
  cases c with
  | none => rfl
  | some e => exact expr_filled e

theorem stmt_filled (s : Stmt) : stmt s.bare.filled = stmt s := by
  cases s with
  | exprStmt _ e | printStmt _ e => simp only [Stmt.bare, Stmt.filled, stmt, expr_filled e]
  | varDecl _ _ init =>
    cases init with
    | none => rfl
    | some e =>
      simp only [Stmt.bare, Expr.bareOption, Stmt.filled, Expr.filledOption, stmt, expr_filled e]
  | block _ body => simp only [Stmt.bare, Stmt.filled, stmt, stmts_filled body]
  | ifStmt _ c a b =>
    cases b with
    | none =>
      simp only [Stmt.bare, Stmt.bareOption, Stmt.filled, Stmt.filledOption, stmt, expr_filled c,
        stmt_filled a]
    | some b =>
      simp only [Stmt.bare, Stmt.bareOption, Stmt.filled, Stmt.filledOption, stmt, expr_filled c,
        stmt_filled a, stmt_filled b]
  | whileStmt _ c b => simp only [Stmt.bare, Stmt.filled, stmt, expr_filled c, stmt_filled b]
  | forStmt _ init c step b =>
    cases init with
    | none =>
      simp only [Stmt.bare, Stmt.bareOption, Stmt.filled, Stmt.filledOption, stmt, clause_filled c,
        clause_filled step, stmt_filled b]
    | some init =>
      simp only [Stmt.bare, Stmt.bareOption, Stmt.filled, Stmt.filledOption, stmt, stmt_filled init,
        clause_filled c, clause_filled step, stmt_filled b]
  | breakStmt => rfl
  | returnStmt _ e =>
    cases e with
    | none => rfl
    | some e =>
      simp only [Stmt.bare, Expr.bareOption, Stmt.filled, Expr.filledOption, stmt, expr_filled e]
  | funDecl d => simp only [Stmt.bare, Stmt.filled, stmt, funDecl_filled _ d]
  | classDecl _ _ sup ms ss =>
    cases sup with
    | none =>
      simp only [Stmt.bare, Option.map_none, Stmt.filled, stmt, funDecls_filled _ ms,
        funDecls_filled _ ss]
    | some sup =>
      simp only [Stmt.bare, Option.map_some, NameUse.bare, Stmt.filled, stmt, funDecls_filled _ ms,
        funDecls_filled _ ss]

private theorem stmts_filled (ss : List Stmt) :
    stmts (Stmt.filledAll (Stmt.bareAll ss)) = stmts ss := by
  cases ss with
  | nil => rfl
  | cons s ss => simp only [Stmt.bareAll, Stmt.filledAll, stmts, stmt_filled s, stmts_filled ss]

theorem funDecl_filled (head : Text) (d : FunDecl) :
    funDecl head d.bare.filled = funDecl head d := by
  cases d with
  | mk _ n ps body =>
    simp only [FunDecl.bare, FunDecl.filled, funDecl, Param.listSource_bare, stmts_filled body]

theorem funDecls_filled (head : Text) (ds : List FunDecl) :
    funDecls head (FunDecl.filledAll (FunDecl.bareAll ds)) = funDecls head ds := by
  cases ds with
  | nil => rfl
  | cons d ds =>
    simp only [FunDecl.bareAll, FunDecl.filledAll, funDecls, funDecl_filled head d,
      funDecls_filled head ds]

end

end Sexpr

theorem Program.sexpr_filled (p : Program) : p.bare.filled.sexpr = p.sexpr := by
  simp only [sexpr, bare, filled, Sexpr.stmts_filled]

end Lox
