import Lox.Proofs.Grammar.Basic

set_option autoImplicit false
set_option relaxedAutoImplicit false

namespace Lox

def Span.blank : Span := .nowhere []

def Param.bare (p : Param) : Param := { p with span := .blank }

def NameUse.bare (use : NameUse) : NameUse := { use with span := .blank }

mutual

def Expr.bare : Expr → Expr
  | .literal _ v => .literal .blank v
  | .grouping _ e => .grouping .blank e.bare
  | .unary _ op e => .unary .blank op e.bare
  | .binary _ op a b => .binary .blank op a.bare b.bare
  | .logical _ op a b => .logical .blank op a.bare b.bare
  | .conditional _ c a b => .conditional .blank c.bare a.bare b.bare
  | .name use => .name use.bare
  | .assign target e => .assign target.bare e.bare
  | .call _ f args => .call .blank f.bare (Expr.bareAll args)
  | .get _ o n => .get .blank o.bare n
  | .set _ o n e => .set .blank o.bare n e.bare
  | .this _ hops => .this .blank hops
  | .super _ m hops => .super .blank m hops
  | .lambda _ ps body => .lambda .blank (ps.map Param.bare) (Stmt.bareAll body)

def Expr.bareAll : List Expr → List Expr
  | [] => []
  | e :: r => e.bare :: Expr.bareAll r

def Expr.bareOption : Option Expr → Option Expr
  | none => none
  | some e => some e.bare

def Stmt.bare : Stmt → Stmt
  | .exprStmt _ e => .exprStmt .blank e.bare
  | .printStmt _ e => .printStmt .blank e.bare
  | .varDecl _ n init => .varDecl .blank n (Expr.bareOption init)
  | .block _ body => .block .blank (Stmt.bareAll body)
  | .ifStmt _ c a b => .ifStmt .blank c.bare a.bare (Stmt.bareOption b)
  | .whileStmt _ c b => .whileStmt .blank c.bare b.bare
  | .forStmt _ init c step b =>
    .forStmt .blank (Stmt.bareOption init) (Expr.bareOption c) (Expr.bareOption step) b.bare
  | .breakStmt _ => .breakStmt .blank
  | .returnStmt _ e => .returnStmt .blank (Expr.bareOption e)
  | .funDecl d => .funDecl d.bare
  | .classDecl _ n sup ms ss =>
    .classDecl .blank n (sup.map NameUse.bare) (FunDecl.bareAll ms) (FunDecl.bareAll ss)

def Stmt.bareAll : List Stmt → List Stmt
  | [] => []
  | s :: r => s.bare :: Stmt.bareAll r

def Stmt.bareOption : Option Stmt → Option Stmt
  | none => none
  | some s => some s.bare

def FunDecl.bare : FunDecl → FunDecl
  | .mk _ n ps body => .mk .blank n (ps.map Param.bare) (Stmt.bareAll body)

def FunDecl.bareAll : List FunDecl → List FunDecl
  | [] => []
  | d :: r => d.bare :: FunDecl.bareAll r

end

attribute [simp] Expr.bare Expr.bareAll Expr.bareOption Stmt.bare Stmt.bareAll Stmt.bareOption
  FunDecl.bare FunDecl.bareAll Param.bare NameUse.bare

/-- A program without its spans. -/
def Program.bare (p : Program) : Program := { span := .blank, body := Stmt.bareAll p.body }

theorem Expr.bare_eq_name {e : Expr} {use : NameUse} (h : e.bare = .name use) :
    ∃ s, e = .name { use with span := s } := by
  cases e with
  | name use' =>
    obtain ⟨s, n, hops⟩ := use'
    simp only [Expr.bare, Expr.name.injEq] at h
    exact ⟨s, h ▸ rfl⟩
  | _ => simp [Expr.bare] at h

theorem Expr.bare_eq_get {e o : Expr} {n : Text} {s : Span} (h : e.bare = .get s o n) :
    ∃ s' o', e = .get s' o' n ∧ o'.bare = o := by
  cases e with
  | get s' o' n' =>
    simp only [Expr.bare, Expr.get.injEq] at h
    exact ⟨s', o', by rw [h.2.2], h.2.1⟩
  | _ => simp [Expr.bare] at h

end Lox
