import Lox.Proofs.Grammar.Bare

set_option autoImplicit false
set_option relaxedAutoImplicit false

namespace Lox

/-- Two expressions between which a logical operator stands, as a tree that leans to the left: what
is a chain of the same operator on the right goes on the chain on the left. -/
def LogicalOp.join (op : LogicalOp) (a : Expr) : Expr → Expr
  | .logical s op' b c =>
    if op' = op then .logical s op (join op a b) c else .logical .blank op a (.logical s op' b c)
  | b => .logical .blank op a b

mutual

def Expr.regrouped : Expr → Expr
  | .literal s v => .literal s v
  | .grouping _ e => e.regrouped
  | .unary s op e => .unary s op e.regrouped
  | .binary s op a b => .binary s op a.regrouped b.regrouped
  | .logical _ op a b => op.join a.regrouped b.regrouped
  | .conditional s c a b => .conditional s c.regrouped a.regrouped b.regrouped
  | .name use => .name use
  | .assign target e => .assign target e.regrouped
  | .call s f args => .call s f.regrouped (Expr.regroupedAll args)
  | .get s o n => .get s o.regrouped n
  | .set s o n e => .set s o.regrouped n e.regrouped
  | .this s hops => .this s hops
  | .super s m hops => .super s m hops
  | .lambda s ps body => .lambda s ps (Stmt.regroupedAll body)

def Expr.regroupedAll : List Expr → List Expr
  | [] => []
  | e :: r => e.regrouped :: Expr.regroupedAll r

def Expr.regroupedOption : Option Expr → Option Expr
  | none => none
  | some e => some e.regrouped

def Stmt.regrouped : Stmt → Stmt
  | .exprStmt s e => .exprStmt s e.regrouped
  | .printStmt s e => .printStmt s e.regrouped
  | .varDecl s n init => .varDecl s n (Expr.regroupedOption init)
  | .block s body => .block s (Stmt.regroupedAll body)
  | .ifStmt s c a b => .ifStmt s c.regrouped a.regrouped (Stmt.regroupedOption b)
  | .whileStmt s c b => .whileStmt s c.regrouped b.regrouped
  | .forStmt s init c step b =>
    .forStmt s (Stmt.regroupedOption init) (Expr.regroupedOption c)
      (Expr.regroupedOption step) b.regrouped
  | .breakStmt s => .breakStmt s
  | .returnStmt s e => .returnStmt s (Expr.regroupedOption e)
  | .funDecl d => .funDecl d.regrouped
  | .classDecl s n sup ms ss =>
    .classDecl s n sup (FunDecl.regroupedAll ms) (FunDecl.regroupedAll ss)

def Stmt.regroupedAll : List Stmt → List Stmt
  | [] => []
  | s :: r => s.regrouped :: Stmt.regroupedAll r

def Stmt.regroupedOption : Option Stmt → Option Stmt
  | none => none
  | some s => some s.regrouped

def FunDecl.regrouped : FunDecl → FunDecl
  | .mk s n ps body => .mk s n ps (Stmt.regroupedAll body)

def FunDecl.regroupedAll : List FunDecl → List FunDecl
  | [] => []
  | d :: r => d.regrouped :: FunDecl.regroupedAll r

end

attribute [simp] Expr.regrouped Expr.regroupedAll Expr.regroupedOption
  Stmt.regrouped Stmt.regroupedAll
  Stmt.regroupedOption FunDecl.regrouped FunDecl.regroupedAll

def Expr.core (e : Expr) : Expr := e.bare.regrouped

def Stmt.core (s : Stmt) : Stmt := s.bare.regrouped

def Stmt.coreAll (ss : List Stmt) : List Stmt := Stmt.regroupedAll (Stmt.bareAll ss)

/-- The core of a program. -/
def Program.core (p : Program) : Program := { span := .blank, body := Stmt.coreAll p.body }

/-! ### Chains -/

namespace LogicalOp

theorem join_same (op : LogicalOp) (a : Expr) (s : Span) (b c : Expr) :
    op.join a (.logical s op b c) = .logical s op (op.join a b) c := if_pos rfl

theorem join_other {op : LogicalOp} (a : Expr) {b : Expr} (h : ∀ s x y, b ≠ .logical s op x y) :
    op.join a b = .logical .blank op a b := by
  cases b with
  | logical s op' x y =>
    refine if_neg ?_
    rintro rfl
    exact h s x y rfl
  | _ => rfl

theorem join_induction {P : Expr → Prop} (op : LogicalOp)
    (hchain : ∀ s b c, P b → P (.logical s op b c))
    (hother : ∀ b, (∀ s x y, b ≠ .logical s op x y) → P b) : ∀ b, P b
  | .logical s op' b c => by
    by_cases hop : op' = op
    · exact hop ▸ hchain s b c (join_induction op hchain hother b)
    · refine hother _ fun s' x' y' heq => hop ?_
      cases heq
      rfl
  | .literal .. | .grouping .. | .unary .. | .binary .. | .conditional .. | .name .. | .assign ..
  | .call .. | .get .. | .set .. | .this .. | .super .. | .lambda .. => hother _ nofun

private theorem join_assoc (op : LogicalOp) (a b c : Expr) :
    op.join (op.join a b) c = op.join a (op.join b c) := by
  induction c using op.join_induction with
  | hchain s x y ih => rw [join_same, join_same, join_same, ih]
  | hother c hc => rw [join_other _ hc, join_other _ hc, join_same]

theorem core_join (op : LogicalOp) (a b : Expr) : (op.join a b).core = op.join a.core b.core := by
  induction b using op.join_induction with
  | hchain s x y ih =>
    calc (op.join a (.logical s op x y)).core
        = op.join (op.join a x).core y.core := by rw [join_same]; rfl
      _ = op.join a.core (op.join x.core y.core) := by rw [ih, join_assoc]
  | hother b hb => rw [join_other _ hb]; rfl

end LogicalOp
end Lox
