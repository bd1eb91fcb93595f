import Lox.Proofs.Parse
import Lox.Syntax.Basic

set_option autoImplicit false
set_option relaxedAutoImplicit false

namespace Lox

/-- What one scope declares: its parameters and variables, and its functions and classes. -/
structure LocalScope where
  vars : List Text
  definitions : List Text

namespace Stmt

/-- The variables that a statement declares in the scope in which it stands. -/
def vars : Stmt → List Text
  | .varDecl _ n _ => [n]
  | .ifStmt _ _ a none => a.vars
  | .ifStmt _ _ a (some b) => a.vars ++ b.vars
  | .whileStmt _ _ b => b.vars
  | _ => []

/-- The functions and classes that a statement declares in the scope in which it stands. -/
def definitions : Stmt → List Text
  | .funDecl d => [d.name]
  | .classDecl _ n _ _ _ => [n]
  | .ifStmt _ _ a none => a.definitions
  | .ifStmt _ _ a (some b) => a.definitions ++ b.definitions
  | .whileStmt _ _ b => b.definitions
  | _ => []

end Stmt

def LocalScope.of (ps : List Param) (body : List Stmt) : LocalScope where
  vars := ps.map Param.name ++ body.flatMap Stmt.vars
  definitions := body.flatMap Stmt.definitions

/-! ### The scopes inside a piece of a program -/

mutual

def Expr.scopes : Expr → List LocalScope
  | .literal _ _ | .name _ | .this _ _ | .super _ _ _ => []
  | .grouping _ e | .unary _ _ e | .assign _ e | .get _ e _ => e.scopes
  | .binary _ _ a b | .logical _ _ a b => a.scopes ++ b.scopes
  | .conditional _ c a b => c.scopes ++ (a.scopes ++ b.scopes)
  | .call _ f args => f.scopes ++ Expr.scopesAll args
  | .set _ o _ e => o.scopes ++ e.scopes
  | .lambda _ ps body => .of ps body :: Stmt.scopesAll body

def Expr.scopesAll : List Expr → List LocalScope
  | [] => []
  | e :: r => e.scopes ++ Expr.scopesAll r

def Expr.scopesOption : Option Expr → List LocalScope
  | none => []
  | some e => e.scopes

def Stmt.scopes : Stmt → List LocalScope
  | .exprStmt _ e | .printStmt _ e => e.scopes
  | .varDecl _ _ e | .returnStmt _ e => Expr.scopesOption e
  | .block _ body => .of [] body :: Stmt.scopesAll body
  | .ifStmt _ c a none => c.scopes ++ a.scopes
  | .ifStmt _ c a (some b) => c.scopes ++ (a.scopes ++ b.scopes)
  | .whileStmt _ c b => c.scopes ++ b.scopes
  | .forStmt _ none c i b => Expr.scopesOption c ++ .of [] [b] :: (b.scopes ++ Expr.scopesOption i)
  | .forStmt _ (some init) c i b => .of [] [init] :: (init.scopes ++
      (Expr.scopesOption c ++ .of [] [b] :: (b.scopes ++ Expr.scopesOption i)))
  | .breakStmt _ => []
  | .funDecl d => d.scopes
  | .classDecl _ _ _ ms ss => FunDecl.scopesAll ms ++ FunDecl.scopesAll ss

def Stmt.scopesAll : List Stmt → List LocalScope
  | [] => []
  | s :: r => s.scopes ++ Stmt.scopesAll r

def FunDecl.scopes : FunDecl → List LocalScope
  | .mk _ _ ps body => .of ps body :: Stmt.scopesAll body

def FunDecl.scopesAll : List FunDecl → List LocalScope
  | [] => []
  | d :: r => d.scopes ++ FunDecl.scopesAll r

end

/-! ### The names that occur in a piece of a program as variables, functions or classes -/

mutual

def Expr.names : Expr → List Text
  | .literal _ _ | .this _ _ | .super _ _ _ => []
  | .name use => [use.name]
  | .grouping _ e | .unary _ _ e | .get _ e _ => e.names
  | .assign target e => target.name :: e.names
  | .binary _ _ a b | .logical _ _ a b => a.names ++ b.names
  | .conditional _ c a b => c.names ++ (a.names ++ b.names)
  | .call _ f args => f.names ++ Expr.namesAll args
  | .set _ o _ e => o.names ++ e.names
  | .lambda _ ps body => ps.map Param.name ++ Stmt.namesAll body

def Expr.namesAll : List Expr → List Text
  | [] => []
  | e :: r => e.names ++ Expr.namesAll r

def Expr.namesOption : Option Expr → List Text
  | none => []
  | some e => e.names

def Stmt.names : Stmt → List Text
  | .exprStmt _ e | .printStmt _ e => e.names
  | .varDecl _ n e => n :: Expr.namesOption e
  | .returnStmt _ e => Expr.namesOption e
  | .block _ body => Stmt.namesAll body
  | .ifStmt _ c a none => c.names ++ a.names
  | .ifStmt _ c a (some b) => c.names ++ (a.names ++ b.names)
  | .whileStmt _ c b => c.names ++ b.names
  | .forStmt _ none c i b => Expr.namesOption c ++ (b.names ++ Expr.namesOption i)
  | .forStmt _ (some init) c i b =>
    init.names ++ (Expr.namesOption c ++ (b.names ++ Expr.namesOption i))
  | .breakStmt _ => []
  | .funDecl d => d.name :: d.names
  | .classDecl _ n none ms ss => n :: (FunDecl.namesAll ms ++ FunDecl.namesAll ss)
  | .classDecl _ n (some sup) ms ss => n :: sup.name :: (FunDecl.namesAll ms ++ FunDecl.namesAll ss)

def Stmt.namesAll : List Stmt → List Text
  | [] => []
  | s :: r => s.names ++ Stmt.namesAll r

def FunDecl.names : FunDecl → List Text
  | .mk _ _ ps body => ps.map Param.name ++ Stmt.namesAll body

def FunDecl.namesAll : List FunDecl → List Text
  | [] => []
  | d :: r => d.names ++ FunDecl.namesAll r

end

/-- Another name for what the scope with a number declares under a name. -/
structure Renaming where
  scope : Nat
  old : Text
  new : Text
  old_isName : Token.IsLexeme .name old old
  new_isName : Token.IsLexeme .name new new

namespace Renaming

variable (r : Renaming)

/-- The new name of what is declared as `n`, if that is in the scope. -/
def apply (here : Bool) (n : Text) : Text := if here = true ∧ n = r.old then r.new else n

def picks (k : Nat) : Bool := k == r.scope

/-- Whether the innermost scope is the one, when it is told which of the scopes around a place it
is. -/
def here (marks : List Bool) : Bool := marks.head?.getD false

def reaches (marks : List Bool) : Option Int → Bool
  | some d => marks[d.toNat]?.getD false
  | none => false

def use (marks : List Bool) (u : NameUse) : NameUse :=
  { u with name := r.apply (reaches marks u.hops) u.name }

def param (here : Bool) (p : Param) : Param := { p with name := r.apply here p.name }

/-! The number `k` is that of the next scope; `marks` tells which of the scopes around is the one.
-/

mutual

def expr (k : Nat) (marks : List Bool) : Expr → Expr
  | .literal s v => .literal s v
  | .grouping s e => .grouping s (expr k marks e)
  | .unary s op e => .unary s op (expr k marks e)
  | .binary s op a b => .binary s op (expr k marks a) (expr (k + a.scopes.length) marks b)
  | .logical s op a b => .logical s op (expr k marks a) (expr (k + a.scopes.length) marks b)
  | .conditional s c a b => .conditional s (expr k marks c) (expr (k + c.scopes.length) marks a)
      (expr (k + c.scopes.length + a.scopes.length) marks b)
  | .name u => .name (r.use marks u)
  | .assign target e => .assign (r.use marks target) (expr k marks e)
  | .call s f args => .call s (expr k marks f) (exprs (k + f.scopes.length) marks args)
  | .get s o n => .get s (expr k marks o) n
  | .set s o n e => .set s (expr k marks o) n (expr (k + o.scopes.length) marks e)
  | .this s hops => .this s hops
  | .super s m hops => .super s m hops
  | .lambda s ps body =>
    .lambda s (ps.map (r.param (r.picks k))) (stmts (k + 1) (r.picks k :: marks) body)

def exprs (k : Nat) (marks : List Bool) : List Expr → List Expr
  | [] => []
  | e :: es => expr k marks e :: exprs (k + e.scopes.length) marks es

def clause (k : Nat) (marks : List Bool) : Option Expr → Option Expr
  | none => none
  | some e => some (expr k marks e)

def stmt (k : Nat) (marks : List Bool) : Stmt → Stmt
  | .exprStmt s e => .exprStmt s (expr k marks e)
  | .printStmt s e => .printStmt s (expr k marks e)
  | .varDecl s n e => .varDecl s (r.apply (here marks) n) (clause k marks e)
  | .block s body => .block s (stmts (k + 1) (r.picks k :: marks) body)
  | .ifStmt s c a none => .ifStmt s (expr k marks c) (stmt (k + c.scopes.length) marks a) none
  | .ifStmt s c a (some b) => .ifStmt s (expr k marks c) (stmt (k + c.scopes.length) marks a)
      (some (stmt (k + c.scopes.length + a.scopes.length) marks b))
  | .whileStmt s c b => .whileStmt s (expr k marks c) (stmt (k + c.scopes.length) marks b)
  | .forStmt s none c i b =>
    let round := k + (Expr.scopesOption c).length
    .forStmt s none (clause k marks c)
      (clause (round + 1 + b.scopes.length) (r.picks round :: marks) i)
      (stmt (round + 1) (r.picks round :: marks) b)
  | .forStmt s (some init) c i b =>
    let outer := r.picks k :: marks
    let round := k + 1 + init.scopes.length + (Expr.scopesOption c).length
    .forStmt s (some (stmt (k + 1) outer init)) (clause (k + 1 + init.scopes.length) outer c)
      (clause (round + 1 + b.scopes.length) (r.picks round :: outer) i)
      (stmt (round + 1) (r.picks round :: outer) b)
  | .breakStmt s => .breakStmt s
  | .returnStmt s e => .returnStmt s (clause k marks e)
  | .funDecl d => .funDecl (function k marks d)
  | .classDecl s n none ms ss =>
    let inside := false :: marks
    .classDecl s n none (functions k inside ms)
      (functions (k + (FunDecl.scopesAll ms).length) inside ss)
  | .classDecl s n (some sup) ms ss =>
    let inside := false :: false :: marks
    .classDecl s n (some (r.use marks sup)) (functions k inside ms)
      (functions (k + (FunDecl.scopesAll ms).length) inside ss)

def stmts (k : Nat) (marks : List Bool) : List Stmt → List Stmt
  | [] => []
  | s :: ss => stmt k marks s :: stmts (k + s.scopes.length) marks ss

def function (k : Nat) (marks : List Bool) : FunDecl → FunDecl
  | .mk s n ps body =>
    .mk s n (ps.map (r.param (r.picks k))) (stmts (k + 1) (r.picks k :: marks) body)

def functions (k : Nat) (marks : List Bool) : List FunDecl → List FunDecl
  | [] => []
  | d :: ds => function k marks d :: functions (k + d.scopes.length) marks ds

end

/-- The program with the new name. -/
def program (p : Program) : Program := { p with body := r.stmts 0 [] p.body }

end Renaming
end Lox
