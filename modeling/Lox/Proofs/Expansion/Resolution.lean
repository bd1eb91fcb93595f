import Lox.Proofs.Expansion.Basic
import Lox.Proofs.Scope.Resolution

set_option autoImplicit false
set_option relaxedAutoImplicit false

namespace Lox

namespace Checked

variable {α β γ : Type}

def map (f : α → β) (x : Checked α) : Checked β := { value := f x.value, found := x.found }

theorem ext {x y : Checked α} (hvalue : x.value = y.value) (hfound : x.found = y.found) :
    x = y := by
  obtain ⟨v, ds⟩ := x
  obtain ⟨w, es⟩ := y
  cases hvalue
  cases hfound
  rfl

private theorem map_bind {δ : Type} {x : Checked α} {p : α → β} {f : β → Checked δ} {q : γ → δ}
    {g : α → Checked γ} (h : f (p x.value) = (g x.value).map q) :
    (x.map p >>= f) = (x >>= g).map q := by
  have hvalue := congrArg Checked.value h
  have hfound := congrArg Checked.found h
  exact ext hvalue (congrArg (x.found ++ ·) hfound)

private theorem bind_map {δ : Type} {x : Checked α} {f : α → Checked δ}
    {q : γ → δ} {g : α → Checked γ}
    (h : f x.value = (g x.value).map q) : (x >>= f) = (x >>= g).map q := by
  have hvalue := congrArg Checked.value h
  have hfound := congrArg Checked.found h
  exact ext hvalue (congrArg (x.found ++ ·) hfound)

end Checked

namespace Resolve

open Checked

def expandFirst (r : Stmt × Scopes) : Stmt × Scopes := (r.1.expanded, r.2)

def expandAll (r : List Stmt × Scopes) : List Stmt × Scopes := (Stmt.expandedAll r.1, r.2)

private theorem isClause_stmt (at_ : Surroundings) (env : Scopes) (s : Stmt) :
    (stmt at_ env s).value.1.isClause = s.isClause := by
  cases s with
  | ifStmt s c a b => cases b <;> rfl
  | forStmt s init c i b => cases init <;> rfl
  | returnStmt s e => cases e <;> rfl
  | classDecl s n sup ms ss => cases sup <;> rfl
  | _ => rfl

private theorem stmt_asWhile (at_ : Surroundings) (env : Scopes) (s : Span)
    (c i : Option Expr) (b : Stmt) :
    stmt at_ env (.asWhile s c i b) = (do
      let c ← clause at_ env c
      let round := { at_ with inLoop := true }
      let (b, inner) ← stmt round (env.push (.empty at_.funs)) b
      let i ← clause round inner i
      return (.asWhile s c i b, env)) := by
  refine ext ?_ ?_
  · cases c <;> cases i <;> rfl
  · cases c <;> cases i <;> simp [Stmt.asWhile, Stmt.asRound, stmt, stmts, clause, expr]

private theorem stmt_block_asWhile (at_ : Surroundings) (env : Scopes) (s : Span) (init : Stmt)
    (c i : Option Expr) (b : Stmt) :
    stmt at_ env (.block s [init, .asWhile s c i b]) = (do
      let (init, outer) ← stmt at_ (env.push (.empty at_.funs)) init
      let c ← clause at_ outer c
      let round := { at_ with inLoop := true }
      let (b, inner) ← stmt round (outer.push (.empty at_.funs)) b
      let i ← clause round inner i
      return (.block s [init, .asWhile s c i b], env)) := by
  refine ext ?_ ?_
  · cases c <;> cases i <;> rfl
  · cases c <;> cases i <;> simp [Stmt.asWhile, Stmt.asRound, stmt, stmts, clause, expr]

/-- A loop with a first clause stays a loop or becomes a block, and its parts are resolved in the
same way whichever of them they are put together to. -/
theorem forInit_expanded (at_ : Surroundings) (env : Scopes) (s : Span) {init : Stmt}
    {c i : Option Expr} {b : Stmt}
    (hinit : ∀ at_ env, stmt at_ env init.expanded = (stmt at_ env init).map expandFirst)
    (hc : ∀ at_ env, clause at_ env (Expr.expandedOption c) =
    (clause at_ env c).map Expr.expandedOption)
    (hb : ∀ at_ env, stmt at_ env b.expanded = (stmt at_ env b).map expandFirst)
    (hi : ∀ at_ env, clause at_ env (Expr.expandedOption i) =
    (clause at_ env i).map Expr.expandedOption) :
    stmt at_ env (Stmt.forStmt s (some init) c i b).expanded =
      (stmt at_ env (.forStmt s (some init) c i b)).map expandFirst := by
  have hsame := isClause_stmt at_ (env.push (.empty at_.funs)) init
  generalize hfirst : (stmt at_ (env.push (.empty at_.funs)) init).value.1 = first at hsame
  have hparts : ∀ whole : Stmt → Option Expr → Option Expr → Stmt → Stmt,
      (∀ c i b, whole first.expanded (Expr.expandedOption c) (Expr.expandedOption i) b.expanded =
        (Stmt.forStmt s (some first) c i b).expanded) →
      (do
        let (init, outer) ← stmt at_ (env.push (.empty at_.funs)) init.expanded
        let c ← clause at_ outer (Expr.expandedOption c)
        let round := { at_ with inLoop := true }
        let (b, inner) ← stmt round (outer.push (.empty at_.funs)) b.expanded
        let i ← clause round inner (Expr.expandedOption i)
        return (whole init c i b, env)) =
      (stmt at_ env (.forStmt s (some init) c i b)).map expandFirst := by
    intro whole hwhole
    rw [stmt, hinit]
    refine map_bind ?_
    dsimp only [expandFirst]
    rw [hc]
    refine map_bind ?_
    rw [hb]
    refine map_bind ?_
    dsimp only [expandFirst]
    rw [hi]
    refine map_bind (ext (congrArg (·, env) ?_) rfl)
    rw [hfirst]
    exact hwhole _ _ _
  rw [Stmt.expanded]
  split
  · rename_i hclause
    rw [stmt_block_asWhile]
    refine hparts (fun init c i b => .block s [init, .asWhile s c i b]) fun c i b => ?_
    rw [Stmt.expanded, if_pos (hsame.trans hclause)]
  · rename_i hclause
    rw [stmt]
    refine hparts (fun init c i b => .forStmt s (some init) c i b) fun c i b => ?_
    rw [Stmt.expanded, if_neg fun h => hclause (hsame.symm.trans h)]

mutual

theorem expr_expanded (at_ : Surroundings) (env : Scopes) (e : Expr) :
    expr at_ env e.expanded = (expr at_ env e).map Expr.expanded := by
  cases e with
  | literal s v => rfl
  | grouping s e | unary s op e | get s e n =>
    rw [Expr.expanded, expr, expr_expanded]
    rfl
  | binary s op a b | logical s op a b =>
    rw [Expr.expanded, expr, expr_expanded at_ env a, expr_expanded at_ env b]
    rfl
  | conditional s c a b =>
    rw [Expr.expanded, expr, expr_expanded at_ env c, expr_expanded at_ env a,
      expr_expanded at_ env b]
    rfl
  | name use => rfl
  | assign target e =>
    rw [Expr.expanded, expr, expr_expanded]
    rfl
  | call s f args =>
    rw [Expr.expanded, expr, expr_expanded, exprs_expanded]
    rfl
  | set s o n e =>
    rw [Expr.expanded, expr, expr_expanded at_ env o, expr_expanded at_ env e]
    rfl
  | this s hops =>
    rw [Expr.expanded, expr]
    split <;> rfl
  | super s m hops =>
    rw [Expr.expanded, expr]
    split <;> rfl
  | lambda s ps body =>
    rw [Expr.expanded, expr, stmts_expanded]
    rfl

theorem exprs_expanded (at_ : Surroundings) (env : Scopes) (es : List Expr) :
    exprs at_ env (Expr.expandedAll es) = (exprs at_ env es).map Expr.expandedAll := by
  cases es with
  | nil => rfl
  | cons e es =>
    rw [Expr.expandedAll, exprs, expr_expanded, exprs_expanded]
    rfl

theorem clause_expanded (at_ : Surroundings) (env : Scopes) (e : Option Expr) :
    clause at_ env (Expr.expandedOption e) = (clause at_ env e).map Expr.expandedOption := by
  cases e with
  | none => rfl
  | some e =>
    rw [Expr.expandedOption, clause, expr_expanded]
    rfl

theorem stmt_expanded (at_ : Surroundings) (env : Scopes) (s : Stmt) :
    stmt at_ env s.expanded = (stmt at_ env s).map expandFirst := by
  cases s with
  | exprStmt s e | printStmt s e =>
    rw [Stmt.expanded, stmt, expr_expanded]
    rfl
  | varDecl s n e =>
    rw [Stmt.expanded, stmt, clause_expanded]
    rfl
  | block s body =>
    rw [Stmt.expanded, stmt, stmts_expanded]
    rfl
  | ifStmt s c a b =>
    cases b with
    | none =>
      rw [Stmt.expanded, stmt, expr_expanded, stmt_expanded]
      rfl
    | some b =>
      rw [Stmt.expanded, stmt, stmt, expr_expanded, stmt_expanded at_ env a]
      refine map_bind (map_bind ?_)
      dsimp only [expandFirst]
      rw [stmt_expanded]
      exact map_bind rfl
  | whileStmt s c b =>
    rw [Stmt.expanded, stmt, expr_expanded, stmt_expanded]
    rfl
  | forStmt s init c i b =>
    cases init with
    | none =>
      rw [Stmt.expanded, stmt_asWhile, stmt, clause_expanded]
      refine map_bind ?_
      dsimp only
      rw [stmt_expanded]
      refine map_bind ?_
      dsimp only [expandFirst]
      rw [clause_expanded]
      exact map_bind rfl
    | some init =>
      exact forInit_expanded at_ env s (stmt_expanded · · init) (clause_expanded · · c)
        (stmt_expanded · · b) (clause_expanded · · i)
  | breakStmt s => rfl
  | returnStmt s e =>
    cases e with
    | none => rfl
    | some e =>
      rw [Stmt.expanded, Expr.expandedOption, stmt, expr_expanded]
      rfl
  | funDecl d =>
    have hname : d.expanded.name = d.name := by cases d; rfl
    rw [Stmt.expanded, stmt, stmt, hname, funDecl_expanded]
    exact map_bind rfl
  | classDecl s n sup ms ss =>
    cases sup with
    | none =>
      rw [Stmt.expanded, stmt, methods_expanded, methods_expanded]
      rfl
    | some sup =>
      rw [Stmt.expanded, stmt, stmt]
      refine bind_map (bind_map ?_)
      dsimp only
      rw [methods_expanded, methods_expanded]
      exact map_bind (map_bind rfl)

private theorem stmts_expanded (at_ : Surroundings) (env : Scopes) (ss : List Stmt) :
    stmts at_ env (Stmt.expandedAll ss) = (stmts at_ env ss).map expandAll := by
  cases ss with
  | nil => rfl
  | cons s ss =>
    rw [Stmt.expandedAll, stmts, stmts, stmt_expanded at_ env s]
    refine map_bind ?_
    dsimp only [expandFirst]
    rw [stmts_expanded]
    exact map_bind rfl

theorem funDecl_expanded (at_ : Surroundings) (env : Scopes) (kind : Body) (d : FunDecl) :
    funDecl at_ env kind d.expanded = (funDecl at_ env kind d).map FunDecl.expanded := by
  obtain ⟨s, n, ps, body⟩ := d
  rw [FunDecl.expanded, funDecl, stmts_expanded]
  rfl

theorem methods_expanded (at_ : Surroundings) (env : Scopes)
    (ofInstances : Bool) (ds : List FunDecl) :
    methods at_ env ofInstances (FunDecl.expandedAll ds) =
      (methods at_ env ofInstances ds).map FunDecl.expandedAll := by
  cases ds with
  | nil => rfl
  | cons d ds =>
    have hname : d.expanded.name = d.name := by cases d; rfl
    rw [FunDecl.expandedAll, methods, methods, hname, funDecl_expanded, methods_expanded]
    exact map_bind (map_bind rfl)

end

end Resolve

/-- An expanded program is accepted if the program is, with the same hops everywhere, and has the
same violations in the same order if it is not. -/
theorem Program.resolve_expanded (p : Program) (bound : List Text) :
    p.expanded.resolve bound = (p.resolve bound).map Program.expanded := by
  have hbody := Resolve.stmts_expanded {} (.top bound) p.body
  unfold resolve
  rw [show p.expanded.body = Stmt.expandedAll p.body from rfl, hbody]
  dsimp only [Checked.map, Resolve.expandAll]
  split <;> rfl

end Lox
