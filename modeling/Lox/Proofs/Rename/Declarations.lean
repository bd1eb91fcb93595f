import Lox.Proofs.Rename.Relation

set_option autoImplicit false
set_option relaxedAutoImplicit false

namespace Lox

/-- A scope whose variables have their new names if it is the one. -/
def LocalScope.renamed (r : Renaming) (here : Bool) (sc : LocalScope) : LocalScope :=
  { sc with vars := sc.vars.map (r.apply here) }

namespace Renaming

variable (r : Renaming)

def scopesFrom (k : Nat) (scopes : List LocalScope) : List LocalScope :=
  scopes.mapIdx fun i sc => sc.renamed r (r.picks (k + i))

private theorem scopesFrom_cons (k : Nat) (sc : LocalScope) (scopes : List LocalScope) :
    r.scopesFrom k (sc :: scopes) = sc.renamed r (r.picks k) :: r.scopesFrom (k + 1) scopes := by
  simp only [scopesFrom, List.mapIdx_cons, Nat.add_zero, Nat.add_right_comm k 1, Nat.add_assoc]

private theorem scopesFrom_append (k : Nat) (a b : List LocalScope) :
    r.scopesFrom k (a ++ b) = r.scopesFrom k a ++ r.scopesFrom (k + a.length) b := by
  simp only [scopesFrom, List.mapIdx_append, Nat.add_assoc, Nat.add_comm a.length]

private theorem scopesFrom_zero (scopes : List LocalScope) :
    r.scopesFrom 0 scopes = scopes.modify r.scope (·.renamed r true) := by
  have hfalse : ∀ sc : LocalScope, sc.renamed r false = sc := by
    intro sc
    rw [LocalScope.renamed, List.map_id'' r.apply_false]
  refine List.ext_getElem? fun i => ?_
  rw [scopesFrom, List.getElem?_mapIdx, List.getElem?_modify, Nat.zero_add]
  refine Option.map_congr fun sc _ => ?_
  by_cases hi : r.scope = i
  · rw [if_pos hi, picks, beq_iff_eq.2 hi.symm]
  · rw [if_neg hi, picks, beq_false_of_ne (Ne.symm hi), hfalse]

/-! ### What a statement declares where it stands -/

private theorem stmt_vars (k : Nat) (marks : List Bool) (s : Stmt) :
    (r.stmt k marks s).vars = s.vars.map (r.apply (here marks)) := by
  cases s with
  | ifStmt s c a b =>
    cases b with
    | none => exact stmt_vars _ marks a
    | some b =>
      rw [stmt, Stmt.vars, Stmt.vars, List.map_append, stmt_vars _ marks a,
        stmt_vars _ marks b]
  | whileStmt s c b => exact stmt_vars _ marks b
  | forStmt s init c i b => cases init <;> rfl
  | classDecl s n sup ms ss => cases sup <;> rfl
  | _ => rfl

private theorem stmt_definitions (k : Nat) (marks : List Bool) (s : Stmt) :
    (r.stmt k marks s).definitions = s.definitions := by
  cases s with
  | ifStmt s c a b =>
    cases b with
    | none => exact stmt_definitions _ marks a
    | some b =>
      rw [stmt, Stmt.definitions, Stmt.definitions, stmt_definitions _ marks a,
        stmt_definitions _ marks b]
  | whileStmt s c b => exact stmt_definitions _ marks b
  | forStmt s init c i b => cases init <;> rfl
  | funDecl d =>
    cases d
    rfl
  | classDecl s n sup ms ss => cases sup <;> rfl
  | _ => rfl

private theorem stmts_vars (k : Nat) (marks : List Bool) (ss : List Stmt) :
    (r.stmts k marks ss).flatMap Stmt.vars =
      (ss.flatMap Stmt.vars).map (r.apply (here marks)) := by
  induction ss generalizing k with
  | nil => rfl
  | cons s ss ih =>
    rw [stmts, List.flatMap_cons, List.flatMap_cons, List.map_append, ih, stmt_vars]

private theorem stmts_definitions (k : Nat) (marks : List Bool) (ss : List Stmt) :
    (r.stmts k marks ss).flatMap Stmt.definitions = ss.flatMap Stmt.definitions := by
  induction ss generalizing k with
  | nil => rfl
  | cons s ss ih => rw [stmts, List.flatMap_cons, List.flatMap_cons, ih, stmt_definitions]

private theorem scope_of (k : Nat) (b : Bool) (marks : List Bool)
    (ps : List Param) (body : List Stmt) :
    LocalScope.of (ps.map (r.param b)) (r.stmts k (b :: marks) body) =
      (LocalScope.of ps body).renamed r b := by
  rw [LocalScope.of, LocalScope.of, LocalScope.renamed, stmts_vars, stmts_definitions,
    List.map_append, List.map_map, List.map_map]
  rfl

private theorem scope_of_single (k : Nat) (b : Bool) (marks : List Bool) (s : Stmt) :
    LocalScope.of [] [r.stmt k (b :: marks) s] = (LocalScope.of [] [s]).renamed r b :=
  r.scope_of k b marks [] [s]

/-! ### The scopes inside -/

mutual

theorem expr_scopes (k : Nat) (marks : List Bool) (e : Expr) :
    (r.expr k marks e).scopes = r.scopesFrom k e.scopes := by
  cases e with
  | literal s v => rfl
  | name u => rfl
  | this s hops => rfl
  | super s m hops => rfl
  | grouping s e => exact expr_scopes k marks e
  | unary s op e => exact expr_scopes k marks e
  | assign target e => exact expr_scopes k marks e
  | get s o n => exact expr_scopes k marks o
  | binary s op a b =>
    rw [expr, Expr.scopes, Expr.scopes, scopesFrom_append, expr_scopes, expr_scopes]
  | logical s op a b =>
    rw [expr, Expr.scopes, Expr.scopes, scopesFrom_append, expr_scopes, expr_scopes]
  | conditional s c a b =>
    rw [expr, Expr.scopes, Expr.scopes, scopesFrom_append, scopesFrom_append,
      expr_scopes, expr_scopes,
      expr_scopes]
  | call s f args =>
    rw [expr, Expr.scopes, Expr.scopes, scopesFrom_append, expr_scopes, exprs_scopes]
  | set s o n e =>
    rw [expr, Expr.scopes, Expr.scopes, scopesFrom_append, expr_scopes, expr_scopes]
  | lambda s ps body =>
    rw [expr, Expr.scopes, Expr.scopes, scopesFrom_cons, scope_of, stmts_scopes]

theorem exprs_scopes (k : Nat) (marks : List Bool) (es : List Expr) :
    Expr.scopesAll (r.exprs k marks es) = r.scopesFrom k (Expr.scopesAll es) := by
  cases es with
  | nil => rfl
  | cons e es =>
    rw [exprs, Expr.scopesAll, Expr.scopesAll, scopesFrom_append, expr_scopes, exprs_scopes]

theorem clause_scopes (k : Nat) (marks : List Bool) (c : Option Expr) :
    Expr.scopesOption (r.clause k marks c) = r.scopesFrom k (Expr.scopesOption c) := by
  cases c with
  | none => rfl
  | some e => exact expr_scopes k marks e

theorem stmt_scopes (k : Nat) (marks : List Bool) (s : Stmt) :
    (r.stmt k marks s).scopes = r.scopesFrom k s.scopes := by
  cases s with
  | exprStmt s e => exact expr_scopes k marks e
  | printStmt s e => exact expr_scopes k marks e
  | varDecl s n e => exact clause_scopes k marks e
  | block s body =>
    have hscope := r.scope_of (k + 1) (r.picks k) marks [] body
    rw [List.map_nil] at hscope
    rw [stmt, Stmt.scopes, Stmt.scopes, scopesFrom_cons, hscope, stmts_scopes]
  | ifStmt s c a b =>
    cases b with
    | none => rw [stmt, Stmt.scopes, Stmt.scopes, scopesFrom_append, expr_scopes, stmt_scopes]
    | some b =>
      rw [stmt, Stmt.scopes, Stmt.scopes, scopesFrom_append, scopesFrom_append,
        expr_scopes, stmt_scopes,
        stmt_scopes]
  | whileStmt s c b =>
    rw [stmt, Stmt.scopes, Stmt.scopes, scopesFrom_append, expr_scopes, stmt_scopes]
  | forStmt s init c i b =>
    cases init with
    | none =>
      rw [stmt, Stmt.scopes, Stmt.scopes, scopesFrom_append, scopesFrom_cons, scopesFrom_append,
        clause_scopes, scope_of_single, stmt_scopes, clause_scopes]
    | some init =>
      rw [stmt, Stmt.scopes, Stmt.scopes, scopesFrom_cons, scopesFrom_append, scopesFrom_append,
        scopesFrom_cons, scopesFrom_append, scope_of_single, stmt_scopes,
          clause_scopes, scope_of_single,
        stmt_scopes, clause_scopes]
  | breakStmt s => rfl
  | returnStmt s e => exact clause_scopes k marks e
  | funDecl d => exact function_scopes k marks d
  | classDecl s n sup ms ss =>
    cases sup with
    | none =>
      rw [stmt, Stmt.scopes, Stmt.scopes, scopesFrom_append, functions_scopes, functions_scopes]
    | some sup =>
      rw [stmt, Stmt.scopes, Stmt.scopes, scopesFrom_append, functions_scopes, functions_scopes]

private theorem stmts_scopes (k : Nat) (marks : List Bool) (ss : List Stmt) :
    Stmt.scopesAll (r.stmts k marks ss) = r.scopesFrom k (Stmt.scopesAll ss) := by
  cases ss with
  | nil => rfl
  | cons s ss =>
    rw [stmts, Stmt.scopesAll, Stmt.scopesAll, scopesFrom_append, stmt_scopes, stmts_scopes]

theorem function_scopes (k : Nat) (marks : List Bool) (d : FunDecl) :
    (r.function k marks d).scopes = r.scopesFrom k d.scopes := by
  cases d with
  | mk s n ps body =>
    rw [function, FunDecl.scopes, FunDecl.scopes, scopesFrom_cons, scope_of, stmts_scopes]

theorem functions_scopes (k : Nat) (marks : List Bool) (ds : List FunDecl) :
    FunDecl.scopesAll (r.functions k marks ds) = r.scopesFrom k (FunDecl.scopesAll ds) := by
  cases ds with
  | nil => rfl
  | cons d ds =>
    rw [functions, FunDecl.scopesAll, FunDecl.scopesAll, scopesFrom_append, function_scopes,
      functions_scopes]

end

theorem program_scopes (p : Program) :
    Stmt.scopesAll (r.program p).body = (Stmt.scopesAll p.body).modify r.scope (·.renamed r true) :=
  (r.stmts_scopes 0 [] p.body).trans (r.scopesFrom_zero _)

end Renaming
end Lox
