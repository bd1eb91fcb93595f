import Lox.Proofs.Core.Basic
import Lox.Proofs.Expansion.Resolution

set_option autoImplicit false
set_option relaxedAutoImplicit false

namespace Lox

def Diagnostic.bare (d : Diagnostic) : Diagnostic := { d with span := d.span.map fun _ => .blank }

namespace Checked

variable {α β γ : Type}

def bare (f : α → β) (x : Checked α) : Checked β :=
  { value := f x.value, found := x.found.map Diagnostic.bare }

private theorem bare_bind {δ : Type} {x : Checked α} {p : α → β} {f : β → Checked δ} {q : γ → δ}
    {g : α → Checked γ} (h : f (p x.value) = (g x.value).bare q) :
    (x.bare p >>= f) = (x >>= g).bare q := by
  have hvalue := congrArg Checked.value h
  have hfound := congrArg Checked.found h
  refine ext hvalue ?_
  calc (x.bare p >>= f).found = x.found.map Diagnostic.bare ++ (f (p x.value)).found := rfl
    _ = x.found.map Diagnostic.bare ++ (g x.value).found.map Diagnostic.bare := by rw [hfound]; rfl
    _ = ((x >>= g).bare q).found := List.map_append.symm

private theorem bare_reportIf (bad : Bool) (v : Violation) (s : Span) :
    reportIf bad v .blank = (reportIf bad v s).bare id := by
  cases bad <;> rfl

end Checked

namespace Resolve

open Checked

section

variable (at_ : Surroundings) (env : Scopes)

private theorem occurrence_bare (name : Text) (s : Span) (isRead : Bool) :
    occurrence at_ env name .blank isRead = (occurrence at_ env name s isRead).bare id := by
  unfold occurrence
  split
  · rw [bare_reportIf _ _ s]
    exact bare_bind rfl
  · rw [bare_reportIf _ _ s]
    exact bare_bind rfl

private theorem nameUse_bare (use : NameUse) :
    nameUse at_ env use.bare = (nameUse at_ env use).bare NameUse.bare := by
  unfold nameUse
  rw [show use.bare.name = use.name from rfl, show use.bare.span = .blank from rfl,
    occurrence_bare at_ env use.name use.span]
  exact bare_bind rfl

private theorem parameters_bare (seen : List Text) (ps : List Param) :
    parameters seen (ps.map Param.bare) = (parameters seen ps).bare id := by
  induction ps generalizing seen with
  | nil => rfl
  | cons p ps ih =>
    rw [List.map_cons, parameters, parameters, show p.bare.span = .blank from rfl,
      bare_reportIf _ _ p.span]
    exact bare_bind (ih _)

private theorem inside_bare (funs : Nat) (ps : List Param) :
    inside env funs (ps.map Param.bare) = inside env funs ps := by
  unfold inside
  rw [List.foldl_map]
  rfl

private theorem expr_join (op : LogicalOp) (a b : Expr) :
    expr at_ env (op.join a b) = (do return op.join (← expr at_ env a) (← expr at_ env b)) := by
  induction b using op.join_induction with
  | hchain s x y ih =>
    rw [op.join_same, expr, expr, ih]
    refine ext ?_ ?_
    · simp [op.join_same]
    · simp
  | hother b hb =>
    rw [op.join_other _ hb, expr]
    refine ext ?_ ?_
    · simp [op.join_other _ (expr_ne_logical at_ env hb)]
    · simp

end

def coreFirst (r : Stmt × Scopes) : Stmt × Scopes := (r.1.core, r.2)

def coreAll (r : List Stmt × Scopes) : List Stmt × Scopes := (Stmt.coreAll r.1, r.2)

private theorem loop_core (s : Span) {c i : Option Expr} {b : Stmt} (at_ : Surroundings)
    (env : Scopes)
    (hc : ∀ at_ env, clause at_ env (Expr.regroupedOption (Expr.bareOption c)) =
      (clause at_ env c).bare fun e => Expr.regroupedOption (Expr.bareOption e))
    (hi : ∀ at_ env, clause at_ env (Expr.regroupedOption (Expr.bareOption i)) =
      (clause at_ env i).bare fun e => Expr.regroupedOption (Expr.bareOption e))
    (hb : ∀ at_ env, stmt at_ env b.core = (stmt at_ env b).bare coreFirst) :
    stmt at_ env (Stmt.forStmt s none c i b).core =
      (stmt at_ env (.forStmt s none c i b)).bare coreFirst := by
  show stmt at_ env (.forStmt .blank none (Expr.regroupedOption (Expr.bareOption c))
    (Expr.regroupedOption (Expr.bareOption i)) b.core) = _
  rw [stmt, stmt, hc at_ env]
  refine bare_bind ?_
  dsimp only
  rw [hb]
  refine bare_bind ?_
  dsimp only [coreFirst]
  rw [hi]
  exact bare_bind rfl

private theorem loopFrom_core (s : Span) {init b : Stmt} {c i : Option Expr} (at_ : Surroundings)
    (env : Scopes)
    (hinit : ∀ at_ env, stmt at_ env init.core = (stmt at_ env init).bare coreFirst)
    (hc : ∀ at_ env, clause at_ env (Expr.regroupedOption (Expr.bareOption c)) =
      (clause at_ env c).bare fun e => Expr.regroupedOption (Expr.bareOption e))
    (hi : ∀ at_ env, clause at_ env (Expr.regroupedOption (Expr.bareOption i)) =
      (clause at_ env i).bare fun e => Expr.regroupedOption (Expr.bareOption e))
    (hb : ∀ at_ env, stmt at_ env b.core = (stmt at_ env b).bare coreFirst) :
    stmt at_ env (Stmt.forStmt s (some init) c i b).core =
      (stmt at_ env (.forStmt s (some init) c i b)).bare coreFirst := by
  show stmt at_ env (.forStmt .blank (some init.core) (Expr.regroupedOption (Expr.bareOption c))
    (Expr.regroupedOption (Expr.bareOption i)) b.core) = _
  rw [stmt, stmt, hinit]
  refine bare_bind ?_
  dsimp only [coreFirst]
  rw [hc]
  refine bare_bind ?_
  rw [hb]
  refine bare_bind ?_
  dsimp only [coreFirst]
  rw [hi]
  exact bare_bind rfl

private theorem class_core (s : Span) (n : Text) (sup : Option NameUse) {ms ss : List FunDecl}
    (at_ : Surroundings) (env : Scopes)
    (hms : ∀ at_ env ofInstances,
      methods at_ env ofInstances (FunDecl.regroupedAll (FunDecl.bareAll ms)) =
        (methods at_ env ofInstances ms).bare fun ds =>
          FunDecl.regroupedAll (FunDecl.bareAll ds))
    (hss : ∀ at_ env ofInstances,
      methods at_ env ofInstances (FunDecl.regroupedAll (FunDecl.bareAll ss)) =
        (methods at_ env ofInstances ss).bare fun ds =>
          FunDecl.regroupedAll (FunDecl.bareAll ds)) :
    stmt at_ env (Stmt.classDecl s n sup ms ss).core =
      (stmt at_ env (.classDecl s n sup ms ss)).bare coreFirst := by
  cases sup with
  | none =>
    show stmt at_ env (.classDecl .blank n none (FunDecl.regroupedAll (FunDecl.bareAll ms))
      (FunDecl.regroupedAll (FunDecl.bareAll ss))) = _
    rw [stmt, stmt, hms, hss]
    exact bare_bind (bare_bind rfl)
  | some sup =>
    show stmt at_ env
      (.classDecl .blank n (some sup.bare) (FunDecl.regroupedAll (FunDecl.bareAll ms))
      (FunDecl.regroupedAll (FunDecl.bareAll ss))) = _
    rw [stmt, stmt, show sup.bare.name = sup.name from rfl, show sup.bare.span = .blank from rfl,
      bare_reportIf _ _ sup.span]
    refine bare_bind ?_
    dsimp only
    rw [nameUse_bare, hms, hss]
    exact bare_bind (bare_bind (bare_bind rfl))

mutual

theorem expr_core (at_ : Surroundings) (env : Scopes) (e : Expr) :
    expr at_ env e.core = (expr at_ env e).bare Expr.core := by
  cases e with
  | literal s v => rfl
  | grouping s e =>
    show expr at_ env e.core = _
    rw [expr_core _ _ e]
    exact ext rfl (by simp [bare, expr])
  | unary s op e =>
    show expr at_ env (.unary .blank op e.core) = _
    rw [expr, expr, expr_core _ _ e]
    exact bare_bind rfl
  | binary s op a b =>
    show expr at_ env (.binary .blank op a.core b.core) = _
    rw [expr, expr, expr_core _ _ a, expr_core _ _ b]
    exact bare_bind (bare_bind rfl)
  | logical s op a b =>
    show expr at_ env (op.join a.core b.core) = _
    rw [expr_join, expr, expr_core _ _ a, expr_core _ _ b]
    exact bare_bind (bare_bind rfl)
  | conditional s c a b =>
    show expr at_ env (.conditional .blank c.core a.core b.core) = _
    rw [expr, expr, expr_core _ _ c, expr_core _ _ a, expr_core _ _ b]
    exact bare_bind (bare_bind (bare_bind rfl))
  | name use =>
    show expr at_ env (.name use.bare) = _
    rw [expr, expr, nameUse_bare]
    exact bare_bind rfl
  | assign target e =>
    show expr at_ env (.assign target.bare e.core) = _
    rw [expr, expr, expr_core _ _ e, show target.bare.span = .blank from rfl,
      show target.bare.name = target.name from rfl, occurrence_bare at_ env target.name target.span]
    exact bare_bind (bare_bind rfl)
  | call s f args =>
    show expr at_ env (.call .blank f.core (Expr.regroupedAll (Expr.bareAll args))) = _
    rw [expr, expr, expr_core _ _ f, exprs_core _ _ args]
    exact bare_bind (bare_bind rfl)
  | get s o n =>
    show expr at_ env (.get .blank o.core n) = _
    rw [expr, expr, expr_core _ _ o]
    exact bare_bind rfl
  | set s o n e =>
    show expr at_ env (.set .blank o.core n e.core) = _
    rw [expr, expr, expr_core _ _ o, expr_core _ _ e]
    exact bare_bind (bare_bind rfl)
  | this s hops =>
    show expr at_ env (.this .blank hops) = _
    rw [expr, expr]
    split
    · rw [bare_reportIf _ _ s]
      exact bare_bind rfl
    · rw [occurrence_bare at_ env _ s]
      exact bare_bind rfl
  | super s m hops =>
    show expr at_ env (.super .blank m hops) = _
    rw [expr, expr]
    split
    · rw [bare_reportIf _ _ s]
      exact bare_bind rfl
    · rw [bare_reportIf _ _ s]
      exact bare_bind rfl
    · rw [occurrence_bare at_ env _ s]
      exact bare_bind rfl
  | lambda s ps body =>
    show expr at_ env (.lambda .blank (ps.map Param.bare) (Stmt.coreAll body)) = _
    rw [expr, expr, parameters_bare, inside_bare, stmts_core]
    exact bare_bind (bare_bind rfl)

theorem exprs_core (at_ : Surroundings) (env : Scopes) (es : List Expr) :
    exprs at_ env (Expr.regroupedAll (Expr.bareAll es)) =
      (exprs at_ env es).bare fun es => Expr.regroupedAll (Expr.bareAll es) := by
  cases es with
  | nil => rfl
  | cons e es =>
    show exprs at_ env (e.core :: Expr.regroupedAll (Expr.bareAll es)) = _
    rw [exprs, exprs, expr_core _ _ e, exprs_core _ _ es]
    exact bare_bind (bare_bind rfl)

theorem clause_core (at_ : Surroundings) (env : Scopes) (e : Option Expr) :
    clause at_ env (Expr.regroupedOption (Expr.bareOption e)) =
      (clause at_ env e).bare fun e => Expr.regroupedOption (Expr.bareOption e) := by
  cases e with
  | none => rfl
  | some e =>
    show clause at_ env (some e.core) = _
    rw [clause, clause, expr_core _ _ e]
    exact bare_bind rfl

theorem stmt_core (at_ : Surroundings) (env : Scopes) (s : Stmt) :
    stmt at_ env s.core = (stmt at_ env s).bare coreFirst := by
  cases s with
  | exprStmt s e =>
    show stmt at_ env (.exprStmt .blank e.core) = _
    rw [stmt, stmt, expr_core _ _ e]
    exact bare_bind rfl
  | printStmt s e =>
    show stmt at_ env (.printStmt .blank e.core) = _
    rw [stmt, stmt, expr_core _ _ e]
    exact bare_bind rfl
  | varDecl s n e =>
    show stmt at_ env (.varDecl .blank n (Expr.regroupedOption (Expr.bareOption e))) = _
    rw [stmt, stmt, clause_core]
    exact bare_bind rfl
  | block s body =>
    show stmt at_ env (.block .blank (Stmt.coreAll body)) = _
    rw [stmt, stmt, stmts_core]
    exact bare_bind rfl
  | ifStmt s c a b =>
    cases b with
    | none =>
      show stmt at_ env (.ifStmt .blank c.core a.core none) = _
      rw [stmt, stmt, expr_core _ _ c, stmt_core]
      exact bare_bind (bare_bind rfl)
    | some b =>
      show stmt at_ env (.ifStmt .blank c.core a.core (some b.core)) = _
      rw [stmt, stmt, expr_core _ _ c, stmt_core at_ env a]
      refine bare_bind (bare_bind ?_)
      dsimp only [coreFirst]
      rw [stmt_core at_ _ b]
      exact bare_bind rfl
  | whileStmt s c b =>
    show stmt at_ env (.whileStmt .blank c.core b.core) = _
    rw [stmt, stmt, expr_core _ _ c, stmt_core _ _ b]
    exact bare_bind (bare_bind rfl)
  | forStmt s init c i b =>
    cases init with
    | none =>
      exact loop_core s at_ env (fun at_ env => clause_core at_ env c)
        (fun at_ env => clause_core at_ env i) fun at_ env => stmt_core at_ env b
    | some init =>
      exact loopFrom_core s at_ env (fun at_ env => stmt_core at_ env init)
        (fun at_ env => clause_core at_ env c) (fun at_ env => clause_core at_ env i)
        fun at_ env => stmt_core at_ env b
  | breakStmt s =>
    show stmt at_ env (.breakStmt .blank) = _
    rw [stmt, stmt, bare_reportIf _ _ s]
    exact bare_bind rfl
  | returnStmt s e =>
    cases e with
    | none =>
      show stmt at_ env (.returnStmt .blank none) = _
      rw [stmt, stmt, bare_reportIf _ _ s]
      exact bare_bind rfl
    | some e =>
      show stmt at_ env (.returnStmt .blank (some e.core)) = _
      rw [stmt, stmt, bare_reportIf _ _ s, bare_reportIf _ _ s, expr_core _ _ e]
      exact bare_bind (bare_bind (bare_bind rfl))
  | funDecl d =>
    have hname : d.bare.regrouped.name = d.name := by cases d; rfl
    show stmt at_ env (.funDecl d.bare.regrouped) = _
    rw [stmt, stmt, hname, funDecl_core _ _ _ d]
    exact bare_bind rfl
  | classDecl s n sup ms ss =>
    exact class_core s n sup at_ env (fun at_ env kind => methods_core at_ env kind ms)
      fun at_ env kind => methods_core at_ env kind ss

private theorem stmts_core (at_ : Surroundings) (env : Scopes) (ss : List Stmt) :
    stmts at_ env (Stmt.coreAll ss) = (stmts at_ env ss).bare coreAll := by
  cases ss with
  | nil => rfl
  | cons s ss =>
    show stmts at_ env (s.core :: Stmt.coreAll ss) = _
    rw [stmts, stmts, stmt_core at_ env s]
    refine bare_bind ?_
    dsimp only [coreFirst]
    rw [stmts_core _ _ ss]
    exact bare_bind rfl

theorem funDecl_core (at_ : Surroundings) (env : Scopes) (kind : Body) (d : FunDecl) :
    funDecl at_ env kind d.bare.regrouped = (funDecl at_ env kind d).bare fun d =>
      d.bare.regrouped := by
  obtain ⟨s, n, ps, body⟩ := d
  show funDecl at_ env kind (.mk .blank n (ps.map Param.bare) (Stmt.coreAll body)) = _
  rw [funDecl, funDecl, parameters_bare, inside_bare, stmts_core]
  exact bare_bind (bare_bind rfl)

theorem methods_core (at_ : Surroundings) (env : Scopes) (ofInstances : Bool) (ds : List FunDecl) :
    methods at_ env ofInstances (FunDecl.regroupedAll (FunDecl.bareAll ds)) =
      (methods at_ env ofInstances ds).bare fun ds =>
        FunDecl.regroupedAll (FunDecl.bareAll ds) := by
  cases ds with
  | nil => rfl
  | cons d ds =>
    have hname : d.bare.regrouped.name = d.name := by cases d; rfl
    show methods at_ env ofInstances
      (d.bare.regrouped :: FunDecl.regroupedAll (FunDecl.bareAll ds)) = _
    rw [methods, methods, hname, funDecl_core _ _ _ d, methods_core _ _ _ ds]
    exact bare_bind (bare_bind rfl)

end

end Resolve

/-- The core of a program is accepted if the program is, with the same hops everywhere, and has the
same violations in the same order if it is not. -/
theorem Program.resolve_core (p : Program) (bound : List Text) :
    p.core.resolve bound = ((p.resolve bound).map Program.core).mapError
      (List.map Diagnostic.bare) := by
  have hbody := Resolve.stmts_core {} (.top bound) p.body
  unfold resolve
  rw [show p.core.body = Stmt.coreAll p.body from rfl, hbody]
  dsimp only [Checked.bare, Resolve.coreAll]
  rw [List.isEmpty_map]
  split <;> rfl

end Lox
