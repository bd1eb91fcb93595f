import Lox.Scope.Basic

/-!
Finding the declaration of every name. The scopes follow the frames of the running program: a block,
the parameters and body of a function, the first clause of a loop, each round of a loop, and the
frames of `super` and `this` around the methods of a class. All violations are found in one pass.
-/

set_option autoImplicit false
set_option relaxedAutoImplicit false

namespace Lox

open Text (lit)

/-- A result with the violations found on the way to it. -/
structure Checked (α : Type) where
  value : α
  found : List Diagnostic

namespace Checked

def clean {α : Type} (a : α) : Checked α := { value := a, found := [] }

def andThen {α β : Type} (x : Checked α) (f : α → Checked β) : Checked β :=
  let y := f x.value
  { value := y.value, found := x.found ++ y.found }

instance : Monad Checked where
  pure := clean
  bind := andThen

def reportIf (bad : Bool) (v : Violation) (span : Span) : Checked Unit :=
  { value := (), found := if bad then [v.diagnostic span] else [] }

end Checked

inductive Body
  | script
  | function
  | initializer
  deriving DecidableEq

inductive ClassBody
  | none
  | plain
  | derived
  deriving DecidableEq

structure Surroundings where
  body : Body := .script
  inClass : ClassBody := .none
  inLoop : Bool := false
  funs : Nat := 0
  deriving DecidableEq

def Surroundings.enter (at_ : Surroundings) (body : Body) : Surroundings :=
  { at_ with body, inLoop := false, funs := at_.funs + 1 }

namespace Resolve

open Checked

/-- The hops of an occurrence. A name may not be read while its initial value is being computed,
except in a function, which will run later. -/
def occurrence (at_ : Surroundings) (env : Scopes) (name : Text) (span : Span) (isRead : Bool) :
    Checked (Option Int) := do
  match Scopes.locate name env.locals with
  | some (hops, ready, funs) =>
    reportIf (isRead && !ready && funs == at_.funs) (.selfInit name) span
    return some (hops : Int)
  | none =>
    reportIf (isRead && env.globals.ready? name == some false && at_.funs == 0)
      (.selfInit name) span
    return none

def nameUse (at_ : Surroundings) (env : Scopes) (use : NameUse) : Checked NameUse := do
  return { use with hops := ← occurrence at_ env use.name use.span true }

def parameters (seen : List Text) : List Param → Checked Unit
  | [] => clean ()
  | p :: r => do
    reportIf (seen.contains p.name) (.dupParam p.name) p.span
    parameters (p.name :: seen) r

def inside (env : Scopes) (funs : Nat) (params : List Param) : Scopes :=
  env.push (params.foldl (fun s p => (s.declare p.name).define p.name) (.empty funs))

def single (funs : Nat) (name : Text) : Scope := (Scope.empty funs).define name

def aroundMethods (env : Scopes) (funs : Nat) (derived : Bool) : Scopes :=
  let env := if derived then env.push (single funs (lit "super")) else env
  env.push (single funs (lit "this"))

mutual

def expr (at_ : Surroundings) (env : Scopes) : Expr → Checked Expr
  | .literal s v => clean (.literal s v)
  | .grouping s e => do return .grouping s (← expr at_ env e)
  | .unary s op e => do return .unary s op (← expr at_ env e)
  | .binary s op a b => do return .binary s op (← expr at_ env a) (← expr at_ env b)
  | .logical s op a b => do return .logical s op (← expr at_ env a) (← expr at_ env b)
  | .conditional s c a b => do
    return .conditional s (← expr at_ env c) (← expr at_ env a) (← expr at_ env b)
  | .name use => do return .name (← nameUse at_ env use)
  | .assign target e => do
    let value ← expr at_ env e
    let hops ← occurrence at_ env target.name target.span false
    return .assign { target with hops } value
  | .call s f args => do return .call s (← expr at_ env f) (← exprs at_ env args)
  | .get s o n => do return .get s (← expr at_ env o) n
  | .set s o n e => do
    let value ← expr at_ env e
    let object ← expr at_ env o
    return .set s object n value
  | .this s hops => do
    match at_.inClass with
    | .none =>
      reportIf true .thisOutsideClass s
      return .this s hops
    | _ => return .this s (← occurrence at_ env (lit "this") s true)
  | .super s m hops => do
    match at_.inClass with
    | .none =>
      reportIf true .superOutsideClass s
      return .super s m hops
    | .plain =>
      reportIf true .superNoSuperclass s
      return .super s m hops
    | .derived => return .super s m (← occurrence at_ env (lit "super") s true)
  | .lambda s ps body => do
    parameters [] ps
    let (body, _) ← stmts (at_.enter .function) (inside env (at_.funs + 1) ps) body
    return .lambda s ps body

def exprs (at_ : Surroundings) (env : Scopes) : List Expr → Checked (List Expr)
  | [] => clean []
  | e :: r => do return (← expr at_ env e) :: (← exprs at_ env r)

/-- Finds the declarations of the names in an expression that may be missing. -/
def clause (at_ : Surroundings) (env : Scopes) : Option Expr → Checked (Option Expr)
  | none => clean none
  | some e => do return some (← expr at_ env e)

/-- Finds the declarations of the names in a statement, and the scopes after it. -/
def stmt (at_ : Surroundings) (env : Scopes) : Stmt → Checked (Stmt × Scopes)
  | .exprStmt s e => do return (.exprStmt s (← expr at_ env e), env)
  | .printStmt s e => do return (.printStmt s (← expr at_ env e), env)
  | .varDecl s n init => do
    let env := env.declare n
    let init ← clause at_ env init
    return (.varDecl s n init, env.define n)
  | .block s body => do
    let (body, _) ← stmts at_ (env.push (.empty at_.funs)) body
    return (.block s body, env)
  | .ifStmt s c a none => do
    let c ← expr at_ env c
    let (a, env) ← stmt at_ env a
    return (.ifStmt s c a none, env)
  | .ifStmt s c a (some b) => do
    let c ← expr at_ env c
    let (a, env) ← stmt at_ env a
    let (b, env) ← stmt at_ env b
    return (.ifStmt s c a (some b), env)
  | .whileStmt s c b => do
    let c ← expr at_ env c
    let (b, env) ← stmt { at_ with inLoop := true } env b
    return (.whileStmt s c b, env)
  | .forStmt s none c i b => do
    let c ← clause at_ env c
    let round := { at_ with inLoop := true }
    let (b, inner) ← stmt round (env.push (.empty at_.funs)) b
    let i ← clause round inner i
    return (.forStmt s none c i b, env)
  | .forStmt s (some init) c i b => do
    let (init, outer) ← stmt at_ (env.push (.empty at_.funs)) init
    let c ← clause at_ outer c
    let round := { at_ with inLoop := true }
    let (b, inner) ← stmt round (outer.push (.empty at_.funs)) b
    let i ← clause round inner i
    return (.forStmt s (some init) c i b, env)
  | .breakStmt s => do
    reportIf (!at_.inLoop) .breakOutsideLoop s
    return (.breakStmt s, env)
  | .returnStmt s none => do
    reportIf (at_.body == .script) .returnTopLevel s
    return (.returnStmt s none, env)
  | .returnStmt s (some e) => do
    reportIf (at_.body == .script) .returnTopLevel s
    reportIf (at_.body == .initializer) .returnInit s
    return (.returnStmt s (some (← expr at_ env e)), env)
  | .funDecl d => do
    let env := (env.declare d.name).define d.name
    return (.funDecl (← funDecl at_ env .function d), env)
  | .classDecl s n none ms ss => do
    let env := (env.declare n).define n
    let at_ := { at_ with inClass := .plain }
    let around := aroundMethods env at_.funs false
    let ms ← methods at_ around true ms
    let ss ← methods at_ around false ss
    return (.classDecl s n none ms ss, env)
  | .classDecl s n (some sup) ms ss => do
    let env := (env.declare n).define n
    let at_ := { at_ with inClass := .derived }
    reportIf (sup.name == n) .inheritSelf sup.span
    let sup ← nameUse at_ env sup
    let around := aroundMethods env at_.funs true
    let ms ← methods at_ around true ms
    let ss ← methods at_ around false ss
    return (.classDecl s n (some sup) ms ss, env)

/-- Finds the declarations of the names in statements, in order, and the scopes after them. -/
def stmts (at_ : Surroundings) (env : Scopes) : List Stmt → Checked (List Stmt × Scopes)
  | [] => clean ([], env)
  | s :: r => do
    let (s, env) ← stmt at_ env s
    let (r, env) ← stmts at_ env r
    return (s :: r, env)

def funDecl (at_ : Surroundings) (env : Scopes) (kind : Body) : FunDecl → Checked FunDecl
  | .mk s n ps body => do
    parameters [] ps
    let (body, _) ← stmts (at_.enter kind) (inside env (at_.funs + 1) ps) body
    return .mk s n ps body

/-- Finds the declarations of the names in methods, or in static methods, none of which is an
initializer. -/
def methods (at_ : Surroundings) (env : Scopes) (ofInstances : Bool) :
    List FunDecl → Checked (List FunDecl)
  | [] => clean []
  | d :: r => do
    let kind := if ofInstances && d.name == lit "init" then .initializer else .function
    let d ← funDecl at_ env kind d
    return d :: (← methods at_ env ofInstances r)

end

/-- Finding the declarations makes no `and` or `or` of what was none. -/
theorem expr_ne_logical (at_ : Surroundings) (env : Scopes) {op : LogicalOp} {e : Expr}
    (h : ∀ s a b, e ≠ .logical s op a b) : ∀ s a b, (expr at_ env e).value ≠ .logical s op a b := by
  cases e with
  | logical s op' a b =>
    rintro s' a' b' heq
    cases heq
    exact h _ _ _ rfl
  | this s hops | super s m hops =>
    rw [expr]
    split <;> rintro _ _ _ heq <;> cases heq
  | _ =>
    rintro _ _ _ heq
    cases heq

end Resolve

/-- The program with the hops of every local name, or all its violations. Names in `bound` are
globals that exist before the program runs. -/
def Program.resolve (p : Program) (bound : List Text) : Except (List Diagnostic) Program :=
  let checked := Resolve.stmts {} (.top bound) p.body
  if checked.found.isEmpty then .ok { p with body := checked.value.1 } else .error checked.found

theorem Program.resolve_eq_ok {p p' : Program} {bound : List Text} :
    p.resolve bound = .ok p' ↔ (Resolve.stmts {} (.top bound) p.body).found = [] ∧
      p' = { p with body := (Resolve.stmts {} (.top bound) p.body).value.1 } := by
  unfold resolve
  dsimp only
  constructor
  · intro h
    split at h
    · rename_i hfound
      cases h
      exact ⟨List.isEmpty_iff.1 hfound, rfl⟩
    · cases h
  · rintro ⟨hfound, rfl⟩
    rw [if_pos (List.isEmpty_iff.2 hfound)]

end Lox
