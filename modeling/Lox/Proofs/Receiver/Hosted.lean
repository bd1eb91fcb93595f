import Lox.Proofs.Run.Session
import Lox.Proofs.Scope.Agreement

set_option autoImplicit false
set_option relaxedAutoImplicit false

namespace Lox

open Text (lit)

/-- The nearest class around a place: how many frames stand between the place and its receiver, and
whether the class has a superclass. -/
structure Reach where
  hops : Nat
  derived : Bool

namespace Reach

def deeper (r : Reach) : Reach := { r with hops := r.hops + 1 }

def members (derived : Bool) : Reach := { hops := 0, derived }

end Reach

def Ordinary (name : Text) : Prop := name ≠ lit "this" ∧ name ≠ lit "super"

theorem not_ordinary_this : ¬ Ordinary (lit "this") := fun h => h.1 rfl

theorem not_ordinary_super : ¬ Ordinary (lit "super") := fun h => h.2 rfl

mutual

/-- An expression whose hops lead to the receiver and the superclass of the nearest class around. -/
def Expr.Hosted (r : Option Reach) : Expr → Prop
  | .literal _ _ | .name _ => True
  | .grouping _ e | .unary _ _ e | .get _ e _ => e.Hosted r
  | .binary _ _ a b | .logical _ _ a b | .set _ a _ b => a.Hosted r ∧ b.Hosted r
  | .conditional _ c a b => c.Hosted r ∧ a.Hosted r ∧ b.Hosted r
  | .assign target e => Ordinary target.name ∧ e.Hosted r
  | .call _ f args => f.Hosted r ∧ Expr.HostedAll r args
  | .this _ hops => ∃ x, r = some x ∧ hops = some (x.hops : Int)
  | .super _ _ hops => ∃ x, r = some x ∧ x.derived = true ∧ hops = some ((x.hops : Int) + 1)
  | .lambda _ _ body => Stmt.HostedAll (r.map .deeper) body

def Expr.HostedAll (r : Option Reach) : List Expr → Prop
  | [] => True
  | e :: es => e.Hosted r ∧ Expr.HostedAll r es

def Expr.HostedOption (r : Option Reach) : Option Expr → Prop
  | none => True
  | some e => e.Hosted r

/-- A statement whose hops lead to the receiver and the superclass of the nearest class around. -/
def Stmt.Hosted (r : Option Reach) : Stmt → Prop
  | .exprStmt _ e | .printStmt _ e => e.Hosted r
  | .varDecl _ n init => Ordinary n ∧ Expr.HostedOption r init
  | .block _ body => Stmt.HostedAll (r.map .deeper) body
  | .ifStmt _ c a b => c.Hosted r ∧ a.Hosted r ∧ Stmt.HostedOption r b
  | .whileStmt _ c b => c.Hosted r ∧ b.Hosted r
  | .forStmt _ none c i b =>
    Expr.HostedOption r c ∧ b.Hosted (r.map .deeper) ∧ Expr.HostedOption (r.map .deeper) i
  | .forStmt _ (some init) c i b =>
    init.Hosted (r.map .deeper) ∧ Expr.HostedOption (r.map .deeper) c ∧
      b.Hosted ((r.map .deeper).map .deeper) ∧ Expr.HostedOption ((r.map .deeper).map .deeper) i
  | .breakStmt _ => True
  | .returnStmt _ e => Expr.HostedOption r e
  | .funDecl d => Ordinary d.name ∧ d.Hosted r
  | .classDecl _ n sup ms ss =>
    Ordinary n ∧ FunDecl.HostedAll (some (.members sup.isSome)) ms ∧
      FunDecl.HostedAll (some (.members sup.isSome)) ss

def Stmt.HostedOption (r : Option Reach) : Option Stmt → Prop
  | none => True
  | some s => s.Hosted r

def Stmt.HostedAll (r : Option Reach) : List Stmt → Prop
  | [] => True
  | s :: ss => s.Hosted r ∧ Stmt.HostedAll r ss

def FunDecl.Hosted (r : Option Reach) : FunDecl → Prop
  | .mk _ _ _ body => Stmt.HostedAll (r.map .deeper) body

def FunDecl.HostedAll (r : Option Reach) : List FunDecl → Prop
  | [] => True
  | d :: ds => d.Hosted r ∧ FunDecl.HostedAll r ds

end

/-! ### Scopes -/

namespace Scopes

def hops? (env : Scopes) (name : Text) : Option Nat := (locate name env.locals).map Prod.fst

variable {env : Scopes} {name : Text}

private theorem hops?_push {s : Scope} (hs : s.ready? name = none) :
    (env.push s).hops? name = (env.hops? name).map (· + 1) := by
  simp only [hops?, push, locate, hs, Option.map_map]
  rfl

private theorem hops?_push_self {s : Scope} {ready : Bool} (hs : s.ready? name = some ready) :
    (env.push s).hops? name = some 0 := by
  simp only [hops?, push, locate, hs, Option.map_some]

private theorem hops?_update {f : Scope → Scope} (hf : ∀ s, (f s).ready? name = s.ready? name)
    (hfuns : ∀ s, (f s).funs = s.funs) : (env.update f).hops? name = env.hops? name := by
  unfold hops? update
  split
  · rename_i hlocals
    rw [hlocals]
  · rename_i s r hlocals
    rw [hlocals]
    simp only [locate, hf, hfuns]

private theorem hops?_declare {n : Text} (h : name ≠ n) :
    (env.declare n).hops? name = env.hops? name :=
  hops?_update (fun s => by rw [s.ready?_declare, if_neg fun heq => h heq.1]) fun s =>
    s.funs_declare n

private theorem hops?_define {n : Text} (h : name ≠ n) :
    (env.define n).hops? name = env.hops? name :=
  hops?_update (fun s => by rw [s.ready?_define, if_neg h]) fun _ => rfl

end Scopes

structure Seated (at_ : Surroundings) (env : Scopes) (r : Option Reach) : Prop where
  inside : at_.inClass ≠ .none → ∃ x, r = some x ∧ env.hops? (lit "this") = some x.hops
  derived : at_.inClass = .derived → ∃ x, r = some x ∧ x.derived = true ∧
    env.hops? (lit "super") = some (x.hops + 1)

namespace Seated

variable {at_ : Surroundings} {env env' : Scopes} {r : Option Reach}

private theorem congr {at' : Surroundings} (h : Seated at_ env r)
    (hclass : at'.inClass = at_.inClass) (hthis : env'.hops? (lit "this") = env.hops? (lit "this"))
    (hsuper : env'.hops? (lit "super") = env.hops? (lit "super")) : Seated at' env' r where
  inside := by
    rw [hclass, hthis]
    exact h.inside
  derived := by
    rw [hclass, hsuper]
    exact h.derived

private theorem declare (h : Seated at_ env r) {n : Text} (hn : Ordinary n) :
    Seated at_ (env.declare n) r :=
  h.congr rfl (Scopes.hops?_declare hn.1.symm) (Scopes.hops?_declare hn.2.symm)

private theorem define (h : Seated at_ env r) {n : Text} (hn : Ordinary n) :
    Seated at_ (env.define n) r :=
  h.congr rfl (Scopes.hops?_define hn.1.symm) (Scopes.hops?_define hn.2.symm)

private theorem push (h : Seated at_ env r) {s : Scope} (hthis : s.ready? (lit "this") = none)
    (hsuper : s.ready? (lit "super") = none) : Seated at_ (env.push s) (r.map .deeper) where
  inside hclass := by
    obtain ⟨x, rfl, hx⟩ := h.inside hclass
    exact ⟨x.deeper, rfl, by rw [Scopes.hops?_push hthis, hx]; rfl⟩
  derived hclass := by
    obtain ⟨x, rfl, hderived, hx⟩ := h.derived hclass
    exact ⟨x.deeper, rfl, hderived, by rw [Scopes.hops?_push hsuper, hx]; rfl⟩

private theorem push_empty (h : Seated at_ env r) (funs : Nat) :
    Seated at_ (env.push (.empty funs)) (r.map .deeper) := h.push rfl rfl

private theorem inside_body (h : Seated at_ env r) (kind : Body) (funs : Nat) {ps : List Param}
    (hps : ∀ p ∈ ps, Ordinary p.name) :
    Seated (at_.enter kind) (Resolve.inside env funs ps) (r.map .deeper) := by
  have hpushed : Seated at_ (Resolve.inside env funs ps) (r.map .deeper) := by
    have hnone : ∀ n, ¬ Ordinary n → n ∉ ps.map Param.name := by
      intro n hn hmem
      obtain ⟨p, hp, rfl⟩ := List.mem_map.1 hmem
      exact hn (hps p hp)
    refine h.push ?_ ?_
    · rw [Scope.ready?_params, if_neg (hnone _ not_ordinary_this)]
      rfl
    · rw [Scope.ready?_params, if_neg (hnone _ not_ordinary_super)]
      rfl
  exact hpushed.congr rfl rfl rfl

private theorem plain (at_ : Surroundings) (env : Scopes) (funs : Nat) :
    Seated { at_ with inClass := .plain } (Resolve.aroundMethods env funs false)
      (some (.members false)) where
  inside _ := ⟨_, rfl, Scopes.hops?_push_self rfl⟩
  derived h := nomatch h

private theorem subclass (at_ : Surroundings) (env : Scopes) (funs : Nat) :
    Seated { at_ with inClass := .derived } (Resolve.aroundMethods env funs true)
      (some (.members true)) where
  inside _ := ⟨_, rfl, Scopes.hops?_push_self rfl⟩
  derived _ := by
    refine ⟨_, rfl, rfl, ?_⟩
    show ((env.push (Resolve.single funs (lit "super"))).push
      (Resolve.single funs (lit "this"))).hops? (lit "super") = _
    rw [Scopes.hops?_push rfl, Scopes.hops?_push_self rfl]
    rfl

end Seated

namespace Resolve

private theorem occurrence_hops (at_ : Surroundings) (env : Scopes) (name : Text) (span : Span)
    (isRead : Bool) :
    (occurrence at_ env name span isRead).value = (env.hops? name).map Nat.cast := by
  rw [occurrence_eq]
  rfl

/-- A statement that is accepted is hosted, and the place after it is as the place before it. -/
def StmtHosts (s : Stmt) : Prop :=
  ∀ at_ env r, Seated at_ env r → (stmt at_ env s).found = [] →
    (stmt at_ env s).value.1.Hosted r ∧ Seated at_ (stmt at_ env s).value.2 r

def MethodsHost (ds : List FunDecl) : Prop :=
  ∀ at_ env ofInstances r, Seated at_ env r → (methods at_ env ofInstances ds).found = [] →
    FunDecl.HostedAll r (methods at_ env ofInstances ds).value

def Hosts : Grammar.Node → Prop
  | .expr e => ∀ at_ env r, Seated at_ env r → (expr at_ env e).found = [] →
      (expr at_ env e).value.Hosted r
  | .exprs es => ∀ at_ env r, Seated at_ env r → (exprs at_ env es).found = [] →
      Expr.HostedAll r (exprs at_ env es).value
  | .stmt s => StmtHosts s
  | .stmts ss => ∀ at_ env r, Seated at_ env r → (stmts at_ env ss).found = [] →
      Stmt.HostedAll r (stmts at_ env ss).value.1
  | .function d => Ordinary d.name ∧ ∀ at_ env kind r, Seated at_ env r →
      (funDecl at_ env kind d).found = [] → (funDecl at_ env kind d).value.Hosted r
  | .members ms ss => MethodsHost ms ∧ MethodsHost ss
  | .init none => True
  | .init (some s) => StmtHosts s
  | .clause e => ∀ at_ env r, Seated at_ env r → (clause at_ env e).found = [] →
      Expr.HostedOption r (clause at_ env e).value

variable {at_ : Surroundings} {env : Scopes} {r : Option Reach} {s : Span} {n : Text} {e : Expr}
  {b : Stmt}

private theorem hosts_body {ps : List Param} {body : List Stmt} (hps : ∀ p ∈ ps, Ordinary p.name)
    (h : Hosts (.stmts body)) (hseated : Seated at_ env r) {kind : Body}
    (hfound : (parameters [] ps).found ++ ((stmts (at_.enter kind)
      (inside env (at_.funs + 1) ps) body).found ++ []) = []) :
    Stmt.HostedAll (r.map .deeper)
      (stmts (at_.enter kind) (inside env (at_.funs + 1) ps) body).value.1 := by
  simp only [List.append_nil, List.append_eq_nil_iff] at hfound
  exact h _ _ _ (hseated.inside_body kind _ hps) hfound.2

private theorem hosts_this (hseated : Seated at_ env r) (span : Span) (hops : Option Int)
    (hfound : (expr at_ env (.this span hops)).found = []) :
    (expr at_ env (.this span hops)).value.Hosted r := by
  rw [expr] at hfound ⊢
  split at hfound
  · simp at hfound
  · rename_i hclass
    obtain ⟨x, hx, hhops⟩ := hseated.inside hclass
    have hvalue := occurrence_hops at_ env (lit "this") span true
    rw [hhops] at hvalue
    exact ⟨x, hx, hvalue⟩

private theorem hosts_super (hseated : Seated at_ env r) (span : Span)
    (method : Text) (hops : Option Int)
    (hfound : (expr at_ env (.super span method hops)).found = []) :
    (expr at_ env (.super span method hops)).value.Hosted r := by
  rw [expr] at hfound ⊢
  split at hfound
  · simp at hfound
  · simp at hfound
  · rename_i hclass
    obtain ⟨x, hx, hderived, hhops⟩ := hseated.derived hclass
    have hvalue := occurrence_hops at_ env (lit "super") span true
    rw [hhops] at hvalue
    exact ⟨x, hx, hderived, hvalue⟩

private theorem hosts_assign {target : NameUse}
    (hname : Ordinary target.name) (h : Hosts (.expr e)) :
    Hosts (.expr (.assign target e)) := by
  intro at_ env r hseated hfound
  simp only [expr, Checked.found_bind, Checked.found_pure, List.append_nil,
    List.append_eq_nil_iff] at hfound
  exact ⟨hname, h at_ env r hseated hfound.1⟩

private theorem hosts_set {o : Expr} {name : Text} (ho : Hosts (.expr o)) (h : Hosts (.expr e)) :
    Hosts (.expr (.set s o name e)) := by
  intro at_ env r hseated hfound
  simp only [expr, Checked.found_bind, Checked.found_pure, List.append_nil,
    List.append_eq_nil_iff] at hfound
  exact ⟨ho at_ env r hseated hfound.2, h at_ env r hseated hfound.1⟩

private theorem hosts_conditional {a a' : Expr} (h : Hosts (.expr e)) (ha : Hosts (.expr a))
    (ha' : Hosts (.expr a')) : Hosts (.expr (.conditional s e a a')) := by
  intro at_ env r hseated hfound
  simp only [expr, Checked.found_bind, Checked.found_pure, List.append_nil,
    List.append_eq_nil_iff] at hfound
  exact ⟨h at_ env r hseated hfound.1, ha at_ env r hseated hfound.2.1,
    ha' at_ env r hseated hfound.2.2⟩

private theorem hosts_combine {a a' : Expr} (op : Parser.Operator) (ha : Hosts (.expr a))
    (ha' : Hosts (.expr a')) : Hosts (.expr (Grammar.combine s a a' op)) := by
  intro at_ env r hseated hfound
  cases op <;>
    simp only [Grammar.combine, expr, Checked.found_bind, Checked.found_pure, List.append_nil,
      List.append_eq_nil_iff] at hfound <;>
    exact ⟨ha at_ env r hseated hfound.1, ha' at_ env r hseated hfound.2⟩

private theorem hosts_unary {op : UnaryOp} (h : Hosts (.expr e)) :
    Hosts (.expr (.unary s op e)) := by
  intro at_ env r hseated hfound
  simp only [expr, Checked.found_bind, Checked.found_pure, List.append_nil] at hfound
  exact h at_ env r hseated hfound

private theorem hosts_grouping (h : Hosts (.expr e)) : Hosts (.expr (.grouping s e)) := by
  intro at_ env r hseated hfound
  simp only [expr, Checked.found_bind, Checked.found_pure, List.append_nil] at hfound
  exact h at_ env r hseated hfound

private theorem hosts_get {name : Text} (h : Hosts (.expr e)) : Hosts (.expr (.get s e name)) := by
  intro at_ env r hseated hfound
  simp only [expr, Checked.found_bind, Checked.found_pure, List.append_nil] at hfound
  exact h at_ env r hseated hfound

private theorem hosts_call {es : List Expr} (h : Hosts (.expr e)) (hs : Hosts (.exprs es)) :
    Hosts (.expr (.call s e es)) := by
  intro at_ env r hseated hfound
  simp only [expr, Checked.found_bind, Checked.found_pure, List.append_nil,
    List.append_eq_nil_iff] at hfound
  exact ⟨h at_ env r hseated hfound.1, hs at_ env r hseated hfound.2⟩

private theorem hosts_cons {es : List Expr} (h : Hosts (.expr e)) (hs : Hosts (.exprs es)) :
    Hosts (.exprs (e :: es)) := by
  intro at_ env r hseated hfound
  simp only [exprs, Checked.found_bind, Checked.found_pure, List.append_nil,
    List.append_eq_nil_iff] at hfound
  exact ⟨h at_ env r hseated hfound.1, hs at_ env r hseated hfound.2⟩

private theorem hosts_stmts {ss : List Stmt} (h : StmtHosts b) (hs : Hosts (.stmts ss)) :
    Hosts (.stmts (b :: ss)) := by
  intro at_ env r hseated hfound
  have hboth : (stmt at_ env b).found ++
      ((stmts at_ (stmt at_ env b).value.2 ss).found ++ []) = [] :=
    hfound
  simp only [List.append_nil, List.append_eq_nil_iff] at hboth
  obtain ⟨hfirst, hafter⟩ := h at_ env r hseated hboth.1
  exact ⟨hfirst, hs at_ _ r hafter hboth.2⟩

private theorem hosts_exprStmt (h : Hosts (.expr e)) : StmtHosts (.exprStmt s e) := by
  intro at_ env r hseated hfound
  simp only [stmt, Checked.found_bind, Checked.found_pure, List.append_nil] at hfound
  exact ⟨h at_ env r hseated hfound, hseated⟩

private theorem hosts_print (h : Hosts (.expr e)) : StmtHosts (.printStmt s e) := by
  intro at_ env r hseated hfound
  simp only [stmt, Checked.found_bind, Checked.found_pure, List.append_nil] at hfound
  exact ⟨h at_ env r hseated hfound, hseated⟩

private theorem hosts_clause (h : Hosts (.expr e)) : Hosts (.clause (some e)) := by
  intro at_ env r hseated hfound
  simp only [clause, Checked.found_bind, Checked.found_pure, List.append_nil] at hfound
  exact h at_ env r hseated hfound

private theorem hosts_methods {d : FunDecl} {ds : List FunDecl} (hd : Hosts (.function d))
    (hds : MethodsHost ds) : MethodsHost (d :: ds) := by
  intro at_ env ofInstances r hseated hfound
  simp only [methods, Checked.found_bind, Checked.found_pure, List.append_nil,
    List.append_eq_nil_iff] at hfound
  exact ⟨hd.2 at_ env _ r hseated hfound.1, hds at_ env ofInstances r hseated hfound.2⟩

private theorem hosts_var {init : Option Expr} (hn : Ordinary n) (h : Hosts (.clause init)) :
    StmtHosts (.varDecl s n init) := by
  intro at_ env r hseated hfound
  have hinit : (clause at_ (env.declare n) init).found ++ [] = [] := hfound
  rw [List.append_nil] at hinit
  exact ⟨⟨hn, h _ _ r (hseated.declare hn) hinit⟩, (hseated.declare hn).define hn⟩

private theorem hosts_block {body : List Stmt} (h : Hosts (.stmts body)) :
    StmtHosts (.block s body) := by
  intro at_ env r hseated hfound
  have hbody : (stmts at_ (env.push (.empty at_.funs)) body).found ++ [] = [] := hfound
  rw [List.append_nil] at hbody
  exact ⟨h _ _ _ (hseated.push_empty at_.funs) hbody, hseated⟩

private theorem hosts_funDecl {d : FunDecl} (h : Hosts (.function d)) : StmtHosts (.funDecl d) := by
  intro at_ env r hseated hfound
  obtain ⟨hname, hd⟩ := h
  have hdeclared := (hseated.declare hname).define hname
  have hfun :
      (funDecl at_ ((env.declare d.name).define d.name) .function d).found ++ [] = [] := hfound
  rw [List.append_nil] at hfun
  refine ⟨⟨?_, hd _ _ _ r hdeclared hfun⟩, hdeclared⟩
  show Ordinary (funDecl at_ ((env.declare d.name).define d.name) .function d).value.name
  rwa [name_funDecl]

private theorem hosts_class {ms ss : List FunDecl} (hn : Ordinary n) (hms : MethodsHost ms)
    (hss : MethodsHost ss) : StmtHosts (.classDecl s n none ms ss) := by
  intro at_ env r hseated hfound
  let env' := (env.declare n).define n
  let at' : Surroundings := { at_ with inClass := .plain }
  have hboth : (methods at' (aroundMethods env' at_.funs false) true ms).found ++
      ((methods at' (aroundMethods env' at_.funs false) false ss).found ++ []) = [] := hfound
  simp only [List.append_nil, List.append_eq_nil_iff] at hboth
  have hinside := Seated.plain at_ env' at_.funs
  exact ⟨⟨hn, hms _ _ true _ hinside hboth.1, hss _ _ false _ hinside hboth.2⟩,
    (hseated.declare hn).define hn⟩

private theorem hosts_subclass {sup : NameUse} {ms ss : List FunDecl}
    (hn : Ordinary n) (hms : MethodsHost ms)
    (hss : MethodsHost ss) : StmtHosts (.classDecl s n (some sup) ms ss) := by
  intro at_ env r hseated hfound
  let env' := (env.declare n).define n
  let at' : Surroundings := { at_ with inClass := .derived }
  have hall : (Checked.reportIf (sup.name == n) .inheritSelf sup.span).found ++
      ((nameUse at' env' sup).found ++
        ((methods at' (aroundMethods env' at_.funs true) true ms).found ++
          ((methods at' (aroundMethods env' at_.funs true) false ss).found ++ []))) = [] := hfound
  simp only [List.append_nil, List.append_eq_nil_iff] at hall
  have hinside := Seated.subclass at_ env' at_.funs
  exact ⟨⟨hn, hms _ _ true _ hinside hall.2.2.1, hss _ _ false _ hinside hall.2.2.2⟩,
    (hseated.declare hn).define hn⟩

private theorem hosts_return {value : Option Expr} (h : Hosts (.clause value)) :
    StmtHosts (.returnStmt s value) := by
  intro at_ env r hseated hfound
  have hclause := h at_ env r hseated
  cases value with
  | none => exact ⟨trivial, hseated⟩
  | some e =>
    simp only [stmt, Checked.found_bind, Checked.found_pure, List.append_nil,
      List.append_eq_nil_iff] at hfound
    simp only [clause, Checked.found_bind, Checked.found_pure, List.append_nil] at hclause
    exact ⟨hclause hfound.2.2, hseated⟩

private theorem hosts_while (hc : Hosts (.expr e)) (hb : StmtHosts b) :
    StmtHosts (.whileStmt s e b) := by
  intro at_ env r hseated hfound
  have hboth : (expr at_ env e).found ++
      ((stmt { at_ with inLoop := true } env b).found ++ []) = [] :=
    hfound
  simp only [List.append_nil, List.append_eq_nil_iff] at hboth
  have hround : Seated { at_ with inLoop := true } env r := hseated.congr rfl rfl rfl
  obtain ⟨hbody, hafter⟩ := hb _ _ r hround hboth.2
  exact ⟨⟨hc _ _ r hseated hboth.1, hbody⟩, hafter.congr rfl rfl rfl⟩

private theorem hosts_if (hc : Hosts (.expr e)) (hb : StmtHosts b) :
    StmtHosts (.ifStmt s e b none) := by
  intro at_ env r hseated hfound
  have hboth : (expr at_ env e).found ++ ((stmt at_ env b).found ++ []) = [] := hfound
  simp only [List.append_nil, List.append_eq_nil_iff] at hboth
  obtain ⟨hyes, hafter⟩ := hb _ _ r hseated hboth.2
  exact ⟨⟨hc _ _ r hseated hboth.1, hyes, trivial⟩, hafter⟩

private theorem hosts_ifElse {b' : Stmt} (hc : Hosts (.expr e))
    (hb : StmtHosts b) (hb' : StmtHosts b') :
    StmtHosts (.ifStmt s e b (some b')) := by
  intro at_ env r hseated hfound
  have hall : (expr at_ env e).found ++ ((stmt at_ env b).found ++
      ((stmt at_ (stmt at_ env b).value.2 b').found ++ [])) = [] := hfound
  simp only [List.append_nil, List.append_eq_nil_iff] at hall
  obtain ⟨hyes, hafter⟩ := hb _ _ r hseated hall.2.1
  obtain ⟨hno, hafter'⟩ := hb' _ _ r hafter hall.2.2
  exact ⟨⟨hc _ _ r hseated hall.1, hyes, hno⟩, hafter'⟩

private theorem hosts_round {c i : Option Expr} (hc : Hosts (.clause c)) (hi : Hosts (.clause i))
    (hb : StmtHosts b) (hseated : Seated at_ env r) {round : Surroundings}
    (hround : round = { at_ with inLoop := true }) {inner : Scopes}
    (hinner : inner = env.push (.empty at_.funs)) (hcfound : (clause at_ env c).found = [])
    (hbfound : (stmt round inner b).found = [])
    (hifound : (clause round (stmt round inner b).value.2 i).found = []) :
    Expr.HostedOption r (clause at_ env c).value ∧
      (stmt round inner b).value.1.Hosted (r.map .deeper) ∧
      Expr.HostedOption (r.map .deeper) (clause round (stmt round inner b).value.2 i).value := by
  subst hround hinner
  have hinside : Seated { at_ with inLoop := true } (env.push (.empty at_.funs)) (r.map .deeper) :=
    (hseated.push_empty at_.funs).congr rfl rfl rfl
  obtain ⟨hbody, hafter⟩ := hb _ _ _ hinside hbfound
  exact ⟨hc _ _ r hseated hcfound, hbody, hi _ _ _ hafter hifound⟩

private theorem hosts_for {init : Option Stmt} {c i : Option Expr} (hinit : Hosts (.init init))
    (hc : Hosts (.clause c)) (hi : Hosts (.clause i)) (hb : StmtHosts b) :
    StmtHosts (.forStmt s init c i b) := by
  intro at_ env r hseated hfound
  let round : Surroundings := { at_ with inLoop := true }
  cases init with
  | none =>
    let inner := env.push (.empty at_.funs)
    have hall : (clause at_ env c).found ++ ((stmt round inner b).found ++
      ((clause round (stmt round inner b).value.2 i).found ++ [])) = [] := hfound
    simp only [List.append_nil, List.append_eq_nil_iff] at hall
    exact ⟨hosts_round hc hi hb hseated rfl rfl hall.1 hall.2.1 hall.2.2, hseated⟩
  | some init =>
    let start := env.push (.empty at_.funs)
    let outer := (stmt at_ start init).value.2
    let inner := outer.push (.empty at_.funs)
    have hall : (stmt at_ start init).found ++ ((clause at_ outer c).found ++
      ((stmt round inner b).found ++ ((clause round (stmt round inner b).value.2 i).found ++ []))) =
        [] := hfound
    simp only [List.append_nil, List.append_eq_nil_iff] at hall
    obtain ⟨hfirst, hafter⟩ := hinit at_ start _ (hseated.push_empty at_.funs) hall.1
    exact ⟨⟨hfirst, hosts_round hc hi hb hafter rfl rfl hall.2.1 hall.2.2.1 hall.2.2.2⟩, hseated⟩

end Resolve

namespace Grammar

open Resolve

private theorem Derives.hosts {sym : Sym} {ts : List Token} {n : Node} (h : Derives sym ts n)
    (hts : ∀ t ∈ ts, t.kind = .name → Ordinary t.text) : Hosts n := by
  induction h with try simp only [List.forall_mem_append, List.forall_mem_cons] at hts
  | simple _ ih | plain _ ih | operand _ ih | called _ ih | head _ ih | someArguments _ ih
  | varDecl _ ih | statement _ ih | varInit _ ih => exact ih hts
  | assignName hn _ _ ih => exact hosts_assign (hts.1 hn) (ih hts.2.2)
  | assignField _ _ _ _ _ iho ihv => exact hosts_set (iho hts.1) (ihv hts.2.2.2.2)
  | choice _ _ _ _ _ ihc iha ihb =>
    exact hosts_conditional (ihc hts.1) (iha hts.2.2.1) (ihb hts.2.2.2.2)
  | chain _ _ _ iha ihb => exact hosts_combine _ (iha hts.1) (ihb hts.2.2)
  | not _ _ ih | negate _ _ ih => exact hosts_unary (ih hts.2)
  | apply _ _ _ _ ihf ihargs => exact hosts_call (ihf hts.1) (ihargs hts.2.2)
  | get _ _ _ ih => exact hosts_get (ih hts.1)
  | lastArgument _ _ ih => exact hosts_cons (ih hts.1) fun _ _ _ _ _ => trivial
  | moreArguments _ _ _ ih ihs => exact hosts_cons (ih hts.1) (ihs hts.2.2)
  | noArguments _ | false_ _ | true_ _ | nil_ _ | number _ _ | string _ | name _ | noDeclarations
  | noClause => exact fun _ _ _ _ _ => trivial
  | this _ => exact fun _ _ _ hseated hfound => hosts_this hseated _ _ hfound
  | super _ _ _ => exact fun _ _ _ hseated hfound => hosts_super hseated _ _ _ hfound
  | lambda _ hps _ ih =>
    exact fun _ _ _ hseated hfound =>
      hosts_body (hps.forall_name hts.2.1) (ih hts.2.2) hseated hfound
  | group _ _ _ ih => exact hosts_grouping (ih hts.2.1)
  | block _ _ _ ih => exact ih hts.2.1
  | moreDeclarations _ _ ih ihs => exact hosts_stmts (ih hts.1) (ihs hts.2)
  | @classDecl _ _ _ _ _ _ sup _ _ _ _ hn _ _ _ _ ih =>
    obtain ⟨hms, hss⟩ := ih hts.2.2.2.2.1
    cases sup with
    | none => exact hosts_class (hts.2.1 hn) hms hss
    | some sup => exact hosts_subclass (hts.2.1 hn) hms hss
  | funDecl _ _ ih => exact hosts_funDecl (ih hts.2)
  | noValue _ hn _ => exact hosts_var (hts.2.1 hn) fun _ _ _ _ _ => trivial
  | value _ hn _ _ _ ih => exact hosts_var (hts.2.1 hn) (hosts_clause (ih hts.2.2.2.1))
  | function hn hps _ ih =>
    exact ⟨hts.1 hn, fun _ _ _ _ hseated hfound =>
      hosts_body (hps.forall_name hts.2.1) (ih hts.2.2) hseated hfound⟩
  | noMembers => exact ⟨fun _ _ _ _ _ _ => trivial, fun _ _ _ _ _ _ => trivial⟩
  | method _ _ ihd ih => exact ⟨hosts_methods (ihd hts.1) (ih hts.2).1, (ih hts.2).2⟩
  | static _ _ _ ihd ih => exact ⟨(ih hts.2.2).1, hosts_methods (ihd hts.2.1) (ih hts.2.2).2⟩
  | exprStmt _ _ ih | exprInit _ _ ih => exact hosts_exprStmt (ih hts.1)
  | print _ _ _ ih => exact hosts_print (ih hts.2.1)
  | return_ _ _ _ ih => exact hosts_return (ih hts.2.1)
  | break_ _ _ => exact fun _ _ _ hseated _ => ⟨trivial, hseated⟩
  | inBlock _ ih => exact hosts_block (ih hts)
  | while_ _ _ _ _ _ ihc ihb => exact hosts_while (ihc hts.2.2.1) (ihb hts.2.2.2.2)
  | if_ _ _ _ _ _ ihc ihy => exact hosts_if (ihc hts.2.2.1) (ihy hts.2.2.2.2)
  | ifElse _ _ _ _ _ _ _ _ ihc ihy ihn =>
    exact hosts_ifElse (ihc hts.2.2.1) (ihy hts.2.2.2.2.1) (ihn hts.2.2.2.2.2.2)
  | for_ _ _ _ _ _ _ _ _ ihi ihc ihs ihb =>
    exact hosts_for (ihi hts.2.2.1.1) (ihc hts.2.2.1.2) (ihs hts.2.2.2.2.1) (ihb hts.2.2.2.2.2.2)
  | noInit _ => trivial
  | someClause _ ih => exact hosts_clause (ih hts)

end Grammar

theorem Session.hosted_of_prepare {s : Session} {file source : Text} {p : Program}
    (h : s.prepare file source = .ok p) : Stmt.HostedAll none p.body := by
  obtain ⟨q, hparse, hresolve⟩ := parse_of_prepare h
  obtain ⟨hfound, rfl⟩ := Program.resolve_eq_ok.1 hresolve
  obtain ⟨ts, -, hlexemes, hderives⟩ := Program.parse_derives hparse
  have hnames : ∀ t ∈ ts, t.kind = .name → Ordinary t.text := by
    intro t ht hkind
    have hne := Token.text_ne_keyword (hlexemes t ht) hkind
    exact ⟨hne .this_, hne .super_⟩
  exact hderives.hosts hnames {} (.top s.machine.globalNames) none
    ⟨fun h => absurd rfl h, nofun⟩ hfound

end Lox
