import Lox.Proofs.Rename.Scopes

set_option autoImplicit false
set_option relaxedAutoImplicit false

namespace Lox
namespace Renaming

open Checked

variable {r : Renaming}

private theorem resolve_funDecl_name {at_ : Surroundings} {env : Scopes}
    {kind : Body} {d d₁ : FunDecl}
    (h : Resolve.funDecl at_ env kind d = clean d₁) : d₁.name = d.name := by
  have hname := Resolve.name_funDecl at_ env kind d
  rwa [h] at hname

private theorem use_name_ne {marks : List Bool} {u : NameUse} {n : Text} (hn : r.Allows marks n)
    (h : u.name ≠ n) : (r.use marks u).name ≠ n := by
  intro hname
  unfold use apply at hname
  dsimp only at hname
  split at hname
  · rename_i hreaches
    exact hn (mem_of_reaches hreaches.1) hname.symm
  · exact h hname

/-! ### Pieces of a program -/

variable (r) in
/-- Resolving what an expression becomes once renamed goes as resolving the expression went. -/
def ExprSettles (e : Expr) : Prop :=
  ∀ (at_ : Surroundings) {env : Scopes} {marks : List Bool} {e₁ e' : Expr},
    r.Clear marks env.locals →
    Resolve.expr at_ env e = clean e₁ → Expr.Renamed r marks e₁ e' →
    Resolve.expr at_ (r.scopesOf marks env) e' = clean e'

variable (r) in
def ExprsSettle (es : List Expr) : Prop :=
  ∀ (at_ : Surroundings) {env : Scopes} {marks : List Bool} {es₁ es' : List Expr},
    r.Clear marks env.locals → Resolve.exprs at_ env es = clean es₁ →
      Expr.RenamedAll r marks es₁ es' →
    Resolve.exprs at_ (r.scopesOf marks env) es' = clean es'

variable (r) in
def ClauseSettles (c : Option Expr) : Prop :=
  ∀ (at_ : Surroundings) {env : Scopes} {marks : List Bool} {c₁ c' : Option Expr},
    r.Clear marks env.locals → Resolve.clause at_ env c = clean c₁ →
      Expr.RenamedOption r marks c₁ c' →
    Resolve.clause at_ (r.scopesOf marks env) c' = clean c'

variable (r) in
/-- A statement may change the scopes around it; after it, too, the new name is kept out of them. -/
def StmtSettles (s : Stmt) : Prop :=
  ∀ (at_ : Surroundings) {env env₁ : Scopes} {marks : List Bool} {s₁ s' : Stmt},
    r.Clear marks env.locals → Resolve.stmt at_ env s = clean (s₁, env₁) →
      Stmt.Renamed r marks s₁ s' →
    r.Clear marks env₁.locals ∧
      Resolve.stmt at_ (r.scopesOf marks env) s' = clean (s', r.scopesOf marks env₁)

variable (r) in
def StmtsSettle (ss : List Stmt) : Prop :=
  ∀ (at_ : Surroundings) {env env₁ : Scopes} {marks : List Bool} {ss₁ ss' : List Stmt},
    r.Clear marks env.locals → Resolve.stmts at_ env ss = clean (ss₁, env₁) →
    Stmt.RenamedAll r marks ss₁ ss' → r.Clear marks env₁.locals ∧
      Resolve.stmts at_ (r.scopesOf marks env) ss' = clean (ss', r.scopesOf marks env₁)

variable (r) in
def FunDeclSettles (d : FunDecl) : Prop :=
  ∀ (at_ : Surroundings) {env : Scopes} {marks : List Bool} {kind : Body} {d₁ d' : FunDecl},
    r.Clear marks env.locals → Resolve.funDecl at_ env kind d = clean d₁ →
      FunDecl.Renamed r marks d₁ d' →
    Resolve.funDecl at_ (r.scopesOf marks env) kind d' = clean d'

variable (r) in
def MethodsSettle (ds : List FunDecl) : Prop :=
  ∀ (at_ : Surroundings) {env : Scopes} {marks : List Bool} {ofInstances : Bool}
    {ds₁ ds' : List FunDecl}, r.Clear marks env.locals →
    Resolve.methods at_ env ofInstances ds = clean ds₁ → FunDecl.RenamedAll r marks ds₁ ds' →
    Resolve.methods at_ (r.scopesOf marks env) ofInstances ds' = clean ds'

section Expressions

variable {s : Span} {e a b c f o : Expr}

private theorem settles_binary {op : BinaryOp} (ha : r.ExprSettles a) (hb : r.ExprSettles b) :
    r.ExprSettles (.binary s op a b) := by
  intro at_ env marks e₁ e' hclear h hrenamed
  simp only [Resolve.expr, bind_eq_clean, pure_eq_clean] at h
  obtain ⟨a₁, ha₁, b₁, hb₁, rfl⟩ := h
  cases hrenamed with
  | binary ha' hb' =>
    rw [Resolve.expr, ha at_ hclear ha₁ ha', hb at_ hclear hb₁ hb']
    rfl

private theorem settles_logical {op : LogicalOp} (ha : r.ExprSettles a) (hb : r.ExprSettles b) :
    r.ExprSettles (.logical s op a b) := by
  intro at_ env marks e₁ e' hclear h hrenamed
  simp only [Resolve.expr, bind_eq_clean, pure_eq_clean] at h
  obtain ⟨a₁, ha₁, b₁, hb₁, rfl⟩ := h
  cases hrenamed with
  | logical ha' hb' =>
    rw [Resolve.expr, ha at_ hclear ha₁ ha', hb at_ hclear hb₁ hb']
    rfl

private theorem settles_conditional (hc : r.ExprSettles c) (ha : r.ExprSettles a)
    (hb : r.ExprSettles b) :
    r.ExprSettles (.conditional s c a b) := by
  intro at_ env marks e₁ e' hclear h hrenamed
  simp only [Resolve.expr, bind_eq_clean, pure_eq_clean] at h
  obtain ⟨c₁, hc₁, a₁, ha₁, b₁, hb₁, rfl⟩ := h
  cases hrenamed with
  | conditional hc' ha' hb' =>
    rw [Resolve.expr, hc at_ hclear hc₁ hc', ha at_ hclear ha₁ ha', hb at_ hclear hb₁ hb']
    rfl

private theorem settles_assign {target : NameUse} (he : r.ExprSettles e) :
    r.ExprSettles (.assign target e) := by
  intro at_ env marks e₁ e' hclear h hrenamed
  simp only [Resolve.expr, bind_eq_clean, pure_eq_clean] at h
  obtain ⟨e₁, he₁, hops, hoccurrence, rfl⟩ := h
  cases hrenamed with
  | assign hn he' =>
    rw [Resolve.expr, he at_ hclear he₁ he', bind_eq_clean]
    refine ⟨_, rfl, ?_⟩
    rw [bind_eq_clean]
    exact ⟨hops, resolve_occurrence hclear hn hoccurrence, rfl⟩

private theorem settles_call {args : List Expr} (hf : r.ExprSettles f)
    (hargs : r.ExprsSettle args) :
    r.ExprSettles (.call s f args) := by
  intro at_ env marks e₁ e' hclear h hrenamed
  simp only [Resolve.expr, bind_eq_clean, pure_eq_clean] at h
  obtain ⟨f₁, hf₁, args₁, hargs₁, rfl⟩ := h
  cases hrenamed with
  | call hf' hargs' =>
    rw [Resolve.expr, hf at_ hclear hf₁ hf', hargs at_ hclear hargs₁ hargs']
    rfl

private theorem settles_set {n : Text} (ho : r.ExprSettles o) (he : r.ExprSettles e) :
    r.ExprSettles (.set s o n e) := by
  intro at_ env marks e₁ e' hclear h hrenamed
  simp only [Resolve.expr, bind_eq_clean, pure_eq_clean] at h
  obtain ⟨e₁, he₁, o₁, ho₁, rfl⟩ := h
  cases hrenamed with
  | set ho' he' =>
    rw [Resolve.expr, he at_ hclear he₁ he', ho at_ hclear ho₁ ho']
    rfl

private theorem settles_this (s : Span) (hops : Option Int) : r.ExprSettles (.this s hops) := by
  intro at_ env marks e₁ e' hclear h hrenamed
  rw [Resolve.expr] at h
  split at h
  · simp only [bind_eq_clean, reportIf_eq_clean] at h
    obtain ⟨_, hreport, _⟩ := h
    cases hreport
  · rename_i hclass
    simp only [bind_eq_clean, pure_eq_clean] at h
    obtain ⟨hops₁, hoccurrence, rfl⟩ := h
    cases hrenamed
    rw [Resolve.expr]
    split
    · contradiction
    · exact bind_eq_clean.2 ⟨hops₁, resolve_keyword hclear .this_ hoccurrence, rfl⟩

private theorem settles_super (s : Span) (m : Text) (hops : Option Int) :
    r.ExprSettles (.super s m hops) := by
  intro at_ env marks e₁ e' hclear h hrenamed
  rw [Resolve.expr] at h
  split at h
  · simp only [bind_eq_clean, reportIf_eq_clean] at h
    obtain ⟨_, hreport, _⟩ := h
    cases hreport
  · simp only [bind_eq_clean, reportIf_eq_clean] at h
    obtain ⟨_, hreport, _⟩ := h
    cases hreport
  · rename_i hclass
    simp only [bind_eq_clean, pure_eq_clean] at h
    obtain ⟨hops₁, hoccurrence, rfl⟩ := h
    cases hrenamed
    rw [Resolve.expr]
    simp only [hclass]
    exact bind_eq_clean.2 ⟨hops₁, resolve_keyword hclear .super_ hoccurrence, rfl⟩

private theorem settles_body {at_ : Surroundings} {env after : Scopes}
    {marks : List Bool} {here : Bool}
    {ps : List Param} {body body₁ body' : List Stmt} {kind : Body} {u : Unit}
    (h : r.StmtsSettle body)
    (hclear : r.Clear marks env.locals) (hps : ∀ p ∈ ps, r.Allows (here :: marks) p.name)
    (hparams : Resolve.parameters [] ps = clean u)
    (hbody : Resolve.stmts (at_.enter kind) (Resolve.inside env (at_.funs + 1) ps) body =
      clean (body₁, after))
    (hbody' : Stmt.RenamedAll r (here :: marks) body₁ body') :
    Resolve.parameters [] (ps.map (r.param here)) = clean u ∧
      Resolve.stmts (at_.enter kind)
        (Resolve.inside (r.scopesOf marks env) (at_.funs + 1) (ps.map (r.param here))) body' =
          clean (body', r.scopesOf (here :: marks) after) := by
  obtain ⟨hinside, heq⟩ := clear_inside hclear hps (at_.funs + 1)
  refine ⟨resolve_parameters (fun hb p hp => hps p hp (mem_of_here hb)) (fun _ => List.not_mem_nil)
    hparams, ?_⟩
  rw [← heq]
  exact (h _ hinside hbody hbody').2

private theorem settles_lambda {ps : List Param} {body : List Stmt} (hbody : r.StmtsSettle body) :
    r.ExprSettles (.lambda s ps body) := by
  intro at_ env marks e₁ e' hclear h hrenamed
  simp only [Resolve.expr, bind_eq_clean, pure_eq_clean, Prod.exists] at h
  obtain ⟨_, hparams, body₁, after, hbody₁, rfl⟩ := h
  cases hrenamed with
  | lambda here hps hbody' =>
    obtain ⟨hparams', hinside⟩ := settles_body hbody hclear hps hparams hbody₁ hbody'
    exact bind_eq_clean.2 ⟨_, hparams', bind_eq_clean.2 ⟨_, hinside, rfl⟩⟩

private theorem settles_function {n : Text} {ps : List Param} {body : List Stmt}
    (hbody : r.StmtsSettle body) :
    r.FunDeclSettles (.mk s n ps body) := by
  intro at_ env marks kind d₁ d' hclear h hrenamed
  simp only [Resolve.funDecl, bind_eq_clean, pure_eq_clean, Prod.exists] at h
  obtain ⟨_, hparams, body₁, after, hbody₁, rfl⟩ := h
  cases hrenamed with
  | mk here hps hbody' =>
    obtain ⟨hparams', hinside⟩ := settles_body hbody hclear hps hparams hbody₁ hbody'
    exact bind_eq_clean.2 ⟨_, hparams', bind_eq_clean.2 ⟨_, hinside, rfl⟩⟩

end Expressions

section Statements

variable {s : Span} {c : Expr} {n : Text} {b : Stmt}

private theorem settles_var {init : Option Expr} (hinit : r.ClauseSettles init) :
    r.StmtSettles (.varDecl s n init) := by
  intro at_ env env₁ marks s₁ s' hclear h hrenamed
  simp only [Resolve.stmt, bind_eq_clean, pure_eq_clean, Prod.mk.injEq] at h
  obtain ⟨init₁, hinit₁, rfl, rfl⟩ := h
  cases hrenamed with
  | varDecl hn hinit' =>
    obtain ⟨hdeclared, heq⟩ := hclear.declare hn
    obtain ⟨hdefined, heq'⟩ := hdeclared.define hn
    refine ⟨hdefined, ?_⟩
    have hclause := hinit at_ hdeclared hinit₁ hinit'
    rw [heq] at hclause
    rw [Resolve.stmt, heq', heq]
    exact bind_eq_clean.2 ⟨_, hclause, rfl⟩

private theorem settles_block {body : List Stmt} (hbody : r.StmtsSettle body) :
    r.StmtSettles (.block s body) := by
  intro at_ env env₁ marks s₁ s' hclear h hrenamed
  simp only [Resolve.stmt, bind_eq_clean, pure_eq_clean, Prod.mk.injEq, Prod.exists] at h
  obtain ⟨body₁, after, hbody₁, rfl, rfl⟩ := h
  cases hrenamed with
  | block here hbody' =>
    have hinside := (hbody at_ (clear_block hclear here at_.funs) hbody₁ hbody').2
    exact ⟨hclear, bind_eq_clean.2 ⟨_, hinside, rfl⟩⟩

private theorem settles_if (hc : r.ExprSettles c) (hb : r.StmtSettles b) :
    r.StmtSettles (.ifStmt s c b none) := by
  intro at_ env env₁ marks s₁ s' hclear h hrenamed
  simp only [Resolve.stmt, bind_eq_clean, pure_eq_clean, Prod.mk.injEq, Prod.exists] at h
  obtain ⟨c₁, hc₁, b₁, _, hb₁, rfl, rfl⟩ := h
  cases hrenamed with
  | ifThen hc' hb' =>
    obtain ⟨hafter, hyes⟩ := hb at_ hclear hb₁ hb'
    refine ⟨hafter, ?_⟩
    rw [Resolve.stmt, hc at_ hclear hc₁ hc']
    exact bind_eq_clean.2 ⟨_, rfl, bind_eq_clean.2 ⟨_, hyes, rfl⟩⟩

private theorem settles_ifElse {b' : Stmt} (hc : r.ExprSettles c) (hb : r.StmtSettles b)
    (hb' : r.StmtSettles b') : r.StmtSettles (.ifStmt s c b (some b')) := by
  intro at_ env env₁ marks s₁ s' hclear h hrenamed
  simp only [Resolve.stmt, bind_eq_clean, pure_eq_clean, Prod.mk.injEq, Prod.exists] at h
  obtain ⟨c₁, hc₁, yes, _, hyes, no, _, hno, rfl, rfl⟩ := h
  cases hrenamed with
  | ifElse hc' hyes' hno' =>
    obtain ⟨hbetween, hyes⟩ := hb at_ hclear hyes hyes'
    obtain ⟨hafter, hno⟩ := hb' at_ hbetween hno hno'
    refine ⟨hafter, ?_⟩
    rw [Resolve.stmt, hc at_ hclear hc₁ hc']
    exact bind_eq_clean.2 ⟨_, rfl, bind_eq_clean.2 ⟨_, hyes, bind_eq_clean.2 ⟨_, hno, rfl⟩⟩⟩

private theorem settles_while (hc : r.ExprSettles c) (hb : r.StmtSettles b) :
    r.StmtSettles (.whileStmt s c b) := by
  intro at_ env env₁ marks s₁ s' hclear h hrenamed
  simp only [Resolve.stmt, bind_eq_clean, pure_eq_clean, Prod.mk.injEq, Prod.exists] at h
  obtain ⟨c₁, hc₁, b₁, _, hb₁, rfl, rfl⟩ := h
  cases hrenamed with
  | whileStmt hc' hb' =>
    obtain ⟨hafter, hbody⟩ := hb _ hclear hb₁ hb'
    refine ⟨hafter, ?_⟩
    rw [Resolve.stmt, hc at_ hclear hc₁ hc']
    exact bind_eq_clean.2 ⟨_, rfl, bind_eq_clean.2 ⟨_, hbody, rfl⟩⟩

private theorem settles_for {c i : Option Expr} (hc : r.ClauseSettles c) (hi : r.ClauseSettles i)
    (hb : r.StmtSettles b) : r.StmtSettles (.forStmt s none c i b) := by
  intro at_ env env₁ marks s₁ s' hclear h hrenamed
  simp only [Resolve.stmt, bind_eq_clean, pure_eq_clean, Prod.mk.injEq, Prod.exists] at h
  obtain ⟨c₁, hc₁, b₁, _, hb₁, i₁, hi₁, rfl, rfl⟩ := h
  cases hrenamed with
  | forStmt round hc' hb' hi' =>
    obtain ⟨hinner, hbody⟩ := hb _ (clear_block hclear round at_.funs) hb₁ hb'
    have hstep := hi _ hinner hi₁ hi'
    refine ⟨hclear, ?_⟩
    rw [Resolve.stmt, hc at_ hclear hc₁ hc']
    exact bind_eq_clean.2 ⟨_, rfl, bind_eq_clean.2 ⟨_, hbody, bind_eq_clean.2 ⟨_, hstep, rfl⟩⟩⟩

private theorem settles_forInit {init : Stmt} {c i : Option Expr} (hinit : r.StmtSettles init)
    (hc : r.ClauseSettles c) (hi : r.ClauseSettles i) (hb : r.StmtSettles b) :
    r.StmtSettles (.forStmt s (some init) c i b) := by
  intro at_ env env₁ marks s₁ s' hclear h hrenamed
  simp only [Resolve.stmt, bind_eq_clean, pure_eq_clean, Prod.mk.injEq, Prod.exists] at h
  obtain ⟨init₁, _, hinit₁, c₁, hc₁, b₁, _, hb₁, i₁, hi₁, rfl, rfl⟩ := h
  cases hrenamed with
  | forInit outer round hinit' hc' hb' hi' =>
    obtain ⟨houter, hfirst⟩ := hinit at_ (clear_block hclear outer at_.funs) hinit₁ hinit'
    have hcondition := hc at_ houter hc₁ hc'
    obtain ⟨hinner, hbody⟩ := hb _ (clear_block houter round at_.funs) hb₁ hb'
    have hstep := hi _ hinner hi₁ hi'
    exact ⟨hclear, bind_eq_clean.2 ⟨_, hfirst, bind_eq_clean.2 ⟨_, hcondition, bind_eq_clean.2
      ⟨_, hbody, bind_eq_clean.2 ⟨_, hstep, rfl⟩⟩⟩⟩⟩

private theorem settles_return {value : Option Expr} (h : r.ClauseSettles value) :
    r.StmtSettles (.returnStmt s value) := by
  intro at_ env env₁ marks s₁ s' hclear hvalue hrenamed
  cases value with
  | none =>
    simp only [Resolve.stmt, bind_eq_clean, pure_eq_clean, Prod.mk.injEq] at hvalue
    obtain ⟨_, hreport, rfl, rfl⟩ := hvalue
    cases hrenamed with
    | returnStmt he' =>
      cases he'
      exact ⟨hclear, bind_eq_clean.2 ⟨_, hreport, rfl⟩⟩
  | some e =>
    simp only [Resolve.stmt, bind_eq_clean, pure_eq_clean, Prod.mk.injEq] at hvalue
    obtain ⟨_, hreport, _, hinit, e₁, he, rfl, rfl⟩ := hvalue
    cases hrenamed with
    | returnStmt he' =>
      have hvalue : Resolve.clause at_ env (some e) = clean (some e₁) :=
        bind_eq_clean.2 ⟨_, he, rfl⟩
      have hclause := h at_ hclear hvalue he'
      cases he' with
      | some he' =>
        obtain ⟨_, he, hsame⟩ := bind_eq_clean.1 hclause
        cases hsame
        exact ⟨hclear, bind_eq_clean.2 ⟨_, hreport, bind_eq_clean.2 ⟨_, hinit,
          bind_eq_clean.2 ⟨_, he, rfl⟩⟩⟩⟩

private theorem settles_funDecl {d : FunDecl} (h : r.FunDeclSettles d) :
    r.StmtSettles (.funDecl d) := by
  intro at_ env env₁ marks s₁ s' hclear hfun hrenamed
  simp only [Resolve.stmt, bind_eq_clean, pure_eq_clean, Prod.mk.injEq] at hfun
  obtain ⟨d₁, hd, rfl, rfl⟩ := hfun
  cases hrenamed with
  | @funDecl _ _ d' hn hsame hd' =>
    have hname₁ := resolve_funDecl_name hd
    have hname' : d'.name = d₁.name := by cases hd'; rfl
    rw [hname₁] at hn hsame
    obtain ⟨hdefined, heq⟩ := hclear.introduce hn
    refine ⟨hdefined, ?_⟩
    have hdecl := h at_ hdefined hd hd'
    rw [heq, hsame] at hdecl
    rw [Resolve.stmt, hname', hname₁, heq, hsame]
    exact bind_eq_clean.2 ⟨_, hdecl, rfl⟩

private theorem settles_class {ms ss : List FunDecl} (hms : r.MethodsSettle ms)
    (hss : r.MethodsSettle ss) :
    r.StmtSettles (.classDecl s n none ms ss) := by
  intro at_ env env₁ marks s₁ s' hclear h hrenamed
  simp only [Resolve.stmt, bind_eq_clean, pure_eq_clean, Prod.mk.injEq] at h
  obtain ⟨ms₁, hms₁, ss₁, hss₁, rfl, rfl⟩ := h
  cases hrenamed with
  | classDecl hn hsame hms' hss' =>
    obtain ⟨hdefined, heq⟩ := hclear.introduce hn
    obtain ⟨⟨haround, heq'⟩, -⟩ := clear_aroundMethods hdefined at_.funs
    refine ⟨hdefined, ?_⟩
    have hmethods := hms _ haround hms₁ hms'
    have hstatics := hss _ haround hss₁ hss'
    rw [heq', heq, hsame] at hmethods hstatics
    rw [Resolve.stmt, heq, hsame]
    exact bind_eq_clean.2 ⟨_, hmethods, bind_eq_clean.2 ⟨_, hstatics, rfl⟩⟩

private theorem settles_subclass {sup : NameUse} {ms ss : List FunDecl} (hms : r.MethodsSettle ms)
    (hss : r.MethodsSettle ss) : r.StmtSettles (.classDecl s n (some sup) ms ss) := by
  intro at_ env env₁ marks s₁ s' hclear h hrenamed
  simp only [Resolve.stmt, bind_eq_clean, pure_eq_clean, Prod.mk.injEq, reportIf_eq_clean] at h
  obtain ⟨_, hself, sup₁, hsup, ms₁, hms₁, ss₁, hss₁, rfl, rfl⟩ := h
  cases hrenamed with
  | subclass hn hsame hsup' hms' hss' =>
    obtain ⟨hdefined, heq⟩ := hclear.introduce hn
    obtain ⟨-, haround, heq'⟩ := clear_aroundMethods hdefined at_.funs
    refine ⟨hdefined, ?_⟩
    have hself' : ((r.use marks sup₁).name == n) = false := by
      rw [← resolve_use_name hsup] at hself
      exact beq_false_of_ne (use_name_ne hn (ne_of_beq_false hself))
    have hsup := resolve_use hdefined hsup hsup'
    have hmethods := hms _ haround hms₁ hms'
    have hstatics := hss _ haround hss₁ hss'
    rw [heq'] at hmethods hstatics
    rw [heq, hsame] at hmethods hstatics hsup
    rw [Resolve.stmt, heq, hsame]
    exact bind_eq_clean.2 ⟨(), reportIf_eq_clean.2 hself', bind_eq_clean.2 ⟨_, hsup,
      bind_eq_clean.2 ⟨_, hmethods, bind_eq_clean.2 ⟨_, hstatics, rfl⟩⟩⟩⟩

private theorem settles_stmts {ss : List Stmt} (h : r.StmtSettles b) (hs : r.StmtsSettle ss) :
    r.StmtsSettle (b :: ss) := by
  intro at_ env env₁ marks ss₁ ss' hclear hall hrenamed
  simp only [Resolve.stmts, bind_eq_clean, pure_eq_clean, Prod.mk.injEq, Prod.exists] at hall
  obtain ⟨b₁, _, hb₁, ss₁, _, hss₁, rfl, rfl⟩ := hall
  cases hrenamed with
  | cons hb' hss' =>
    obtain ⟨hbetween, hfirst⟩ := h at_ hclear hb₁ hb'
    obtain ⟨hafter, hrest⟩ := hs at_ hbetween hss₁ hss'
    exact ⟨hafter, bind_eq_clean.2 ⟨_, hfirst, bind_eq_clean.2 ⟨_, hrest, rfl⟩⟩⟩

private theorem settles_methods {d : FunDecl} {ds : List FunDecl} (h : r.FunDeclSettles d)
    (hs : r.MethodsSettle ds) : r.MethodsSettle (d :: ds) := by
  intro at_ env marks ofInstances ds₁ ds' hclear hall hrenamed
  simp only [Resolve.methods, bind_eq_clean, pure_eq_clean] at hall
  obtain ⟨d₁, hd, ds₁, hds, rfl⟩ := hall
  cases hrenamed with
  | @cons _ _ d' _ _ hd' hds' =>
    have hname₁ := resolve_funDecl_name hd
    have hname' : d'.name = d₁.name := by cases hd'; rfl
    rw [Resolve.methods, hname', hname₁]
    exact bind_eq_clean.2 ⟨_, h at_ hclear hd hd', bind_eq_clean.2 ⟨_, hs at_ hclear hds hds', rfl⟩⟩

end Statements

mutual

theorem settles_expr (e : Expr) : r.ExprSettles e := by
  cases e with
  | literal s v =>
    intro at_ env marks e₁ e' hclear h hrenamed
    rw [Resolve.expr] at h
    cases h
    cases hrenamed
    rfl
  | grouping s e =>
    intro at_ env marks e₁ e' hclear h hrenamed
    simp only [Resolve.expr, bind_eq_clean, pure_eq_clean] at h
    obtain ⟨e₁, he, rfl⟩ := h
    cases hrenamed with
    | grouping he' => rw [Resolve.expr, settles_expr e at_ hclear he he']; rfl
  | unary s op e =>
    intro at_ env marks e₁ e' hclear h hrenamed
    simp only [Resolve.expr, bind_eq_clean, pure_eq_clean] at h
    obtain ⟨e₁, he, rfl⟩ := h
    cases hrenamed with
    | unary he' => rw [Resolve.expr, settles_expr e at_ hclear he he']; rfl
  | binary s op a b => exact settles_binary (settles_expr a) (settles_expr b)
  | logical s op a b => exact settles_logical (settles_expr a) (settles_expr b)
  | conditional s c a b =>
    exact settles_conditional (settles_expr c) (settles_expr a) (settles_expr b)
  | name u =>
    intro at_ env marks e₁ e' hclear h hrenamed
    simp only [Resolve.expr, bind_eq_clean, pure_eq_clean] at h
    obtain ⟨u₁, hu, rfl⟩ := h
    cases hrenamed with
    | name hn => rw [Resolve.expr, resolve_use hclear hu hn]; rfl
  | assign target e => exact settles_assign (settles_expr e)
  | call s f args => exact settles_call (settles_expr f) (settles_exprs args)
  | get s o n =>
    intro at_ env marks e₁ e' hclear h hrenamed
    simp only [Resolve.expr, bind_eq_clean, pure_eq_clean] at h
    obtain ⟨o₁, ho, rfl⟩ := h
    cases hrenamed with
    | get ho' => rw [Resolve.expr, settles_expr o at_ hclear ho ho']; rfl
  | set s o n e => exact settles_set (settles_expr o) (settles_expr e)
  | this s hops => exact settles_this s hops
  | super s m hops => exact settles_super s m hops
  | lambda s ps body => exact settles_lambda (settles_all body)
termination_by structural e

theorem settles_exprs (es : List Expr) : r.ExprsSettle es := by
  intro at_ env marks es₁ es' hclear h hrenamed
  cases es with
  | nil =>
    rw [Resolve.exprs] at h
    cases h
    cases hrenamed
    rfl
  | cons e es =>
    simp only [Resolve.exprs, bind_eq_clean, pure_eq_clean] at h
    obtain ⟨e₁, he, es₁, hes, rfl⟩ := h
    cases hrenamed with
    | cons he' hes' =>
      rw [Resolve.exprs, settles_expr e at_ hclear he he', settles_exprs es at_ hclear hes hes']
      rfl
termination_by structural es

theorem settles_clause (c : Option Expr) : r.ClauseSettles c := by
  intro at_ env marks c₁ c' hclear h hrenamed
  cases c with
  | none =>
    rw [Resolve.clause] at h
    cases h
    cases hrenamed
    rfl
  | some e =>
    simp only [Resolve.clause, bind_eq_clean, pure_eq_clean] at h
    obtain ⟨e₁, he, rfl⟩ := h
    cases hrenamed with
    | some he' => rw [Resolve.clause, settles_expr e at_ hclear he he']; rfl
termination_by structural c

theorem settles_stmt (s : Stmt) : r.StmtSettles s := by
  cases s with
  | exprStmt s e =>
    intro at_ env env₁ marks s₁ s' hclear h hrenamed
    simp only [Resolve.stmt, bind_eq_clean, pure_eq_clean, Prod.mk.injEq] at h
    obtain ⟨e₁, he, rfl, rfl⟩ := h
    cases hrenamed with
    | exprStmt he' => exact ⟨hclear, bind_eq_clean.2 ⟨_, settles_expr e at_ hclear he he', rfl⟩⟩
  | printStmt s e =>
    intro at_ env env₁ marks s₁ s' hclear h hrenamed
    simp only [Resolve.stmt, bind_eq_clean, pure_eq_clean, Prod.mk.injEq] at h
    obtain ⟨e₁, he, rfl, rfl⟩ := h
    cases hrenamed with
    | printStmt he' => exact ⟨hclear, bind_eq_clean.2 ⟨_, settles_expr e at_ hclear he he', rfl⟩⟩
  | varDecl s n init => exact settles_var (settles_clause init)
  | block s body => exact settles_block (settles_all body)
  | ifStmt s c a b =>
    cases b with
    | none => exact settles_if (settles_expr c) (settles_stmt a)
    | some b => exact settles_ifElse (settles_expr c) (settles_stmt a) (settles_stmt b)
  | whileStmt s c b => exact settles_while (settles_expr c) (settles_stmt b)
  | forStmt s init c i b =>
    cases init with
    | none => exact settles_for (settles_clause c) (settles_clause i) (settles_stmt b)
    | some init =>
      exact settles_forInit (settles_stmt init) (settles_clause c)
        (settles_clause i) (settles_stmt b)
  | breakStmt s =>
    intro at_ env env₁ marks s₁ s' hclear h hrenamed
    simp only [Resolve.stmt, bind_eq_clean, pure_eq_clean, Prod.mk.injEq] at h
    obtain ⟨_, hreport, rfl, rfl⟩ := h
    cases hrenamed
    exact ⟨hclear, bind_eq_clean.2 ⟨_, hreport, rfl⟩⟩
  | returnStmt s e => exact settles_return (settles_clause e)
  | funDecl d => exact settles_funDecl (settles_decl d)
  | classDecl s n sup ms ss =>
    cases sup with
    | none => exact settles_class (settles_decls ms) (settles_decls ss)
    | some sup => exact settles_subclass (settles_decls ms) (settles_decls ss)
termination_by structural s

private theorem settles_all (ss : List Stmt) : r.StmtsSettle ss := by
  cases ss with
  | nil =>
    intro at_ env env₁ marks ss₁ ss' hclear h hrenamed
    rw [Resolve.stmts] at h
    cases h
    cases hrenamed
    exact ⟨hclear, rfl⟩
  | cons s ss => exact settles_stmts (settles_stmt s) (settles_all ss)
termination_by structural ss

theorem settles_decl (d : FunDecl) : r.FunDeclSettles d := by
  cases d with
  | mk s n ps body => exact settles_function (settles_all body)
termination_by structural d

theorem settles_decls (ds : List FunDecl) : r.MethodsSettle ds := by
  cases ds with
  | nil =>
    intro at_ env marks ofInstances ds₁ ds' hclear h hrenamed
    rw [Resolve.methods] at h
    cases h
    cases hrenamed
    rfl
  | cons d ds => exact settles_methods (settles_decl d) (settles_decls ds)
termination_by structural ds

end

theorem resolve_program {p q : Program} {bound : List Text} (h : p.resolve bound = .ok q)
    {body' : List Stmt} (hrenamed : Stmt.RenamedAll r [] q.body body') :
    ({ q with body := body' } : Program).resolve bound = .ok { q with body := body' } := by
  obtain ⟨hfound, rfl⟩ := Program.resolve_eq_ok.1 h
  have hclear : r.Clear [] (Scopes.top bound).locals := trivial
  have hagain := (settles_all p.body {} hclear (eq_clean hfound) hrenamed).2
  refine Program.resolve_eq_ok.2 ⟨congrArg Checked.found hagain, ?_⟩
  have hvalue := congrArg (fun x => Prod.fst (Checked.value x)) hagain
  exact congrArg (Program.mk p.span) hvalue.symm

end Renaming
end Lox
