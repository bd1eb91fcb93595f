import Lox.Proofs.Core.Basic

set_option autoImplicit false
set_option relaxedAutoImplicit false

namespace Lox

mutual

inductive Expr.Alike : Expr → Expr → Prop
  | literal (s s' : Span) (v : Literal) : Expr.Alike (.literal s v) (.literal s' v)
  | ungrouped (s : Span) {e e' : Expr} : Expr.Alike e e' → Expr.Alike (.grouping s e) e'
  | grouped (s : Span) {e e' : Expr} : Expr.Alike e e' → Expr.Alike e (.grouping s e')
  | unary (s s' : Span) (op : UnaryOp) {e e' : Expr} :
      Expr.Alike e e' → Expr.Alike (.unary s op e) (.unary s' op e')
  | binary (s s' : Span) (op : BinaryOp) {a a' b b' : Expr} :
      Expr.Alike a a' → Expr.Alike b b' → Expr.Alike (.binary s op a b) (.binary s' op a' b')
  | logical (s s' : Span) (op : LogicalOp) {a a' b b' : Expr} :
      Expr.Alike a a' → Expr.Alike b b' → Expr.Alike (.logical s op a b) (.logical s' op a' b')
  | joined (s : Span) (op : LogicalOp) {a a' b b' : Expr} :
      Expr.Alike a a' → Expr.Alike b b' → Expr.Alike (.logical s op a b) (op.join a' b')
  | parted (s : Span) (op : LogicalOp) {a a' b b' : Expr} :
      Expr.Alike a a' → Expr.Alike b b' → Expr.Alike (op.join a b) (.logical s op a' b')
  | conditional (s s' : Span) {c c' a a' b b' : Expr} :
      Expr.Alike c c' → Expr.Alike a a' → Expr.Alike b b' →
      Expr.Alike (.conditional s c a b) (.conditional s' c' a' b')
  | name {use use' : NameUse} : use.bare = use'.bare → Expr.Alike (.name use) (.name use')
  | assign {target target' : NameUse} {e e' : Expr} :
      target.bare = target'.bare → Expr.Alike e e' →
        Expr.Alike (.assign target e) (.assign target' e')
  | call (s s' : Span) {f f' : Expr} {args args' : List Expr} :
      Expr.Alike f f' → Expr.AlikeAll args args' → Expr.Alike (.call s f args) (.call s' f' args')
  | get (s s' : Span) (n : Text) {o o' : Expr} :
      Expr.Alike o o' → Expr.Alike (.get s o n) (.get s' o' n)
  | set (s s' : Span) (n : Text) {o o' e e' : Expr} :
      Expr.Alike o o' → Expr.Alike e e' → Expr.Alike (.set s o n e) (.set s' o' n e')
  | this (s s' : Span) (hops : Option Int) : Expr.Alike (.this s hops) (.this s' hops)
  | super (s s' : Span) (m : Text) (hops : Option Int) :
      Expr.Alike (.super s m hops) (.super s' m hops)
  | lambda (s s' : Span) {ps ps' : List Param} {body body' : List Stmt} :
      ps.map Param.name = ps'.map Param.name → Stmt.AlikeAll body body' →
      Expr.Alike (.lambda s ps body) (.lambda s' ps' body')

inductive Expr.AlikeAll : List Expr → List Expr → Prop
  | nil : Expr.AlikeAll [] []
  | cons {e e' : Expr} {es es' : List Expr} :
      Expr.Alike e e' → Expr.AlikeAll es es' → Expr.AlikeAll (e :: es) (e' :: es')

inductive Expr.AlikeOption : Option Expr → Option Expr → Prop
  | none : Expr.AlikeOption none none
  | some {e e' : Expr} : Expr.Alike e e' → Expr.AlikeOption (some e) (some e')

inductive Stmt.Alike : Stmt → Stmt → Prop
  | exprStmt (s s' : Span) {e e' : Expr} :
      Expr.Alike e e' → Stmt.Alike (.exprStmt s e) (.exprStmt s' e')
  | printStmt (s s' : Span) {e e' : Expr} :
      Expr.Alike e e' → Stmt.Alike (.printStmt s e) (.printStmt s' e')
  | varDecl (s s' : Span) (n : Text) {e e' : Option Expr} :
      Expr.AlikeOption e e' → Stmt.Alike (.varDecl s n e) (.varDecl s' n e')
  | block (s s' : Span) {body body' : List Stmt} :
      Stmt.AlikeAll body body' → Stmt.Alike (.block s body) (.block s' body')
  | ifStmt (s s' : Span) {c c' : Expr} {a a' : Stmt} {b b' : Option Stmt} :
      Expr.Alike c c' → Stmt.Alike a a' → Stmt.AlikeOption b b' →
      Stmt.Alike (.ifStmt s c a b) (.ifStmt s' c' a' b')
  | whileStmt (s s' : Span) {c c' : Expr} {b b' : Stmt} :
      Expr.Alike c c' → Stmt.Alike b b' → Stmt.Alike (.whileStmt s c b) (.whileStmt s' c' b')
  | forStmt (s s' : Span) {init init' : Option Stmt} {c c' i i' : Option Expr} {b b' : Stmt} :
      Stmt.AlikeOption init init' → Expr.AlikeOption c c' →
        Expr.AlikeOption i i' → Stmt.Alike b b' →
      Stmt.Alike (.forStmt s init c i b) (.forStmt s' init' c' i' b')
  | breakStmt (s s' : Span) : Stmt.Alike (.breakStmt s) (.breakStmt s')
  | returnStmt (s s' : Span) {e e' : Option Expr} :
      Expr.AlikeOption e e' → Stmt.Alike (.returnStmt s e) (.returnStmt s' e')
  | funDecl {d d' : FunDecl} : FunDecl.Alike d d' → Stmt.Alike (.funDecl d) (.funDecl d')
  | classDecl (s s' : Span) (n : Text) {sup sup' : Option NameUse} {ms ms' ss ss' : List FunDecl} :
      sup.map NameUse.bare = sup'.map NameUse.bare → FunDecl.AlikeAll ms ms' →
        FunDecl.AlikeAll ss ss' →
      Stmt.Alike (.classDecl s n sup ms ss) (.classDecl s' n sup' ms' ss')

inductive Stmt.AlikeAll : List Stmt → List Stmt → Prop
  | nil : Stmt.AlikeAll [] []
  | cons {s s' : Stmt} {ss ss' : List Stmt} :
      Stmt.Alike s s' → Stmt.AlikeAll ss ss' → Stmt.AlikeAll (s :: ss) (s' :: ss')

inductive Stmt.AlikeOption : Option Stmt → Option Stmt → Prop
  | none : Stmt.AlikeOption none none
  | some {s s' : Stmt} : Stmt.Alike s s' → Stmt.AlikeOption (some s) (some s')

inductive FunDecl.Alike : FunDecl → FunDecl → Prop
  | mk (s s' : Span) (n : Text) {ps ps' : List Param} {body body' : List Stmt} :
      ps.map Param.name = ps'.map Param.name → Stmt.AlikeAll body body' →
      FunDecl.Alike (.mk s n ps body) (.mk s' n ps' body')

inductive FunDecl.AlikeAll : List FunDecl → List FunDecl → Prop
  | nil : FunDecl.AlikeAll [] []
  | cons {d d' : FunDecl} {ds ds' : List FunDecl} :
      FunDecl.Alike d d' → FunDecl.AlikeAll ds ds' → FunDecl.AlikeAll (d :: ds) (d' :: ds')

end

/-! ### Code is alike to itself -/

mutual

theorem Expr.Alike.refl (e : Expr) : Expr.Alike e e := by
  cases e with
  | literal s v => exact .literal s s v
  | grouping s e => exact .grouped s (.ungrouped s (.refl e))
  | unary s op e => exact .unary s s op (.refl e)
  | binary s op a b => exact .binary s s op (.refl a) (.refl b)
  | logical s op a b => exact .logical s s op (.refl a) (.refl b)
  | conditional s c a b => exact .conditional s s (.refl c) (.refl a) (.refl b)
  | name use => exact .name rfl
  | assign target e => exact .assign rfl (.refl e)
  | call s f args => exact .call s s (.refl f) (.refl args)
  | get s o n => exact .get s s n (.refl o)
  | set s o n e => exact .set s s n (.refl o) (.refl e)
  | this s hops => exact .this s s hops
  | super s m hops => exact .super s s m hops
  | lambda s ps body => exact .lambda s s rfl (.refl body)

theorem Expr.AlikeAll.refl (es : List Expr) : Expr.AlikeAll es es := by
  cases es with
  | nil => exact .nil
  | cons e es => exact .cons (.refl e) (.refl es)

theorem Expr.AlikeOption.refl (e : Option Expr) : Expr.AlikeOption e e := by
  cases e with
  | none => exact .none
  | some e => exact .some (.refl e)

theorem Stmt.Alike.refl (s : Stmt) : Stmt.Alike s s := by
  cases s with
  | exprStmt s e => exact .exprStmt s s (.refl e)
  | printStmt s e => exact .printStmt s s (.refl e)
  | varDecl s n e => exact .varDecl s s n (.refl e)
  | block s body => exact .block s s (.refl body)
  | ifStmt s c a b => exact .ifStmt s s (.refl c) (.refl a) (.refl b)
  | whileStmt s c b => exact .whileStmt s s (.refl c) (.refl b)
  | forStmt s init c i b => exact .forStmt s s (.refl init) (.refl c) (.refl i) (.refl b)
  | breakStmt s => exact .breakStmt s s
  | returnStmt s e => exact .returnStmt s s (.refl e)
  | funDecl d => exact .funDecl (.refl d)
  | classDecl s n sup ms ss => exact .classDecl s s n rfl (.refl ms) (.refl ss)

theorem Stmt.AlikeAll.refl (ss : List Stmt) : Stmt.AlikeAll ss ss := by
  cases ss with
  | nil => exact .nil
  | cons s ss => exact .cons (.refl s) (.refl ss)

theorem Stmt.AlikeOption.refl (s : Option Stmt) : Stmt.AlikeOption s s := by
  cases s with
  | none => exact .none
  | some s => exact .some (.refl s)

theorem FunDecl.Alike.refl (d : FunDecl) : FunDecl.Alike d d := by
  cases d with
  | mk s n ps body => exact .mk s s n rfl (.refl body)

theorem FunDecl.AlikeAll.refl (ds : List FunDecl) : FunDecl.AlikeAll ds ds := by
  cases ds with
  | nil => exact .nil
  | cons d ds => exact .cons (.refl d) (.refl ds)

end

/-! ### Code is alike both ways -/

mutual

theorem Expr.Alike.symm {e e' : Expr} (h : Expr.Alike e e') : Expr.Alike e' e :=
  match h with
  | .literal s s' v => .literal s' s v
  | .ungrouped s he => .grouped s he.symm
  | .grouped s he => .ungrouped s he.symm
  | .unary s s' op he => .unary s' s op he.symm
  | .binary s s' op ha hb => .binary s' s op ha.symm hb.symm
  | .logical s s' op ha hb => .logical s' s op ha.symm hb.symm
  | .joined s op ha hb => .parted s op ha.symm hb.symm
  | .parted s op ha hb => .joined s op ha.symm hb.symm
  | .conditional s s' hc ha hb => .conditional s' s hc.symm ha.symm hb.symm
  | .name huse => .name huse.symm
  | .assign htarget he => .assign htarget.symm he.symm
  | .call s s' hf hargs => .call s' s hf.symm hargs.symm
  | .get s s' n ho => .get s' s n ho.symm
  | .set s s' n ho he => .set s' s n ho.symm he.symm
  | .this s s' hops => .this s' s hops
  | .super s s' m hops => .super s' s m hops
  | .lambda s s' hps hbody => .lambda s' s hps.symm hbody.symm
termination_by structural h

theorem Expr.AlikeAll.symm {es es' : List Expr} (h : Expr.AlikeAll es es') : Expr.AlikeAll es' es :=
  match h with
  | .nil => .nil
  | .cons he hes => .cons he.symm hes.symm
termination_by structural h

theorem Expr.AlikeOption.symm {e e' : Option Expr} (h : Expr.AlikeOption e e') :
    Expr.AlikeOption e' e :=
  match h with
  | .none => .none
  | .some he => .some he.symm
termination_by structural h

theorem Stmt.Alike.symm {s s' : Stmt} (h : Stmt.Alike s s') : Stmt.Alike s' s :=
  match h with
  | .exprStmt s s' he => .exprStmt s' s he.symm
  | .printStmt s s' he => .printStmt s' s he.symm
  | .varDecl s s' n he => .varDecl s' s n he.symm
  | .block s s' hbody => .block s' s hbody.symm
  | .ifStmt s s' hc ha hb => .ifStmt s' s hc.symm ha.symm hb.symm
  | .whileStmt s s' hc hb => .whileStmt s' s hc.symm hb.symm
  | .forStmt s s' hinit hc hi hb => .forStmt s' s hinit.symm hc.symm hi.symm hb.symm
  | .breakStmt s s' => .breakStmt s' s
  | .returnStmt s s' he => .returnStmt s' s he.symm
  | .funDecl hd => .funDecl hd.symm
  | .classDecl s s' n hsup hms hss => .classDecl s' s n hsup.symm hms.symm hss.symm
termination_by structural h

theorem Stmt.AlikeAll.symm {ss ss' : List Stmt} (h : Stmt.AlikeAll ss ss') : Stmt.AlikeAll ss' ss :=
  match h with
  | .nil => .nil
  | .cons hs hss => .cons hs.symm hss.symm
termination_by structural h

theorem Stmt.AlikeOption.symm {s s' : Option Stmt} (h : Stmt.AlikeOption s s') :
    Stmt.AlikeOption s' s :=
  match h with
  | .none => .none
  | .some hs => .some hs.symm
termination_by structural h

theorem FunDecl.Alike.symm {d d' : FunDecl} (h : FunDecl.Alike d d') : FunDecl.Alike d' d :=
  match h with
  | .mk s s' n hps hbody => .mk s' s n hps.symm hbody.symm
termination_by structural h

theorem FunDecl.AlikeAll.symm {ds ds' : List FunDecl} (h : FunDecl.AlikeAll ds ds') :
    FunDecl.AlikeAll ds' ds :=
  match h with
  | .nil => .nil
  | .cons hd hds => .cons hd.symm hds.symm
termination_by structural h

end

/-! ### Code is alike to its core -/

private theorem Param.map_name_bare (ps : List Param) :
    ps.map Param.name = (ps.map Param.bare).map Param.name := by
  rw [List.map_map]
  rfl

theorem NameUse.eq_of_bare {use use' : NameUse} (h : use.bare = use'.bare) :
    use.name = use'.name ∧ use.hops = use'.hops := by
  have hname := congrArg NameUse.name h
  have hhops := congrArg NameUse.hops h
  exact ⟨hname, hhops⟩

private theorem NameUse.map_bare_bare (use : Option NameUse) :
    use.map NameUse.bare = (use.map NameUse.bare).map NameUse.bare := by
  cases use <;> rfl

mutual

theorem Expr.alike_core (e : Expr) : Expr.Alike e e.bare.regrouped := by
  cases e with
  | literal s v => exact .literal s _ v
  | grouping s e => exact .ungrouped s e.alike_core
  | unary s op e => exact .unary s _ op e.alike_core
  | binary s op a b => exact .binary s _ op a.alike_core b.alike_core
  | logical s op a b => exact .joined s op a.alike_core b.alike_core
  | conditional s c a b => exact .conditional s _ c.alike_core a.alike_core b.alike_core
  | name use => exact .name rfl
  | assign target e => exact .assign rfl e.alike_core
  | call s f args => exact .call s _ f.alike_core (Expr.alike_coreAll args)
  | get s o n => exact .get s _ n o.alike_core
  | set s o n e => exact .set s _ n o.alike_core e.alike_core
  | this s hops => exact .this s _ hops
  | super s m hops => exact .super s _ m hops
  | lambda s ps body => exact .lambda s _ (Param.map_name_bare ps) (Stmt.alike_coreAll body)

theorem Expr.alike_coreAll (es : List Expr) :
    Expr.AlikeAll es (Expr.regroupedAll (Expr.bareAll es)) := by
  cases es with
  | nil => exact .nil
  | cons e es => exact .cons e.alike_core (Expr.alike_coreAll es)

theorem Expr.alike_coreOption (e : Option Expr) :
    Expr.AlikeOption e (Expr.regroupedOption (Expr.bareOption e)) := by
  cases e with
  | none => exact .none
  | some e => exact .some e.alike_core

theorem Stmt.alike_core (s : Stmt) : Stmt.Alike s s.bare.regrouped := by
  cases s with
  | exprStmt s e => exact .exprStmt s _ e.alike_core
  | printStmt s e => exact .printStmt s _ e.alike_core
  | varDecl s n e => exact .varDecl s _ n (Expr.alike_coreOption e)
  | block s body => exact .block s _ (Stmt.alike_coreAll body)
  | ifStmt s c a b => exact .ifStmt s _ c.alike_core a.alike_core (Stmt.alike_coreOption b)
  | whileStmt s c b => exact .whileStmt s _ c.alike_core b.alike_core
  | forStmt s init c i b =>
    exact .forStmt s _ (Stmt.alike_coreOption init) (Expr.alike_coreOption c)
      (Expr.alike_coreOption i)
      b.alike_core
  | breakStmt s => exact .breakStmt s _
  | returnStmt s e => exact .returnStmt s _ (Expr.alike_coreOption e)
  | funDecl d => exact .funDecl d.alike_core
  | classDecl s n sup ms ss =>
    exact .classDecl s _ n (NameUse.map_bare_bare sup) (FunDecl.alike_coreAll ms)
      (FunDecl.alike_coreAll ss)

theorem Stmt.alike_coreAll (ss : List Stmt) : Stmt.AlikeAll ss (Stmt.coreAll ss) := by
  cases ss with
  | nil => exact .nil
  | cons s ss => exact .cons s.alike_core (Stmt.alike_coreAll ss)

theorem Stmt.alike_coreOption (s : Option Stmt) :
    Stmt.AlikeOption s (Stmt.regroupedOption (Stmt.bareOption s)) := by
  cases s with
  | none => exact .none
  | some s => exact .some s.alike_core

theorem FunDecl.alike_core (d : FunDecl) : FunDecl.Alike d d.bare.regrouped := by
  cases d with
  | mk s n ps body => exact .mk s _ n (Param.map_name_bare ps) (Stmt.alike_coreAll body)

theorem FunDecl.alike_coreAll (ds : List FunDecl) :
    FunDecl.AlikeAll ds (FunDecl.regroupedAll (FunDecl.bareAll ds)) := by
  cases ds with
  | nil => exact .nil
  | cons d ds => exact .cons d.alike_core (FunDecl.alike_coreAll ds)

end

end Lox
