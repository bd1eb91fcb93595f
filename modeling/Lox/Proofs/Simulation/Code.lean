import Lox.Syntax.Basic

set_option autoImplicit false
set_option relaxedAutoImplicit false

namespace Lox

/-- In what two runs may differ: how loops are written, and whether no value at all or nil is given.
-/
structure Latitude where
  loops : Prop
  blanks : Prop

namespace Stmt

def isClause : Stmt → Bool
  | .varDecl _ _ _ | .exprStmt _ _ => true
  | _ => false

/-- A round of a loop with clauses as a block: the body, and the last clause if there is one. -/
def asRound (s : Span) (i : Option Expr) (b : Stmt) : Stmt :=
  .block s (b :: (i.map (.exprStmt s)).toList)

/-- The loop with a condition that a loop with clauses stands for, apart from its first clause. A
missing condition holds. -/
def asWhile (s : Span) (c i : Option Expr) (b : Stmt) : Stmt :=
  .whileStmt s (c.getD (.literal s (.bool true))) (asRound s i b)

end Stmt

mutual

inductive Expr.Matches (L : Latitude) : Expr → Expr → Prop
  | literal (s : Span) (v : Literal) : Expr.Matches L (.literal s v) (.literal s v)
  | grouping (s : Span) {e e' : Expr} :
      Expr.Matches L e e' → Expr.Matches L (.grouping s e) (.grouping s e')
  | unary (s : Span) (op : UnaryOp) {e e' : Expr} :
      Expr.Matches L e e' → Expr.Matches L (.unary s op e) (.unary s op e')
  | binary (s : Span) (op : BinaryOp) {a a' b b' : Expr} :
      Expr.Matches L a a' → Expr.Matches L b b' →
      Expr.Matches L (.binary s op a b) (.binary s op a' b')
  | logical (s : Span) (op : LogicalOp) {a a' b b' : Expr} :
      Expr.Matches L a a' → Expr.Matches L b b' →
      Expr.Matches L (.logical s op a b) (.logical s op a' b')
  | conditional (s : Span) {c c' a a' b b' : Expr} :
      Expr.Matches L c c' → Expr.Matches L a a' → Expr.Matches L b b' →
      Expr.Matches L (.conditional s c a b) (.conditional s c' a' b')
  | name (use : NameUse) : Expr.Matches L (.name use) (.name use)
  | assign (target : NameUse) {e e' : Expr} :
      Expr.Matches L e e' → Expr.Matches L (.assign target e) (.assign target e')
  | call (s : Span) {f f' : Expr} {args args' : List Expr} :
      Expr.Matches L f f' → Expr.MatchesAll L args args' →
      Expr.Matches L (.call s f args) (.call s f' args')
  | get (s : Span) (n : Text) {o o' : Expr} :
      Expr.Matches L o o' → Expr.Matches L (.get s o n) (.get s o' n)
  | set (s : Span) (n : Text) {o o' e e' : Expr} :
      Expr.Matches L o o' → Expr.Matches L e e' → Expr.Matches L (.set s o n e) (.set s o' n e')
  | this (s : Span) (hops : Option Int) : Expr.Matches L (.this s hops) (.this s hops)
  | super (s : Span) (m : Text) (hops : Option Int) :
      Expr.Matches L (.super s m hops) (.super s m hops)
  | lambda (s : Span) (ps : List Param) {body body' : List Stmt} :
      Stmt.MatchesAll L body body' → Expr.Matches L (.lambda s ps body) (.lambda s ps body')

inductive Expr.MatchesAll (L : Latitude) : List Expr → List Expr → Prop
  | nil : Expr.MatchesAll L [] []
  | cons {e e' : Expr} {es es' : List Expr} :
      Expr.Matches L e e' → Expr.MatchesAll L es es' → Expr.MatchesAll L (e :: es) (e' :: es')

inductive Expr.MatchesOption (L : Latitude) : Option Expr → Option Expr → Prop
  | none : Expr.MatchesOption L none none
  | some {e e' : Expr} : Expr.Matches L e e' → Expr.MatchesOption L (some e) (some e')

inductive Stmt.Matches (L : Latitude) : Stmt → Stmt → Prop
  | exprStmt (s : Span) {e e' : Expr} :
      Expr.Matches L e e' → Stmt.Matches L (.exprStmt s e) (.exprStmt s e')
  | printStmt (s : Span) {e e' : Expr} :
      Expr.Matches L e e' → Stmt.Matches L (.printStmt s e) (.printStmt s e')
  | varDecl (s : Span) (n : Text) {e e' : Option Expr} :
      Expr.MatchesOption L e e' → Stmt.Matches L (.varDecl s n e) (.varDecl s n e')
  | block (s : Span) {body body' : List Stmt} :
      Stmt.MatchesAll L body body' → Stmt.Matches L (.block s body) (.block s body')
  | ifThen (s : Span) {c c' : Expr} {a a' : Stmt} :
      Expr.Matches L c c' → Stmt.Matches L a a' →
      Stmt.Matches L (.ifStmt s c a none) (.ifStmt s c' a' none)
  | ifElse (s : Span) {c c' : Expr} {a a' b b' : Stmt} :
      Expr.Matches L c c' → Stmt.Matches L a a' → Stmt.Matches L b b' →
      Stmt.Matches L (.ifStmt s c a (some b)) (.ifStmt s c' a' (some b'))
  | whileStmt (s : Span) {c c' : Expr} {b b' : Stmt} :
      Expr.Matches L c c' → Stmt.Matches L b b' →
      Stmt.Matches L (.whileStmt s c b) (.whileStmt s c' b')
  | forStmt (s : Span) {c c' i i' : Option Expr} {b b' : Stmt} :
      Expr.MatchesOption L c c' → Expr.MatchesOption L i i' → Stmt.Matches L b b' →
      Stmt.Matches L (.forStmt s none c i b) (.forStmt s none c' i' b')
  | forInit (s : Span) {init init' : Stmt} {c c' i i' : Option Expr} {b b' : Stmt} :
      Stmt.Matches L init init' → Expr.MatchesOption L c c' → Expr.MatchesOption L i i' →
      Stmt.Matches L b b' → Stmt.Matches L (.forStmt s (some init) c i b)
        (.forStmt s (some init') c' i' b')
  | unrolled (s : Span) {c c' i i' : Option Expr} {b b' : Stmt} :
      L.loops → Expr.MatchesOption L c c' → Expr.MatchesOption L i i' → Stmt.Matches L b b' →
      Stmt.Matches L (.forStmt s none c i b) (.asWhile s c' i' b')
  | unrolledInit (s : Span) {init init' : Stmt} {c c' i i' : Option Expr} {b b' : Stmt} :
      L.loops → init.isClause = true → Stmt.Matches L init init' → Expr.MatchesOption L c c' →
      Expr.MatchesOption L i i' → Stmt.Matches L b b' →
      Stmt.Matches L (.forStmt s (some init) c i b) (.block s [init', .asWhile s c' i' b'])
  | rolled (s : Span) {c c' i i' : Option Expr} {b b' : Stmt} :
      L.loops → Expr.MatchesOption L c c' → Expr.MatchesOption L i i' → Stmt.Matches L b b' →
      Stmt.Matches L (.asWhile s c i b) (.forStmt s none c' i' b')
  | rolledInit (s : Span) {init init' : Stmt} {c c' i i' : Option Expr} {b b' : Stmt} :
      L.loops → init.isClause = true → Stmt.Matches L init init' → Expr.MatchesOption L c c' →
      Expr.MatchesOption L i i' → Stmt.Matches L b b' →
      Stmt.Matches L (.block s [init, .asWhile s c i b]) (.forStmt s (some init') c' i' b')
  | breakStmt (s : Span) : Stmt.Matches L (.breakStmt s) (.breakStmt s)
  | returnStmt (s : Span) {e e' : Option Expr} :
      Expr.MatchesOption L e e' → Stmt.Matches L (.returnStmt s e) (.returnStmt s e')
  | funDecl {d d' : FunDecl} : FunDecl.Matches L d d' → Stmt.Matches L (.funDecl d) (.funDecl d')
  | classDecl (s : Span) (n : Text) (sup : Option NameUse) {ms ms' ss ss' : List FunDecl} :
      FunDecl.MatchesAll L ms ms' → FunDecl.MatchesAll L ss ss' →
      Stmt.Matches L (.classDecl s n sup ms ss) (.classDecl s n sup ms' ss')

inductive Stmt.MatchesAll (L : Latitude) : List Stmt → List Stmt → Prop
  | nil : Stmt.MatchesAll L [] []
  | cons {s s' : Stmt} {ss ss' : List Stmt} :
      Stmt.Matches L s s' → Stmt.MatchesAll L ss ss' → Stmt.MatchesAll L (s :: ss) (s' :: ss')

inductive FunDecl.Matches (L : Latitude) : FunDecl → FunDecl → Prop
  | mk (s : Span) (n : Text) (ps : List Param) {body body' : List Stmt} :
      Stmt.MatchesAll L body body' → FunDecl.Matches L (.mk s n ps body) (.mk s n ps body')

inductive FunDecl.MatchesAll (L : Latitude) : List FunDecl → List FunDecl → Prop
  | nil : FunDecl.MatchesAll L [] []
  | cons {d d' : FunDecl} {ds ds' : List FunDecl} :
      FunDecl.Matches L d d' → FunDecl.MatchesAll L ds ds' →
        FunDecl.MatchesAll L (d :: ds) (d' :: ds')

end

namespace Stmt.Matches

variable {L : Latitude} {s s' : Stmt}

theorem span (h : Stmt.Matches L s s') : s'.span = s.span := by
  cases h with
  | funDecl hd =>
    cases hd
    rfl
  | _ => rfl

private theorem isClause (h : Stmt.Matches L s s') : s'.isClause = s.isClause := by cases h <;> rfl

end Stmt.Matches

/-! ### Code is matched by itself -/

namespace Latitude

variable (L : Latitude)

mutual

theorem expr_refl (e : Expr) : Expr.Matches L e e := by
  cases e with
  | literal s v => exact .literal s v
  | grouping s e => exact .grouping s (expr_refl e)
  | unary s op e => exact .unary s op (expr_refl e)
  | binary s op a b => exact .binary s op (expr_refl a) (expr_refl b)
  | logical s op a b => exact .logical s op (expr_refl a) (expr_refl b)
  | conditional s c a b => exact .conditional s (expr_refl c) (expr_refl a) (expr_refl b)
  | name use => exact .name use
  | assign target e => exact .assign target (expr_refl e)
  | call s f args => exact .call s (expr_refl f) (exprs_refl args)
  | get s o n => exact .get s n (expr_refl o)
  | set s o n e => exact .set s n (expr_refl o) (expr_refl e)
  | this s hops => exact .this s hops
  | super s m hops => exact .super s m hops
  | lambda s ps body => exact .lambda s ps (stmts_refl body)

theorem exprs_refl (es : List Expr) : Expr.MatchesAll L es es := by
  cases es with
  | nil => exact .nil
  | cons e es => exact .cons (expr_refl e) (exprs_refl es)

theorem option_refl (e : Option Expr) : Expr.MatchesOption L e e := by
  cases e with
  | none => exact .none
  | some e => exact .some (expr_refl e)

theorem stmt_refl (s : Stmt) : Stmt.Matches L s s := by
  cases s with
  | exprStmt s e => exact .exprStmt s (expr_refl e)
  | printStmt s e => exact .printStmt s (expr_refl e)
  | varDecl s n e => exact .varDecl s n (option_refl e)
  | block s body => exact .block s (stmts_refl body)
  | ifStmt s c a b =>
    cases b with
    | none => exact .ifThen s (expr_refl c) (stmt_refl a)
    | some b => exact .ifElse s (expr_refl c) (stmt_refl a) (stmt_refl b)
  | whileStmt s c b => exact .whileStmt s (expr_refl c) (stmt_refl b)
  | forStmt s init c i b =>
    cases init with
    | none => exact .forStmt s (option_refl c) (option_refl i) (stmt_refl b)
    | some init => exact .forInit s (stmt_refl init) (option_refl c) (option_refl i) (stmt_refl b)
  | breakStmt s => exact .breakStmt s
  | returnStmt s e => exact .returnStmt s (option_refl e)
  | funDecl d => exact .funDecl (function_refl d)
  | classDecl s n sup ms ss => exact .classDecl s n sup (functions_refl ms) (functions_refl ss)

theorem stmts_refl (ss : List Stmt) : Stmt.MatchesAll L ss ss := by
  cases ss with
  | nil => exact .nil
  | cons s ss => exact .cons (stmt_refl s) (stmts_refl ss)

theorem function_refl (d : FunDecl) : FunDecl.Matches L d d := by
  obtain ⟨s, n, ps, body⟩ := d
  exact .mk s n ps (stmts_refl body)

theorem functions_refl (ds : List FunDecl) : FunDecl.MatchesAll L ds ds := by
  cases ds with
  | nil => exact .nil
  | cons d ds => exact .cons (function_refl d) (functions_refl ds)

end

end Latitude

/-! ### Code is matched both ways -/

section

variable {L : Latitude}

mutual

theorem Expr.Matches.symm {e e' : Expr} (h : Expr.Matches L e e') : Expr.Matches L e' e :=
  match h with
  | .literal s v => .literal s v
  | .grouping s he => .grouping s he.symm
  | .unary s op he => .unary s op he.symm
  | .binary s op ha hb => .binary s op ha.symm hb.symm
  | .logical s op ha hb => .logical s op ha.symm hb.symm
  | .conditional s hc ha hb => .conditional s hc.symm ha.symm hb.symm
  | .name use => .name use
  | .assign target he => .assign target he.symm
  | .call s hf hargs => .call s hf.symm hargs.symm
  | .get s n ho => .get s n ho.symm
  | .set s n ho he => .set s n ho.symm he.symm
  | .this s hops => .this s hops
  | .super s m hops => .super s m hops
  | .lambda s ps hbody => .lambda s ps hbody.symm
termination_by structural h

theorem Expr.MatchesAll.symm {es es' : List Expr} (h : Expr.MatchesAll L es es') :
    Expr.MatchesAll L es' es :=
  match h with
  | .nil => .nil
  | .cons he hes => .cons he.symm hes.symm
termination_by structural h

theorem Expr.MatchesOption.symm {e e' : Option Expr} (h : Expr.MatchesOption L e e') :
    Expr.MatchesOption L e' e :=
  match h with
  | .none => .none
  | .some he => .some he.symm
termination_by structural h

theorem Stmt.Matches.symm {s s' : Stmt} (h : Stmt.Matches L s s') : Stmt.Matches L s' s :=
  match h with
  | .exprStmt s he => .exprStmt s he.symm
  | .printStmt s he => .printStmt s he.symm
  | .varDecl s n he => .varDecl s n he.symm
  | .block s hbody => .block s hbody.symm
  | .ifThen s hc ha => .ifThen s hc.symm ha.symm
  | .ifElse s hc ha hb => .ifElse s hc.symm ha.symm hb.symm
  | .whileStmt s hc hb => .whileStmt s hc.symm hb.symm
  | .forStmt s hc hi hb => .forStmt s hc.symm hi.symm hb.symm
  | .forInit s hinit hc hi hb => .forInit s hinit.symm hc.symm hi.symm hb.symm
  | .unrolled s hL hc hi hb => .rolled s hL hc.symm hi.symm hb.symm
  | .unrolledInit s hL hclause hinit hc hi hb =>
    .rolledInit s hL (hinit.isClause.trans hclause) hinit.symm hc.symm hi.symm hb.symm
  | .rolled s hL hc hi hb => .unrolled s hL hc.symm hi.symm hb.symm
  | .rolledInit s hL hclause hinit hc hi hb =>
    .unrolledInit s hL (hinit.isClause.trans hclause) hinit.symm hc.symm hi.symm hb.symm
  | .breakStmt s => .breakStmt s
  | .returnStmt s he => .returnStmt s he.symm
  | .funDecl hd => .funDecl hd.symm
  | .classDecl s n sup hms hss => .classDecl s n sup hms.symm hss.symm
termination_by structural h

theorem Stmt.MatchesAll.symm {ss ss' : List Stmt} (h : Stmt.MatchesAll L ss ss') :
    Stmt.MatchesAll L ss' ss :=
  match h with
  | .nil => .nil
  | .cons hs hss => .cons hs.symm hss.symm
termination_by structural h

theorem FunDecl.Matches.symm {d d' : FunDecl} (h : FunDecl.Matches L d d') :
    FunDecl.Matches L d' d :=
  match h with
  | .mk s n ps hbody => .mk s n ps hbody.symm
termination_by structural h

theorem FunDecl.MatchesAll.symm {ds ds' : List FunDecl} (h : FunDecl.MatchesAll L ds ds') :
    FunDecl.MatchesAll L ds' ds :=
  match h with
  | .nil => .nil
  | .cons hd hds => .cons hd.symm hds.symm
termination_by structural h

end

end

end Lox
