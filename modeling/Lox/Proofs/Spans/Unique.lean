import Lox.Proofs.Spans.Stands

set_option autoImplicit false
set_option relaxedAutoImplicit false

namespace Lox

private theorem Expr.bareAll_eq_map (es : List Expr) : Expr.bareAll es = es.map Expr.bare := by
  induction es with
  | nil => rfl
  | cons e es ih => rw [Expr.bareAll, List.map_cons, ih]

private theorem Stmt.bareAll_eq_map (ss : List Stmt) : Stmt.bareAll ss = ss.map Stmt.bare := by
  induction ss with
  | nil => rfl
  | cons s ss ih => rw [Stmt.bareAll, List.map_cons, ih]

private theorem FunDecl.bareAll_eq_map (ds : List FunDecl) :
    FunDecl.bareAll ds = ds.map FunDecl.bare := by
  induction ds with
  | nil => rfl
  | cons d ds ih => rw [FunDecl.bareAll, List.map_cons, ih]

namespace Grammar

def Tree.bare : Tree → Tree
  | expr e => expr e.bare
  | stmt s => stmt s.bare
  | method d => method d.bare
  | static d => static d.bare
  | param p => param p.bare
  | superclass use => superclass use.bare

def Piece.bare : Piece → Piece
  | .token is => .token is
  | .tree t => .tree t.bare
  | .members methods statics => .members (FunDecl.bareAll methods) (FunDecl.bareAll statics)

/-! ### Parts do not look at spans -/

namespace Piece

@[simp] theorem bare_tree (t : Tree) : (tree t).bare = tree t.bare := rfl

@[simp] theorem bare_members (ms ss : List FunDecl) :
    (members ms ss).bare = members (FunDecl.bareAll ms) (FunDecl.bareAll ss) := rfl

@[simp] theorem bare_mark (m : Mark) : (mark m).bare = mark m := rfl

@[simp] theorem bare_word (k : Keyword) : (word k).bare = word k := rfl

@[simp] theorem bare_name (n : Text) : (name n).bare = name n := rfl

@[simp] theorem bare_sign (op : UnaryOp) : (sign op).bare = sign op := rfl

@[simp] theorem bare_operator (op : Parser.Operator) : (operator op).bare = operator op := rfl

@[simp] theorem bare_literal (v : Literal) : (literal v).bare = literal v := by
  cases v with
  | bool b => cases b <;> rfl
  | _ => rfl

@[simp] theorem map_bare_separated (ts : List Tree) :
    (separated ts).map bare = separated (ts.map Tree.bare) := by
  induction ts with
  | nil => rfl
  | cons t ts ih =>
    cases ts with
    | nil => rfl
    | cons u us => exact congrArg (fun ps => tree t.bare :: mark .comma :: ps) ih

@[simp] theorem map_bare_statements (body : List Stmt) :
    (statements body).map bare = statements (Stmt.bareAll body) := by
  rw [Stmt.bareAll_eq_map, statements, statements, List.map_map, List.map_map]
  rfl

@[simp] theorem map_bare_clause (e : Option Expr) :
    (clause e).map bare = clause (Expr.bareOption e) := by
  cases e <;> rfl

@[simp] theorem map_bare_initial (e : Option Expr) :
    (initial e).map bare = initial (Expr.bareOption e) := by
  cases e <;> rfl

@[simp] theorem map_bare_loopInitial (s : Option Stmt) :
    (loopInitial s).map bare = loopInitial (Stmt.bareOption s) := by
  cases s <;> rfl

@[simp] theorem map_bare_otherwise (s : Option Stmt) :
    (otherwise s).map bare = otherwise (Stmt.bareOption s) := by
  cases s <;> rfl

@[simp] theorem map_bare_inherits (use : Option NameUse) :
    (inherits use).map bare = inherits (use.map NameUse.bare) := by
  cases use <;> rfl

@[simp] theorem map_bare_callable (ps : List Param) (body : List Stmt) :
    (callable ps body).map bare = callable (ps.map Param.bare) (Stmt.bareAll body) := by
  have hparams : (ps.map Tree.param).map Tree.bare = (ps.map Param.bare).map Tree.param := by
    rw [List.map_map, List.map_map]
    rfl
  simp [callable, hparams]

@[simp] theorem map_bare_function (d : FunDecl) :
    (function d).map bare = function d.bare := by
  obtain ⟨s, n, ps, body⟩ := d
  simp [function]

end Piece

private theorem Tree.parts_bare (t : Tree) : t.bare.parts = t.parts.map Piece.bare := by
  cases t with
  | expr e =>
    cases e with
    | call s f args =>
      have hargs : (args.map Tree.expr).map Tree.bare = (args.map Expr.bare).map Tree.expr := by
        rw [List.map_map, List.map_map]
        rfl
      simp [Tree.bare, Tree.parts, hargs, Expr.bareAll_eq_map]
    | _ => simp [Tree.bare, Tree.parts]
  | stmt s => cases s <;> simp [Tree.bare, Tree.parts]
  | _ => simp [Tree.bare, Tree.parts]

/-! ### Trees from their children -/

@[simp] theorem trees_tree (t : Tree) : (Piece.tree t).trees = [t] := rfl

@[simp] theorem trees_members (ms ss : List FunDecl) :
    (Piece.members ms ss).trees = ms.map .method ++ ss.map .static := rfl

@[simp] theorem trees_sign (op : UnaryOp) : (Piece.sign op).trees = [] := rfl

@[simp] theorem trees_operator (op : Parser.Operator) : (Piece.operator op).trees = [] := rfl

@[simp] theorem trees_mark (m : Mark) : (Piece.mark m).trees = [] := rfl

@[simp] theorem trees_word (k : Keyword) : (Piece.word k).trees = [] := rfl

@[simp] theorem trees_name (n : Text) : (Piece.name n).trees = [] := rfl

@[simp] theorem flatMap_separated (ts : List Tree) :
    (Piece.separated ts).flatMap Piece.trees = ts := by
  induction ts with
  | nil => rfl
  | cons t ts ih =>
    cases ts with
    | nil => rfl
    | cons u us => exact congrArg (t :: ·) ih

@[simp] theorem flatMap_statements (body : List Stmt) :
    (Piece.statements body).flatMap Piece.trees = body.map .stmt := by
  rw [Piece.statements, List.flatMap_map]
  induction body with
  | nil => rfl
  | cons s body ih => exact congrArg (Tree.stmt s :: ·) ih

@[simp] theorem flatMap_clause (e : Option Expr) :
    (Piece.clause e).flatMap Piece.trees = e.toList.map .expr := by
  cases e <;> rfl

@[simp] theorem flatMap_initial (e : Option Expr) :
    (Piece.initial e).flatMap Piece.trees = e.toList.map .expr := by
  cases e <;> rfl

@[simp] theorem flatMap_loopInitial (s : Option Stmt) :
    (Piece.loopInitial s).flatMap Piece.trees = s.toList.map .stmt := by
  cases s <;> rfl

@[simp] theorem flatMap_otherwise (s : Option Stmt) :
    (Piece.otherwise s).flatMap Piece.trees = s.toList.map .stmt := by
  cases s <;> rfl

@[simp] theorem flatMap_inherits (use : Option NameUse) :
    (Piece.inherits use).flatMap Piece.trees = use.toList.map .superclass := by
  cases use <;> rfl

@[simp] theorem flatMap_callable (ps : List Param) (body : List Stmt) :
    (Piece.callable ps body).flatMap Piece.trees = ps.map .param ++ body.map .stmt := by
  simp [Piece.callable]

private theorem nameUse_eq {use use' : NameUse} (hbare : use.bare = use'.bare)
    (hspan : use.span = use'.span) :
    use = use' := by
  cases use
  cases use'
  simp_all

/-- Two lists of trees, after the second of which nothing is missing, are told apart by the length
of the first. -/
theorem map_append_inj {α β : Type} {f : α → Tree} {g : β → Tree} (hf : ∀ a b, f a = f b → a = b)
    (hg : ∀ a b, g a = g b → a = b) {as as' : List α} {bs bs' : List β}
    (hlen : as.length = as'.length) (h : as.map f ++ bs.map g = as'.map f ++ bs'.map g) :
    as = as' ∧ bs = bs' := by
  obtain ⟨has, hbs⟩ := List.append_inj h (by simpa using hlen)
  exact ⟨(List.map_inj_right hf).1 has, (List.map_inj_right hg).1 hbs⟩

private theorem callable_eq {ps ps' : List Param} {body body' : List Stmt}
    (hbare : ps.map Param.bare = ps'.map Param.bare)
    (h : ps.map Tree.param ++ body.map Tree.stmt = ps'.map Tree.param ++ body'.map Tree.stmt) :
    ps = ps' ∧ body = body' :=
  map_append_inj (fun _ _ => Tree.param.inj) (fun _ _ => Tree.stmt.inj)
    (by simpa using congrArg List.length hbare) h

private theorem expr_eq {e e' : Expr} (hbare : e.bare = e'.bare) (hspan : e.span = e'.span)
    (h : (Tree.expr e).children = (Tree.expr e').children) : e = e' := by
  cases e <;> cases e'
  case name.name use use' =>
    rw [nameUse_eq (Expr.name.inj hbare) hspan]
  case assign.assign target e target' e' =>
    have hvalue : [Tree.expr e] = [Tree.expr e'] := h
    rw [nameUse_eq (Expr.assign.inj hbare).1 hspan, Tree.expr.inj (List.cons.inj hvalue).1]
  case call.call s f args s' f' args' =>
    obtain rfl : s = s' := hspan
    have hparts : (f :: args).map Tree.expr = (f' :: args').map Tree.expr := by
      simpa [Tree.children, Tree.parts] using h
    obtain ⟨rfl, rfl⟩ := List.cons.inj ((List.map_inj_right fun _ _ => Tree.expr.inj).1 hparts)
    rfl
  case lambda.lambda s ps body s' ps' body' =>
    obtain rfl : s = s' := hspan
    obtain ⟨rfl, rfl⟩ := callable_eq (Expr.lambda.inj hbare).2.1
      (by simpa [Tree.children, Tree.parts] using h)
    rfl
  all_goals simp_all [Tree.children, Tree.parts, Expr.span]

private theorem funDecl_eq {d d' : FunDecl} (hbare : d.bare = d'.bare) (hspan : d.span = d'.span)
    (h : (Piece.function d).flatMap Piece.trees = (Piece.function d').flatMap Piece.trees) :
    d = d' := by
  obtain ⟨s, n, ps, body⟩ := d
  obtain ⟨s', n', ps', body'⟩ := d'
  obtain rfl : s = s' := hspan
  obtain ⟨-, rfl, hps, -⟩ := FunDecl.mk.inj hbare
  obtain ⟨rfl, rfl⟩ := callable_eq hps (by simpa [Piece.function] using h)
  rfl

private theorem stmt_eq {s s' : Stmt} (hbare : s.bare = s'.bare) (hspan : s.span = s'.span)
    (h : (Tree.stmt s).children = (Tree.stmt s').children) : s = s' := by
  cases s <;> cases s'
  case varDecl.varDecl init _ _ init' | returnStmt.returnStmt init _ init' =>
    cases init <;> cases init' <;> simp_all [Tree.children, Tree.parts, Stmt.span]
  case block.block body _ body' =>
    have hbody : body = body' := (List.map_inj_right fun _ _ => Tree.stmt.inj).1
      (by simpa [Tree.children, Tree.parts] using h)
    simp_all [Stmt.span]
  case ifStmt.ifStmt no _ _ _ no' =>
    cases no <;> cases no' <;> simp_all [Tree.children, Tree.parts, Stmt.span]
  case forStmt.forStmt init c step _ _ init' c' step' _ =>
    cases init <;> cases init' <;> cases c <;> cases c' <;> cases step <;> cases step' <;>
      simp_all [Tree.children, Tree.parts, Stmt.span]
  case funDecl.funDecl d d' =>
    rw [funDecl_eq (Stmt.funDecl.inj hbare) hspan (by simpa [Tree.children, Tree.parts] using h)]
  case classDecl.classDecl s n sup methods statics s' n' sup' methods' statics' =>
    obtain rfl : s = s' := hspan
    obtain ⟨-, rfl, hsup, hmethods, -⟩ := Stmt.classDecl.inj hbare
    rw [FunDecl.bareAll_eq_map, FunDecl.bareAll_eq_map] at hmethods
    have hlen : methods.length = methods'.length := by simpa using congrArg List.length hmethods
    have hmembers : sup = sup' ∧ methods.map Tree.method ++ statics.map Tree.static =
        methods'.map Tree.method ++ statics'.map Tree.static := by
      cases sup <;> cases sup' <;> simp_all [Tree.children, Tree.parts]
    obtain ⟨rfl, rfl⟩ := map_append_inj (fun _ _ => Tree.method.inj) (fun _ _ => Tree.static.inj)
      hlen hmembers.2
    rw [hmembers.1]
  all_goals simp_all [Tree.children, Tree.parts, Stmt.span]

private theorem Tree.eq_of_children {t u : Tree} (hbare : t.bare = u.bare) (hspan : t.span = u.span)
    (h : t.children = u.children) : t = u := by
  cases t <;> cases u <;> try contradiction
  case expr.expr e e' => rw [expr_eq (Tree.expr.inj hbare) hspan h]
  case stmt.stmt s s' => rw [stmt_eq (Tree.stmt.inj hbare) hspan h]
  case method.method d d' => rw [funDecl_eq (Tree.method.inj hbare) hspan h]
  case static.static d d' =>
    rw [funDecl_eq (Tree.static.inj hbare) hspan (by simpa [Tree.children, Tree.parts] using h)]
  case param.param p p' =>
    cases p
    cases p'
    simp_all [Tree.bare, Tree.span]
  case superclass.superclass use use' => rw [nameUse_eq (Tree.superclass.inj hbare) hspan]

/-! ### Parts at the beginning of the same tokens -/

private theorem Covers.unique {ts : List Token} {a b : Span} (ha : Covers ts a) (hb : Covers ts b) :
    a = b := by
  obtain ⟨first, last, hhead, hlast, rfl⟩ := ha
  obtain ⟨first', last', hhead', hlast', rfl⟩ := hb
  cases hhead.symm.trans hhead'
  cases hlast.symm.trans hlast'
  rfl

private theorem StandAll.starts_function {d : FunDecl} {ts : List Token}
    (h : StandAll (Piece.function d) ts) :
    ∃ t r, ts = t :: r ∧ t.kind = .name := by
  obtain ⟨s, n, ps, body⟩ := d
  cases h with
  | token ht _ => exact ⟨_, _, rfl, ht.1⟩

private theorem StandAll.starts_method {d : FunDecl} {ps : List Piece} {ts : List Token}
    (h : StandAll (.tree (.method d) :: ps) ts) : ∃ t r, ts = t :: r ∧ t.kind = .name := by
  cases h with
  | tree hu _ _ =>
    obtain ⟨t, r, rfl, ht⟩ := hu.starts_function
    exact ⟨t, _, rfl, ht⟩

private theorem StandAll.starts_static {d : FunDecl} {ps : List Piece} {ts : List Token}
    (h : StandAll (.tree (.static d) :: ps) ts) : ∃ t r, ts = t :: r ∧
    t.kind = .keyword .class_ := by
  cases h with
  | tree hu _ _ =>
    cases hu with
    | token ht _ => exact ⟨_, _, rfl, ht⟩

private theorem not_method_and_static {d d' : FunDecl} {ps qs : List Piece}
    {ts us r r' : List Token}
    (h : StandAll (.tree (.method d) :: ps) ts) (h' : StandAll (.tree (.static d') :: qs) us)
    (heq : ts ++ r = us ++ r') : False := by
  obtain ⟨t, _, rfl, ht⟩ := h.starts_method
  obtain ⟨u, _, rfl, hu⟩ := h'.starts_static
  obtain rfl := (List.cons.inj heq).1
  cases ht.symm.trans hu

private theorem exists_cons_token {is : Token → Prop} {ps qs : List Piece}
    (h : (Piece.token is :: ps).map Piece.bare = qs.map Piece.bare) :
    ∃ rest, qs = .token is :: rest ∧ ps.map Piece.bare = rest.map Piece.bare := by
  obtain ⟨q, rest, rfl, hq, hrest⟩ := List.map_eq_cons_iff.1 h.symm
  cases q with
  | token is' => exact ⟨rest, by rw [Piece.token.inj hq], hrest.symm⟩
  | tree | members => cases hq

private theorem exists_cons_tree {u : Tree} {ps qs : List Piece}
    (h : (Piece.tree u :: ps).map Piece.bare = qs.map Piece.bare) :
    ∃ v rest, qs = .tree v :: rest ∧ u.bare = v.bare ∧ ps.map Piece.bare = rest.map Piece.bare := by
  obtain ⟨q, rest, rfl, hq, hrest⟩ := List.map_eq_cons_iff.1 h.symm
  cases q with
  | tree v => exact ⟨v, rest, rfl, (Piece.tree.inj hq).symm, hrest.symm⟩
  | token | members => cases hq

private theorem exists_cons_members {ms ss : List FunDecl} {ps qs : List Piece}
    (h : (Piece.members ms ss :: ps).map Piece.bare = qs.map Piece.bare) :
    ∃ ms' ss' rest, qs = .members ms' ss' :: rest ∧ FunDecl.bareAll ms = FunDecl.bareAll ms' ∧
      FunDecl.bareAll ss = FunDecl.bareAll ss' ∧ ps.map Piece.bare = rest.map Piece.bare := by
  obtain ⟨q, rest, rfl, hq, hrest⟩ := List.map_eq_cons_iff.1 h.symm
  cases q with
  | members ms' ss' =>
    obtain ⟨hms, hss⟩ := Piece.members.inj hq
    exact ⟨ms', ss', rest, rfl, hms.symm, hss.symm, hrest.symm⟩
  | token | tree => cases hq

private theorem bareAll_eq_nil {ds : List FunDecl} (h : FunDecl.bareAll [] = FunDecl.bareAll ds) :
    ds = [] := by
  rw [FunDecl.bareAll_eq_map, FunDecl.bareAll_eq_map] at h
  exact List.map_eq_nil_iff.1 h.symm

/-- Parts that differ in spans only and take tokens from the beginning of the same tokens take the
same tokens, and are the same. -/
theorem StandAll.unique {ps qs : List Piece} {ts us r r' : List Token} (h : StandAll ps ts)
    (h' : StandAll qs us) (hbare : ps.map Piece.bare = qs.map Piece.bare)
    (heq : ts ++ r = us ++ r') : ts = us ∧ ps = qs := by
  induction h generalizing qs us r r' with
  | nil =>
    obtain rfl := List.map_eq_nil_iff.1 hbare.symm
    cases h'
    exact ⟨rfl, rfl⟩
  | token _ _ ih =>
    obtain ⟨qs, rfl, hqs⟩ := exists_cons_token hbare
    cases h' with
    | token _ h' =>
      obtain ⟨rfl, hrest⟩ := List.cons.inj heq
      obtain ⟨rfl, rfl⟩ := ih h' hqs hrest
      exact ⟨rfl, rfl⟩
  | @tree u ps us' ts _ hcovers _ ihu ih =>
    obtain ⟨v, qs, rfl, huv, hqs⟩ := exists_cons_tree hbare
    cases h' with
    | tree hv hcovers' h' =>
      rw [List.append_assoc, List.append_assoc] at heq
      obtain ⟨rfl, hparts⟩ := ihu hv (by rw [← u.parts_bare, ← v.parts_bare, huv]) heq
      obtain ⟨rfl, rfl⟩ := ih h' hqs (List.append_cancel_left heq)
      have hsame : u = v := Tree.eq_of_children huv (hcovers.unique hcovers')
        (congrArg (List.flatMap Piece.trees) hparts)
      exact ⟨rfl, by rw [hsame]⟩
  | noMembers _ ih =>
    obtain ⟨ms, ss, qs, rfl, hms, hss, hqs⟩ := exists_cons_members hbare
    obtain rfl := bareAll_eq_nil hms
    obtain rfl := bareAll_eq_nil hss
    cases h' with
    | noMembers h' =>
      obtain ⟨rfl, rfl⟩ := ih h' hqs heq
      exact ⟨rfl, rfl⟩
  | method h ih =>
    obtain ⟨ms, ss, qs, rfl, hms, hss, hqs⟩ := exists_cons_members hbare
    cases h' with
    | noMembers _ => cases hms
    | method h' =>
      obtain ⟨hd, hms⟩ := List.cons.inj hms
      obtain ⟨rfl, hparts⟩ := ih h' (by simp [Tree.bare, hd, hms, hss, hqs]) heq
      cases hparts
      exact ⟨rfl, rfl⟩
    | static h' => exact (not_method_and_static h h' heq).elim
  | static h ih =>
    obtain ⟨ms, ss, qs, rfl, hms, hss, hqs⟩ := exists_cons_members hbare
    cases h' with
    | noMembers _ => cases hss
    | method h' => exact (not_method_and_static h' h heq.symm).elim
    | static h' =>
      obtain ⟨hd, hss⟩ := List.cons.inj hss
      obtain ⟨rfl, hparts⟩ := ih h' (by simp [Tree.bare, hd, hms, hss, hqs]) heq
      cases hparts
      exact ⟨rfl, rfl⟩

theorem statements_unique {body body' : List Stmt} {ts : List Token}
    (h : StandAll (Piece.statements body) ts) (h' : StandAll (Piece.statements body') ts)
    (hbare : Stmt.bareAll body = Stmt.bareAll body') : body = body' := by
  have hparts := (h.unique h' (by simp [hbare]) (rfl : ts ++ [] = ts ++ [])).2
  have htrees := congrArg (List.flatMap Piece.trees) hparts
  rw [flatMap_statements, flatMap_statements] at htrees
  exact (List.map_inj_right fun _ _ => Tree.stmt.inj).1 htrees

end Grammar
end Lox
