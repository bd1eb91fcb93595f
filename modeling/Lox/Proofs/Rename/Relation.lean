import Lox.Proofs.Rename.Basic

set_option autoImplicit false
set_option relaxedAutoImplicit false

namespace Lox

def Renaming.Allows (r : Renaming) (marks : List Bool) (n : Text) : Prop := true ∈ marks → n ≠ r.new

mutual

inductive Expr.Renamed (r : Renaming) : List Bool → Expr → Expr → Prop
  | literal {marks : List Bool} {s : Span} {v : Literal} :
      Expr.Renamed r marks (.literal s v) (.literal s v)
  | grouping {marks : List Bool} {s : Span} {e e' : Expr} :
      Expr.Renamed r marks e e' → Expr.Renamed r marks (.grouping s e) (.grouping s e')
  | unary {marks : List Bool} {s : Span} {op : UnaryOp} {e e' : Expr} :
      Expr.Renamed r marks e e' → Expr.Renamed r marks (.unary s op e) (.unary s op e')
  | binary {marks : List Bool} {s : Span} {op : BinaryOp} {a a' b b' : Expr} :
      Expr.Renamed r marks a a' → Expr.Renamed r marks b b' →
      Expr.Renamed r marks (.binary s op a b) (.binary s op a' b')
  | logical {marks : List Bool} {s : Span} {op : LogicalOp} {a a' b b' : Expr} :
      Expr.Renamed r marks a a' → Expr.Renamed r marks b b' →
      Expr.Renamed r marks (.logical s op a b) (.logical s op a' b')
  | conditional {marks : List Bool} {s : Span} {c c' a a' b b' : Expr} :
      Expr.Renamed r marks c c' → Expr.Renamed r marks a a' → Expr.Renamed r marks b b' →
      Expr.Renamed r marks (.conditional s c a b) (.conditional s c' a' b')
  | name {marks : List Bool} {u : NameUse} :
      r.Allows marks u.name → Expr.Renamed r marks (.name u) (.name (r.use marks u))
  | assign {marks : List Bool} {target : NameUse} {e e' : Expr} :
      r.Allows marks target.name → Expr.Renamed r marks e e' →
      Expr.Renamed r marks (.assign target e) (.assign (r.use marks target) e')
  | call {marks : List Bool} {s : Span} {f f' : Expr} {args args' : List Expr} :
      Expr.Renamed r marks f f' → Expr.RenamedAll r marks args args' →
      Expr.Renamed r marks (.call s f args) (.call s f' args')
  | get {marks : List Bool} {s : Span} {o o' : Expr} {n : Text} :
      Expr.Renamed r marks o o' → Expr.Renamed r marks (.get s o n) (.get s o' n)
  | set {marks : List Bool} {s : Span} {o o' e e' : Expr} {n : Text} :
      Expr.Renamed r marks o o' → Expr.Renamed r marks e e' →
      Expr.Renamed r marks (.set s o n e) (.set s o' n e')
  | this {marks : List Bool} {s : Span} {hops : Option Int} :
      Expr.Renamed r marks (.this s hops) (.this s hops)
  | super {marks : List Bool} {s : Span} {m : Text} {hops : Option Int} :
      Expr.Renamed r marks (.super s m hops) (.super s m hops)
  | lambda {marks : List Bool} {s : Span} {ps : List Param} {body body' : List Stmt} (here : Bool) :
      (∀ p ∈ ps, r.Allows (here :: marks) p.name) → Stmt.RenamedAll r (here :: marks) body body' →
      Expr.Renamed r marks (.lambda s ps body) (.lambda s (ps.map (r.param here)) body')

inductive Expr.RenamedAll (r : Renaming) : List Bool → List Expr → List Expr → Prop
  | nil {marks : List Bool} : Expr.RenamedAll r marks [] []
  | cons {marks : List Bool} {e e' : Expr} {es es' : List Expr} :
      Expr.Renamed r marks e e' → Expr.RenamedAll r marks es es' →
      Expr.RenamedAll r marks (e :: es) (e' :: es')

inductive Expr.RenamedOption (r : Renaming) : List Bool → Option Expr → Option Expr → Prop
  | none {marks : List Bool} : Expr.RenamedOption r marks none none
  | some {marks : List Bool} {e e' : Expr} :
      Expr.Renamed r marks e e' → Expr.RenamedOption r marks (some e) (some e')

inductive Stmt.Renamed (r : Renaming) : List Bool → Stmt → Stmt → Prop
  | exprStmt {marks : List Bool} {s : Span} {e e' : Expr} :
      Expr.Renamed r marks e e' → Stmt.Renamed r marks (.exprStmt s e) (.exprStmt s e')
  | printStmt {marks : List Bool} {s : Span} {e e' : Expr} :
      Expr.Renamed r marks e e' → Stmt.Renamed r marks (.printStmt s e) (.printStmt s e')
  | varDecl {marks : List Bool} {s : Span} {n : Text} {e e' : Option Expr} :
      r.Allows marks n → Expr.RenamedOption r marks e e' →
      Stmt.Renamed r marks (.varDecl s n e) (.varDecl s (r.apply (Renaming.here marks) n) e')
  | block {marks : List Bool} {s : Span} {body body' : List Stmt} (here : Bool) :
      Stmt.RenamedAll r (here :: marks) body body' →
      Stmt.Renamed r marks (.block s body) (.block s body')
  | ifThen {marks : List Bool} {s : Span} {c c' : Expr} {a a' : Stmt} :
      Expr.Renamed r marks c c' → Stmt.Renamed r marks a a' →
      Stmt.Renamed r marks (.ifStmt s c a none) (.ifStmt s c' a' none)
  | ifElse {marks : List Bool} {s : Span} {c c' : Expr} {a a' b b' : Stmt} :
      Expr.Renamed r marks c c' → Stmt.Renamed r marks a a' → Stmt.Renamed r marks b b' →
      Stmt.Renamed r marks (.ifStmt s c a (some b)) (.ifStmt s c' a' (some b'))
  | whileStmt {marks : List Bool} {s : Span} {c c' : Expr} {b b' : Stmt} :
      Expr.Renamed r marks c c' → Stmt.Renamed r marks b b' →
      Stmt.Renamed r marks (.whileStmt s c b) (.whileStmt s c' b')
  | forStmt {marks : List Bool} {s : Span} {c c' i i' : Option Expr} {b b' : Stmt} (round : Bool) :
      Expr.RenamedOption r marks c c' → Stmt.Renamed r (round :: marks) b b' →
      Expr.RenamedOption r (round :: marks) i i' →
      Stmt.Renamed r marks (.forStmt s none c i b) (.forStmt s none c' i' b')
  | forInit {marks : List Bool} {s : Span} {init init' : Stmt}
      {c c' i i' : Option Expr} {b b' : Stmt} (outer round : Bool) :
      Stmt.Renamed r (outer :: marks) init init' → Expr.RenamedOption r (outer :: marks) c c' →
      Stmt.Renamed r (round :: outer :: marks) b b' →
      Expr.RenamedOption r (round :: outer :: marks) i i' →
      Stmt.Renamed r marks (.forStmt s (some init) c i b) (.forStmt s (some init') c' i' b')
  | breakStmt {marks : List Bool} {s : Span} : Stmt.Renamed r marks (.breakStmt s) (.breakStmt s)
  | returnStmt {marks : List Bool} {s : Span} {e e' : Option Expr} :
      Expr.RenamedOption r marks e e' → Stmt.Renamed r marks (.returnStmt s e) (.returnStmt s e')
  | funDecl {marks : List Bool} {d d' : FunDecl} :
      r.Allows marks d.name → r.apply (Renaming.here marks) d.name = d.name →
      FunDecl.Renamed r marks d d' → Stmt.Renamed r marks (.funDecl d) (.funDecl d')
  | classDecl {marks : List Bool} {s : Span} {n : Text} {ms ms' ss ss' : List FunDecl} :
      r.Allows marks n → r.apply (Renaming.here marks) n = n →
      FunDecl.RenamedAll r (false :: marks) ms ms' → FunDecl.RenamedAll r (false :: marks) ss ss' →
      Stmt.Renamed r marks (.classDecl s n none ms ss) (.classDecl s n none ms' ss')
  | subclass {marks : List Bool} {s : Span} {n : Text} {sup : NameUse}
      {ms ms' ss ss' : List FunDecl} :
      r.Allows marks n → r.apply (Renaming.here marks) n = n → r.Allows marks sup.name →
      FunDecl.RenamedAll r (false :: false :: marks) ms ms' →
      FunDecl.RenamedAll r (false :: false :: marks) ss ss' →
      Stmt.Renamed r marks (.classDecl s n (some sup) ms ss)
        (.classDecl s n (some (r.use marks sup)) ms' ss')

inductive Stmt.RenamedAll (r : Renaming) : List Bool → List Stmt → List Stmt → Prop
  | nil {marks : List Bool} : Stmt.RenamedAll r marks [] []
  | cons {marks : List Bool} {s s' : Stmt} {ss ss' : List Stmt} :
      Stmt.Renamed r marks s s' → Stmt.RenamedAll r marks ss ss' →
      Stmt.RenamedAll r marks (s :: ss) (s' :: ss')

inductive FunDecl.Renamed (r : Renaming) : List Bool → FunDecl → FunDecl → Prop
  | mk {marks : List Bool} {s : Span} {n : Text} {ps : List Param} {body body' : List Stmt}
      (here : Bool) :
      (∀ p ∈ ps, r.Allows (here :: marks) p.name) → Stmt.RenamedAll r (here :: marks) body body' →
      FunDecl.Renamed r marks (.mk s n ps body) (.mk s n (ps.map (r.param here)) body')

inductive FunDecl.RenamedAll (r : Renaming) : List Bool → List FunDecl → List FunDecl → Prop
  | nil {marks : List Bool} : FunDecl.RenamedAll r marks [] []
  | cons {marks : List Bool} {d d' : FunDecl} {ds ds' : List FunDecl} :
      FunDecl.Renamed r marks d d' → FunDecl.RenamedAll r marks ds ds' →
      FunDecl.RenamedAll r marks (d :: ds) (d' :: ds')

end

theorem Stmt.Renamed.span {r : Renaming} {marks : List Bool} {s s' : Stmt}
    (h : Stmt.Renamed r marks s s') : s'.span = s.span := by
  cases h with
  | funDecl _ _ hd =>
    cases hd
    rfl
  | _ => rfl

namespace Renaming

variable {r : Renaming}

theorem apply_false (n : Text) : r.apply false n = n := if_neg (by simp)

theorem apply_of_ne {b : Bool} {n : Text} (h : b = true → n ≠ r.old) : r.apply b n = n :=
  if_neg fun hn => h hn.1 hn.2

theorem apply_inj {here : Bool} {n m : Text} (hn : here = true → n ≠ r.new)
    (hm : here = true → m ≠ r.new) : r.apply here n = r.apply here m ↔ n = m := by
  cases here with
  | false => rw [apply_false, apply_false]
  | true =>
    unfold apply
    have hn := hn rfl
    have hm := hm rfl
    by_cases hn' : n = r.old <;> by_cases hm' : m = r.old <;> simp only [hn', hm', and_self,
      if_true, if_false, and_false]
    · exact ⟨fun h => absurd h.symm hm, fun h => absurd h.symm hm'⟩
    · exact ⟨fun h => absurd h hn, False.elim⟩

theorem mem_map_apply {b : Bool} {n : Text} {names : List Text} (hn : b = true → n ≠ r.new)
    (hnames : b = true → r.new ∉ names) : r.apply b n ∈ names.map (r.apply b) ↔ n ∈ names := by
  rw [List.mem_map]
  constructor
  · rintro ⟨m, hm, heq⟩
    have hmn := (apply_inj (fun hb hnew => hnames hb (hnew ▸ hm)) hn).1 heq
    exact hmn ▸ hm
  · exact fun hmem => ⟨n, hmem, rfl⟩

theorem ne_keyword (r : Renaming) (k : Keyword) : r.old ≠ k.spelling ∧ r.new ≠ k.spelling :=
  ⟨r.old_isName.ne_keyword k, r.new_isName.ne_keyword k⟩

theorem apply_keyword (b : Bool) (k : Keyword) : r.apply b k.spelling = k.spelling :=
  apply_of_ne fun _ => (r.ne_keyword k).1.symm

theorem allows_keyword (marks : List Bool) (k : Keyword) : r.Allows marks k.spelling :=
  fun _ => (r.ne_keyword k).2.symm

theorem param_false (ps : List Param) : ps.map (r.param false) = ps := by
  have hparam : r.param false = id := by
    funext p
    unfold param
    rw [apply_false]
    rfl
  rw [hparam, List.map_id]

theorem mem_of_here {marks : List Bool} (h : here marks = true) : true ∈ marks := by
  cases marks with
  | nil => cases h
  | cons b marks =>
    have hb : b = true := h
    exact hb ▸ .head _

theorem mem_of_reaches {marks : List Bool} {hops : Option Int} (h : reaches marks hops = true) :
    true ∈ marks := by
  cases hops with
  | none => cases h
  | some d =>
    have hmark : marks[d.toNat]?.getD false = true := h
    cases hd : marks[d.toNat]? with
    | none =>
      rw [hd] at hmark
      cases hmark
    | some b =>
      rw [hd] at hmark
      have hb : b = true := hmark
      exact List.mem_of_getElem? (hb ▸ hd)

/-! ### Where no scope around is renamed -/

section

variable {marks : List Bool} (h : true ∉ marks)
include h

private theorem apply_unmarked (n : Text) : r.apply (here marks) n = n :=
  apply_of_ne fun hhere => absurd (mem_of_here hhere) h

private theorem use_unmarked (u : NameUse) : r.use marks u = u := by
  unfold use
  rw [apply_of_ne fun hreaches => absurd (mem_of_reaches hreaches) h]

private theorem unmarked_cons : true ∉ false :: marks := by simpa using h

end

mutual

theorem expr_refl {marks : List Bool} (h : true ∉ marks) (e : Expr) : Expr.Renamed r marks e e := by
  have hmem : ∀ n, r.Allows marks n := fun n hmem => absurd hmem h
  cases e with
  | literal s v => exact .literal
  | grouping s e => exact .grouping (expr_refl h e)
  | unary s op e => exact .unary (expr_refl h e)
  | binary s op a b => exact .binary (expr_refl h a) (expr_refl h b)
  | logical s op a b => exact .logical (expr_refl h a) (expr_refl h b)
  | conditional s c a b => exact .conditional (expr_refl h c) (expr_refl h a) (expr_refl h b)
  | name u =>
    have hname := Expr.Renamed.name (hmem u.name)
    rwa [use_unmarked h] at hname
  | assign target e =>
    have hassign := Expr.Renamed.assign (hmem target.name) (expr_refl h e)
    rwa [use_unmarked h] at hassign
  | call s f args => exact .call (expr_refl h f) (exprs_refl h args)
  | get s o n => exact .get (expr_refl h o)
  | set s o n e => exact .set (expr_refl h o) (expr_refl h e)
  | this s hops => exact .this
  | super s m hops => exact .super
  | lambda s ps body =>
    have hparams : ∀ p ∈ ps, r.Allows (false :: marks) p.name :=
      fun p _ hmem => absurd hmem (unmarked_cons h)
    have hlambda := Expr.Renamed.lambda (s := s) false hparams (stmts_refl (unmarked_cons h) body)
    rwa [param_false] at hlambda

theorem exprs_refl {marks : List Bool} (h : true ∉ marks) (es : List Expr) :
    Expr.RenamedAll r marks es es := by
  cases es with
  | nil => exact .nil
  | cons e es => exact .cons (expr_refl h e) (exprs_refl h es)

theorem clause_refl {marks : List Bool} (h : true ∉ marks) (c : Option Expr) :
    Expr.RenamedOption r marks c c := by
  cases c with
  | none => exact .none
  | some e => exact .some (expr_refl h e)

theorem stmt_refl {marks : List Bool} (h : true ∉ marks) (s : Stmt) : Stmt.Renamed r marks s s := by
  have hmem : ∀ n, r.Allows marks n := fun n hmem => absurd hmem h
  have h' := unmarked_cons h
  have h'' := unmarked_cons h'
  cases s with
  | exprStmt s e => exact .exprStmt (expr_refl h e)
  | printStmt s e => exact .printStmt (expr_refl h e)
  | varDecl s n e =>
    have hvar := Stmt.Renamed.varDecl (s := s) (hmem n) (clause_refl h e)
    rwa [apply_unmarked h] at hvar
  | block s body => exact .block false (stmts_refl h' body)
  | ifStmt s c a b =>
    cases b with
    | none => exact .ifThen (expr_refl h c) (stmt_refl h a)
    | some b => exact .ifElse (expr_refl h c) (stmt_refl h a) (stmt_refl h b)
  | whileStmt s c b => exact .whileStmt (expr_refl h c) (stmt_refl h b)
  | forStmt s init c i b =>
    cases init with
    | none => exact .forStmt false (clause_refl h c) (stmt_refl h' b) (clause_refl h' i)
    | some init =>
      exact .forInit false false (stmt_refl h' init) (clause_refl h' c) (stmt_refl h'' b)
        (clause_refl h'' i)
  | breakStmt s => exact .breakStmt
  | returnStmt s e => exact .returnStmt (clause_refl h e)
  | funDecl d => exact .funDecl (hmem _) (apply_unmarked h _) (function_refl h d)
  | classDecl s n sup ms ss =>
    cases sup with
    | none =>
      exact .classDecl (hmem _) (apply_unmarked h _) (functions_refl h' ms) (functions_refl h' ss)
    | some sup =>
      have hclass := Stmt.Renamed.subclass (s := s) (hmem n) (apply_unmarked h n) (hmem sup.name)
        (functions_refl h'' ms) (functions_refl h'' ss)
      rwa [use_unmarked h] at hclass

theorem stmts_refl {marks : List Bool} (h : true ∉ marks) (ss : List Stmt) :
    Stmt.RenamedAll r marks ss ss := by
  cases ss with
  | nil => exact .nil
  | cons s ss => exact .cons (stmt_refl h s) (stmts_refl h ss)

theorem function_refl {marks : List Bool} (h : true ∉ marks) (d : FunDecl) :
    FunDecl.Renamed r marks d d := by
  cases d with
  | mk s n ps body =>
    have hparams : ∀ p ∈ ps, r.Allows (false :: marks) p.name :=
      fun p _ hmem => absurd hmem (unmarked_cons h)
    have hfunction := FunDecl.Renamed.mk (s := s) (n := n) false hparams
      (stmts_refl (unmarked_cons h) body)
    rwa [param_false] at hfunction

theorem functions_refl {marks : List Bool} (h : true ∉ marks) (ds : List FunDecl) :
    FunDecl.RenamedAll r marks ds ds := by
  cases ds with
  | nil => exact .nil
  | cons d ds => exact .cons (function_refl h d) (functions_refl h ds)

end

/-! ### Renaming the scope with a number -/

/-- In a piece the new name does not occur, and the scope with the number has no function or class
with the old one. -/
structure Suits (r : Renaming) (k : Nat) (names : List Text) (scopes : List LocalScope) : Prop where
  fresh : r.new ∉ names
  definitions : ∀ (i : Nat) (sc : LocalScope), scopes[i]? = some sc → r.picks (k + i) = true →
    r.old ∉ sc.definitions

namespace Suits

variable {k : Nat} {names names' : List Text} {scopes scopes' : List LocalScope}

private theorem left (h : r.Suits k (names ++ names') (scopes ++ scopes')) :
    r.Suits k names scopes where
  fresh hmem := h.fresh (List.mem_append_left _ hmem)
  definitions i sc hsc := by
    have hi : i < scopes.length := (List.getElem?_eq_some_iff.1 hsc).1
    exact h.definitions i sc (by rwa [List.getElem?_append_left hi])

private theorem right (h : r.Suits k (names ++ names') (scopes ++ scopes')) :
    r.Suits (k + scopes.length) names' scopes' where
  fresh hmem := h.fresh (List.mem_append_right _ hmem)
  definitions i sc hsc hpicks := by
    refine h.definitions (scopes.length + i) sc ?_ (by rwa [← Nat.add_assoc])
    rw [List.getElem?_append_right (Nat.le_add_right ..), Nat.add_sub_cancel_left]
    exact hsc

private theorem inner {sc : LocalScope} (h : r.Suits k names (sc :: scopes)) :
    r.Suits (k + 1) names scopes where
  fresh := h.fresh
  definitions i sc' hsc hpicks := by
    refine h.definitions (i + 1) sc' hsc ?_
    rwa [Nat.add_comm i, ← Nat.add_assoc]

private theorem first {sc : LocalScope} (h : r.Suits k names (sc :: scopes))
    (hpicks : r.picks k = true) :
    r.old ∉ sc.definitions := h.definitions 0 sc rfl hpicks

private theorem single {s : Stmt} (h : r.Suits k names (.of [] [s] :: scopes))
    (hpicks : r.picks k = true) :
    r.old ∉ s.definitions := by
  have hfirst : r.old ∉ [s].flatMap Stmt.definitions := h.first hpicks
  rwa [List.flatMap_singleton] at hfirst

private theorem mono (h : r.Suits k names scopes) (hsub : names' ⊆ names) :
    r.Suits k names' scopes :=
  ⟨fun hmem => h.fresh (hsub hmem), h.definitions⟩

private theorem allows (h : r.Suits k names scopes) {n : Text}
    (hn : n ∈ names) (marks : List Bool) :
    r.Allows marks n := by
  rintro - rfl
  exact h.fresh hn

private theorem params {ps : List Param} (h : r.Suits k (ps.map Param.name ++ names) scopes)
    (marks : List Bool) : ∀ p ∈ ps, r.Allows marks p.name :=
  fun _ hp => h.allows (List.mem_append_left _ (List.mem_map_of_mem hp)) marks

end Suits

mutual

theorem expr_renamed {k : Nat} (marks : List Bool) {e : Expr} (h : r.Suits k e.names e.scopes) :
    Expr.Renamed r marks e (r.expr k marks e) := by
  cases e with
  | literal s v => exact .literal
  | grouping s e => exact .grouping (expr_renamed marks h)
  | unary s op e => exact .unary (expr_renamed marks h)
  | binary s op a b => exact .binary (expr_renamed marks h.left) (expr_renamed marks h.right)
  | logical s op a b => exact .logical (expr_renamed marks h.left) (expr_renamed marks h.right)
  | conditional s c a b =>
    exact .conditional (expr_renamed marks h.left) (expr_renamed marks h.right.left)
      (expr_renamed marks h.right.right)
  | name u => exact .name (h.allows (.head _) marks)
  | assign target e =>
    exact .assign (h.allows (.head _) marks)
      (expr_renamed marks (h.mono (List.subset_cons_self ..)))
  | call s f args => exact .call (expr_renamed marks h.left) (exprs_renamed marks h.right)
  | get s o n => exact .get (expr_renamed marks h)
  | set s o n e => exact .set (expr_renamed marks h.left) (expr_renamed marks h.right)
  | this s hops => exact .this
  | super s m hops => exact .super
  | lambda s ps body =>
    exact .lambda _ (h.params _) (stmts_renamed _
      (h.inner.mono (List.subset_append_right ..)) h.first)

theorem exprs_renamed {k : Nat} (marks : List Bool) {es : List Expr}
    (h : r.Suits k (Expr.namesAll es) (Expr.scopesAll es)) :
    Expr.RenamedAll r marks es (r.exprs k marks es) := by
  cases es with
  | nil => exact .nil
  | cons e es => exact .cons (expr_renamed marks h.left) (exprs_renamed marks h.right)

theorem clause_renamed {k : Nat} (marks : List Bool) {c : Option Expr}
    (h : r.Suits k (Expr.namesOption c) (Expr.scopesOption c)) :
    Expr.RenamedOption r marks c (r.clause k marks c) := by
  cases c with
  | none => exact .none
  | some e => exact .some (expr_renamed marks h)

theorem stmt_renamed {k : Nat} (marks : List Bool) {s : Stmt} (h : r.Suits k s.names s.scopes)
    (hdefinitions : here marks = true → r.old ∉ s.definitions) :
    Stmt.Renamed r marks s (r.stmt k marks s) := by
  cases s with
  | exprStmt s e => exact .exprStmt (expr_renamed marks h)
  | printStmt s e => exact .printStmt (expr_renamed marks h)
  | varDecl s n e =>
    exact .varDecl (h.allows (.head _) marks)
      (clause_renamed marks (h.mono (List.subset_cons_self ..)))
  | block s body => exact .block _ (stmts_renamed _ h.inner h.first)
  | ifStmt s c a b =>
    cases b with
    | none => exact .ifThen (expr_renamed marks h.left) (stmt_renamed marks h.right hdefinitions)
    | some b =>
      exact .ifElse (expr_renamed marks h.left)
        (stmt_renamed marks h.right.left fun hhere hmem =>
          hdefinitions hhere (List.mem_append_left _ hmem))
        (stmt_renamed marks h.right.right fun hhere hmem =>
          hdefinitions hhere (List.mem_append_right _ hmem))
  | whileStmt s c b =>
    exact .whileStmt (expr_renamed marks h.left) (stmt_renamed marks h.right hdefinitions)
  | forStmt s init c i b =>
    cases init with
    | none =>
      have hround := h.right.inner
      exact .forStmt _ (clause_renamed marks h.left)
        (stmt_renamed _ hround.left h.right.single) (clause_renamed _ hround.right)
    | some init =>
      have hinside := h.inner.right
      have hround := hinside.right.inner
      exact .forInit _ _ (stmt_renamed _ h.inner.left h.single) (clause_renamed _ hinside.left)
        (stmt_renamed _ hround.left hinside.right.single) (clause_renamed _ hround.right)
  | breakStmt s => exact .breakStmt
  | returnStmt s e => exact .returnStmt (clause_renamed marks h)
  | funDecl d =>
    exact .funDecl (h.allows (.head _) marks)
      (apply_of_ne fun hhere hname => hdefinitions hhere (hname ▸ .head _))
      (function_renamed marks (h.mono (List.subset_cons_self ..)))
  | classDecl s n sup ms ss =>
    have hname : r.apply (here marks) n = n :=
      apply_of_ne fun hhere hname => hdefinitions hhere (hname ▸ .head _)
    cases sup with
    | none =>
      have hms := h.mono (List.subset_cons_self ..)
      exact .classDecl (h.allows (.head _) marks) hname (functions_renamed _ hms.left)
        (functions_renamed _ hms.right)
    | some sup =>
      have hms := h.mono (List.Subset.trans (List.subset_cons_self ..) (List.subset_cons_self ..))
      exact .subclass (h.allows (.head _) marks) hname (h.allows (.tail _ (.head _)) marks)
        (functions_renamed _ hms.left) (functions_renamed _ hms.right)

private theorem stmts_renamed {k : Nat} (marks : List Bool) {ss : List Stmt}
    (h : r.Suits k (Stmt.namesAll ss) (Stmt.scopesAll ss))
    (hdefinitions : here marks = true → r.old ∉ ss.flatMap Stmt.definitions) :
    Stmt.RenamedAll r marks ss (r.stmts k marks ss) := by
  cases ss with
  | nil => exact .nil
  | cons s ss =>
    rw [List.flatMap_cons] at hdefinitions
    exact .cons
      (stmt_renamed marks h.left fun hhere hmem => hdefinitions hhere (List.mem_append_left _ hmem))
      (stmts_renamed marks h.right fun hhere hmem =>
        hdefinitions hhere (List.mem_append_right _ hmem))

theorem function_renamed {k : Nat} (marks : List Bool) {d : FunDecl}
    (h : r.Suits k d.names d.scopes) :
    FunDecl.Renamed r marks d (r.function k marks d) := by
  cases d with
  | mk s n ps body =>
    exact .mk _ (h.params _) (stmts_renamed _ (h.inner.mono (List.subset_append_right ..)) h.first)

theorem functions_renamed {k : Nat} (marks : List Bool) {ds : List FunDecl}
    (h : r.Suits k (FunDecl.namesAll ds) (FunDecl.scopesAll ds)) :
    FunDecl.RenamedAll r marks ds (r.functions k marks ds) := by
  cases ds with
  | nil => exact .nil
  | cons d ds => exact .cons (function_renamed marks h.left) (functions_renamed marks h.right)

end

theorem program_renamed {p : Program} {scope : LocalScope}
    (hscope : (Stmt.scopesAll p.body)[r.scope]? = some scope) (hold : r.old ∉ scope.definitions)
    (hnew : r.new ∉ Stmt.namesAll p.body) : Stmt.RenamedAll r [] p.body (r.program p).body := by
  have hsuits : r.Suits 0 (Stmt.namesAll p.body) (Stmt.scopesAll p.body) := by
    refine ⟨hnew, fun i scope' hscope' hpicked => ?_⟩
    have hi : 0 + i = r.scope := beq_iff_eq.1 hpicked
    rw [Nat.zero_add] at hi
    rw [hi, hscope] at hscope'
    cases hscope'
    exact hold
  exact stmts_renamed [] hsuits nofun

end Renaming
end Lox
