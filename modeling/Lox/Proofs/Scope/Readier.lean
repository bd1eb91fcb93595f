import Lox.Proofs.Scope.Resolution

set_option autoImplicit false
set_option relaxedAutoImplicit false

namespace Lox

namespace Scope

theorem ready?_define (s : Scope) (name n : Text) :
    (s.define name).ready? n = if n = name then some true else s.ready? n := by
  unfold define ready?
  rw [List.lookup_cons]
  by_cases h : n = name
  · simp [h]
  · simp [h, beq_false_of_ne h]

theorem ready?_declare (s : Scope) (name n : Text) :
    (s.declare name).ready? n =
      if n = name ∧ s.ready? name ≠ some true then some false else s.ready? n := by
  unfold declare
  by_cases hready : s.ready? name = some true
  · simp [hready]
  · rw [if_neg hready]
    by_cases h : n = name
    · rw [if_pos ⟨h, hready⟩, h]
      simp [ready?]
    · simp [h, beq_false_of_ne h, ready?, List.lookup_cons]

/-- A name is as ready in the second scope as in the first, or it is ready there. -/
def Readier (s t : Scope) : Prop := ∀ n, t.ready? n = s.ready? n ∨ t.ready? n = some true

namespace Readier

variable {s t : Scope}

private theorem define (h : s.Readier t) (name : Text) :
    (s.define name).Readier (t.define name) := by
  intro n
  rw [ready?_define, ready?_define]
  split
  · exact .inl rfl
  · exact h n

private theorem declare (h : s.Readier t) (name : Text) :
    (s.declare name).Readier (t.declare name) := by
  intro n
  rw [ready?_declare, ready?_declare]
  obtain hsame | hready := h name
  · rw [hsame]
    split
    · exact .inl rfl
    · exact h n
  · by_cases hn : n = name
    · subst hn
      simp [hready]
    · simpa [hn] using h n

end Readier
end Scope

namespace Scopes

theorem ready?_top (bound : List Text) (n : Text) :
    (Scopes.top bound).globals.ready? n = if n ∈ bound then some true else none := by
  unfold Scopes.top Scope.ready?
  dsimp only
  induction bound with
  | nil => rfl
  | cons k r ih =>
    rw [List.map_cons, List.lookup_cons, ih]
    by_cases h : n = k
    · simp [h]
    · simp [h, beq_false_of_ne h]

structure Readier (env env' : Scopes) : Prop where
  locals : env.locals = env'.locals
  globals : env.globals.Readier env'.globals

namespace Readier

variable {env env' : Scopes}

private theorem push (h : env.Readier env') (s : Scope) : (env.push s).Readier (env'.push s) :=
  ⟨congrArg (s :: ·) h.locals, h.globals⟩

private theorem update (h : env.Readier env') {f : Scope → Scope}
    (hf : ∀ s t : Scope, s.Readier t → (f s).Readier (f t)) :
    (env.update f).Readier (env'.update f) := by
  unfold Scopes.update
  rw [← h.locals]
  split
  · exact ⟨rfl, hf _ _ h.globals⟩
  · exact ⟨rfl, h.globals⟩

private theorem declare (h : env.Readier env') (name : Text) :
    (env.declare name).Readier (env'.declare name) :=
  h.update fun _ _ hst => hst.declare name

private theorem define (h : env.Readier env') (name : Text) :
    (env.define name).Readier (env'.define name) :=
  h.update fun _ _ hst => hst.define name

theorem top {bound bound' : List Text} (h : bound ⊆ bound') :
    (Scopes.top bound).Readier (.top bound') := by
  refine ⟨rfl, fun n => ?_⟩
  rw [ready?_top, ready?_top]
  by_cases hn : n ∈ bound'
  · exact .inr (if_pos hn)
  · exact .inl (by rw [if_neg hn, if_neg fun hmem => hn (h hmem)])

end Readier
end Scopes

/-! ### What is found less -/

/-- The second list is the first without some reads of a name in its own initial value. -/
inductive Diagnostic.Spares : List Diagnostic → List Diagnostic → Prop
  | nil : Spares [] []
  | keep {ds ds' : List Diagnostic} (d : Diagnostic) : Spares ds ds' → Spares (d :: ds) (d :: ds')
  | drop {ds ds' : List Diagnostic} (d : Diagnostic) :
      d.code = .selfInit → Spares ds ds' → Spares (d :: ds) ds'

namespace Diagnostic.Spares

variable {ds ds' es es' : List Diagnostic}

private theorem refl (ds : List Diagnostic) : Spares ds ds := by
  induction ds with
  | nil => exact .nil
  | cons d ds ih => exact ih.keep d

private theorem append (h : Spares ds ds') (h' : Spares es es') :
    Spares (ds ++ es) (ds' ++ es') := by
  induction h with
  | nil => exact h'
  | keep d _ ih => exact ih.keep d
  | drop d hd _ ih => exact ih.drop d hd

theorem sublist (h : Spares ds ds') : ds'.Sublist ds := by
  induction h with
  | nil => exact .slnil
  | keep d _ ih => exact ih.cons_cons d
  | drop d _ _ ih => exact ih.cons d

end Diagnostic.Spares

namespace Checked

variable {α β : Type}

structure Eases (R : α → α → Prop) (x y : Checked α) : Prop where
  value : R x.value y.value
  found : Diagnostic.Spares x.found y.found

/-- Results with the same tree, and scopes of which the second have more globals that are ready. -/
def Follows (a b : α × Scopes) : Prop := a.1 = b.1 ∧ a.2.Readier b.2

namespace Eases

variable {R : α → α → Prop} {S : β → β → Prop}

private theorem pure {a b : α} (h : R a b) : Eases R (Pure.pure a : Checked α) (Pure.pure b) :=
  ⟨h, .nil⟩

private theorem bind {x y : Checked α} (h : x.Eases R y) {k k' : α → Checked β}
    (hk : ∀ a b, R a b → (k a).Eases S (k' b)) : (x >>= k).Eases S (y >>= k') :=
  ⟨(hk _ _ h.value).value, h.found.append (hk _ _ h.value).found⟩

private theorem bind_eq {x y : Checked α} (h : x.Eases Eq y) {k k' : α → Checked β}
    (hk : ∀ a, (k a).Eases S (k' a)) : (x >>= k).Eases S (y >>= k') :=
  h.bind fun a _ hab => hab ▸ hk a

private theorem bind_scopes {x y : Checked (α × Scopes)} (h : x.Eases Follows y)
    {k k' : α × Scopes → Checked β}
    (hk : ∀ a env env', env.Readier env' → (k (a, env)).Eases S (k' (a, env'))) :
    (x >>= k).Eases S (y >>= k') := by
  refine h.bind ?_
  rintro ⟨a, env⟩ ⟨b, env'⟩ ⟨rfl, henv⟩
  exact hk a env env' henv

private theorem after (x : Checked α) {k k' : α → Checked β} (hk : ∀ a, (k a).Eases S (k' a)) :
    (x >>= k).Eases S (x >>= k') :=
  bind_eq ⟨rfl, .refl _⟩ hk

end Eases
end Checked

namespace Resolve

open Checked

private theorem reportIf_eases (bad : Bool) {v : Violation}
    (hv : v.code = .selfInit) (span : Span) :
    (reportIf bad v span).Eases Eq (reportIf false v span) := by
  cases bad with
  | false => exact ⟨rfl, .nil⟩
  | true => exact ⟨rfl, .drop _ hv .nil⟩

/-- A read of a global whose initial value is being computed is no violation if the global is ready.
-/
theorem occurrence_eases (at_ : Surroundings) {env env' : Scopes}
    (h : env.Readier env') (name : Text) (span : Span) (isRead : Bool) :
    (occurrence at_ env name span isRead).Eases Eq (occurrence at_ env' name span isRead) := by
  unfold occurrence
  rw [h.locals]
  split
  · exact .after _ fun _ => .pure rfl
  · obtain hsame | hready := h.globals name
    · rw [hsame]
      exact .after _ fun _ => .pure rfl
    · have hnone : (isRead && env'.globals.ready? name == some false && at_.funs == 0) = false := by
        simp [hready]
      rw [hnone]
      exact (reportIf_eases _ rfl span).bind_eq fun _ => .pure rfl

private theorem nameUse_eases (at_ : Surroundings) {env env' : Scopes}
    (h : env.Readier env') (use : NameUse) :
    (nameUse at_ env use).Eases Eq (nameUse at_ env' use) :=
  (occurrence_eases at_ h _ _ _).bind_eq fun _ => .pure rfl

private theorem inside_readier {env env' : Scopes} (h : env.Readier env')
    (funs : Nat) (ps : List Param) :
    (inside env funs ps).Readier (inside env' funs ps) := h.push _

private theorem aroundMethods_readier {env env' : Scopes} (h : env.Readier env')
    (funs : Nat) (derived : Bool) :
    (aroundMethods env funs derived).Readier (aroundMethods env' funs derived) := by
  unfold aroundMethods
  cases derived with
  | true => exact (h.push _).push _
  | false => exact h.push _

mutual

theorem expr_eases (at_ : Surroundings) {env env' : Scopes} (h : env.Readier env') (e : Expr) :
    (expr at_ env e).Eases Eq (expr at_ env' e) := by
  cases e with
  | literal s v => exact .pure rfl
  | grouping s e =>
    rw [expr, expr]
    exact (expr_eases at_ h e).bind_eq fun _ => .pure rfl
  | unary s op e =>
    rw [expr, expr]
    exact (expr_eases at_ h e).bind_eq fun _ => .pure rfl
  | binary s op a b | logical s op a b =>
    rw [expr, expr]
    exact (expr_eases at_ h a).bind_eq fun _ => (expr_eases at_ h b).bind_eq fun _ => .pure rfl
  | conditional s c a b =>
    rw [expr, expr]
    exact (expr_eases at_ h c).bind_eq fun _ => (expr_eases at_ h a).bind_eq fun _ =>
      (expr_eases at_ h b).bind_eq fun _ => .pure rfl
  | name use =>
    rw [expr, expr]
    exact (nameUse_eases at_ h use).bind_eq fun _ => .pure rfl
  | assign target e =>
    rw [expr, expr]
    exact (expr_eases at_ h e).bind_eq fun _ =>
      (occurrence_eases at_ h _ _ _).bind_eq fun _ => .pure rfl
  | call s f args =>
    rw [expr, expr]
    exact (expr_eases at_ h f).bind_eq fun _ => (exprs_eases at_ h args).bind_eq fun _ => .pure rfl
  | get s o n =>
    rw [expr, expr]
    exact (expr_eases at_ h o).bind_eq fun _ => .pure rfl
  | set s o n e =>
    rw [expr, expr]
    exact (expr_eases at_ h e).bind_eq fun _ => (expr_eases at_ h o).bind_eq fun _ => .pure rfl
  | this s hops =>
    rw [expr, expr]
    split
    · exact .after _ fun _ => .pure rfl
    · exact (occurrence_eases at_ h _ _ _).bind_eq fun _ => .pure rfl
  | super s m hops =>
    rw [expr, expr]
    split
    · exact .after _ fun _ => .pure rfl
    · exact .after _ fun _ => .pure rfl
    · exact (occurrence_eases at_ h _ _ _).bind_eq fun _ => .pure rfl
  | lambda s ps body =>
    rw [expr, expr]
    exact .after _ fun _ => (stmts_eases _ (inside_readier h _ ps) body).bind_scopes
      fun _ _ _ _ => .pure rfl

theorem exprs_eases (at_ : Surroundings) {env env' : Scopes}
    (h : env.Readier env') (es : List Expr) :
    (exprs at_ env es).Eases Eq (exprs at_ env' es) := by
  cases es with
  | nil => exact .pure rfl
  | cons e r =>
    rw [exprs, exprs]
    exact (expr_eases at_ h e).bind_eq fun _ => (exprs_eases at_ h r).bind_eq fun _ => .pure rfl

theorem clause_eases (at_ : Surroundings) {env env' : Scopes} (h : env.Readier env')
    (c : Option Expr) : (clause at_ env c).Eases Eq (clause at_ env' c) := by
  cases c with
  | none => exact .pure rfl
  | some e =>
    rw [clause, clause]
    exact (expr_eases at_ h e).bind_eq fun _ => .pure rfl

theorem stmt_eases (at_ : Surroundings) {env env' : Scopes} (h : env.Readier env') (s : Stmt) :
    (stmt at_ env s).Eases Follows (stmt at_ env' s) := by
  cases s with
  | exprStmt s e | printStmt s e =>
    rw [stmt, stmt]
    exact (expr_eases at_ h e).bind_eq fun _ => .pure ⟨rfl, h⟩
  | varDecl s n init =>
    rw [stmt, stmt]
    exact (clause_eases at_ (h.declare n) init).bind_eq fun _ => .pure ⟨rfl, (h.declare n).define n⟩
  | block s body =>
    rw [stmt, stmt]
    exact (stmts_eases at_ (h.push _) body).bind_scopes fun _ _ _ _ => .pure ⟨rfl, h⟩
  | ifStmt s c a b =>
    cases b with
    | none =>
      rw [stmt, stmt]
      exact (expr_eases at_ h c).bind_eq fun _ =>
        (stmt_eases at_ h a).bind_scopes fun _ _ _ ha => .pure ⟨rfl, ha⟩
    | some b =>
      rw [stmt, stmt]
      exact (expr_eases at_ h c).bind_eq fun _ => (stmt_eases at_ h a).bind_scopes fun _ _ _ ha =>
        (stmt_eases at_ ha b).bind_scopes fun _ _ _ hb => .pure ⟨rfl, hb⟩
  | whileStmt s c b =>
    rw [stmt, stmt]
    exact (expr_eases at_ h c).bind_eq fun _ =>
      (stmt_eases _ h b).bind_scopes fun _ _ _ hb => .pure ⟨rfl, hb⟩
  | forStmt s init c i b =>
    cases init with
    | none =>
      rw [stmt, stmt]
      exact (clause_eases at_ h c).bind_eq fun _ =>
        (stmt_eases { at_ with inLoop := true } (h.push _) b).bind_scopes fun _ _ _ hb =>
          (clause_eases _ hb i).bind_eq fun _ => .pure ⟨rfl, h⟩
    | some init =>
      rw [stmt, stmt]
      exact (stmt_eases at_ (h.push _) init).bind_scopes fun _ _ _ hinit =>
        (clause_eases at_ hinit c).bind_eq fun _ =>
          (stmt_eases { at_ with inLoop := true } (hinit.push _) b).bind_scopes fun _ _ _ hb =>
            (clause_eases _ hb i).bind_eq fun _ => .pure ⟨rfl, h⟩
  | breakStmt s =>
    rw [stmt, stmt]
    exact .after _ fun _ => .pure ⟨rfl, h⟩
  | returnStmt s e =>
    cases e with
    | none =>
      rw [stmt, stmt]
      exact .after _ fun _ => .pure ⟨rfl, h⟩
    | some e =>
      rw [stmt, stmt]
      exact .after _ fun _ => .after _ fun _ => (expr_eases at_ h e).bind_eq fun _ => .pure ⟨rfl, h⟩
  | funDecl d =>
    have hd := (h.declare d.name).define d.name
    rw [stmt, stmt]
    exact (funDecl_eases at_ hd _ d).bind_eq fun _ => .pure ⟨rfl, hd⟩
  | classDecl s n sup ms ss =>
    have hn := (h.declare n).define n
    cases sup with
    | none =>
      rw [stmt, stmt]
      exact (methods_eases _ (aroundMethods_readier hn _ _) true ms).bind_eq fun _ =>
        (methods_eases _ (aroundMethods_readier hn _ _) false ss).bind_eq fun _ => .pure ⟨rfl, hn⟩
    | some sup =>
      rw [stmt, stmt]
      exact .after _ fun _ => (nameUse_eases _ hn sup).bind_eq fun _ =>
        (methods_eases _ (aroundMethods_readier hn _ _) true ms).bind_eq fun _ =>
          (methods_eases _ (aroundMethods_readier hn _ _) false ss).bind_eq fun _ => .pure ⟨rfl, hn⟩

theorem stmts_eases (at_ : Surroundings) {env env' : Scopes}
    (h : env.Readier env') (ss : List Stmt) :
    (stmts at_ env ss).Eases Follows (stmts at_ env' ss) := by
  cases ss with
  | nil => exact .pure ⟨rfl, h⟩
  | cons s r =>
    rw [stmts, stmts]
    exact (stmt_eases at_ h s).bind_scopes fun _ _ _ hs =>
      (stmts_eases at_ hs r).bind_scopes fun _ _ _ hr => .pure ⟨rfl, hr⟩

theorem funDecl_eases (at_ : Surroundings) {env env' : Scopes} (h : env.Readier env') (kind : Body)
    (d : FunDecl) : (funDecl at_ env kind d).Eases Eq (funDecl at_ env' kind d) := by
  cases d with
  | mk s n ps body =>
    rw [funDecl, funDecl]
    exact .after _ fun _ => (stmts_eases _ (inside_readier h _ ps) body).bind_scopes
      fun _ _ _ _ => .pure rfl

theorem methods_eases (at_ : Surroundings) {env env' : Scopes} (h : env.Readier env')
    (ofInstances : Bool) (ds : List FunDecl) :
    (methods at_ env ofInstances ds).Eases Eq (methods at_ env' ofInstances ds) := by
  cases ds with
  | nil => exact .pure rfl
  | cons d r =>
    rw [methods, methods]
    exact (funDecl_eases at_ h _ d).bind_eq fun _ =>
      (methods_eases at_ h ofInstances r).bind_eq fun _ => .pure rfl

end

end Resolve
end Lox
