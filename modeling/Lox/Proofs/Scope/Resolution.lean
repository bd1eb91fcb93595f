import Lox.Proofs.Grammar.Basic
import Lox.Proofs.Scope.Scoped
import Lox.Scope.Resolve

set_option autoImplicit false
set_option relaxedAutoImplicit false

namespace Lox

open Text (lit)
open Layers

namespace Checked

variable {α β : Type}

@[simp] theorem found_bind (x : Checked α) (f : α → Checked β) :
    (x >>= f).found = x.found ++ (f x.value).found := rfl

@[simp] theorem value_bind (x : Checked α) (f : α → Checked β) :
    (x >>= f).value = (f x.value).value := rfl

@[simp] theorem found_pure (a : α) : (pure a : Checked α).found = [] := rfl

@[simp] theorem value_pure (a : α) : (pure a : Checked α).value = a := rfl

@[simp] theorem found_clean (a : α) : (clean a).found = [] := rfl

@[simp] theorem value_clean (a : α) : (clean a).value = a := rfl

@[simp] theorem found_reportIf (bad : Bool) (v : Violation) (s : Span) :
    (reportIf bad v s).found = [] ↔ bad = false := by
  cases bad <;> simp [reportIf]

end Checked

namespace Scope

def layer (s : Scope) : Layer := fun n => (s.ready? n).isSome = true

private theorem layer_empty (funs : Nat) : (Scope.empty funs).layer = .empty := by
  funext n
  unfold layer ready? Scope.empty Layer.empty
  simp

private theorem layer_cons (s : Scope) (name : Text) (ready : Bool) :
    ({ s with names := (name, ready) :: s.names } : Scope).layer = fun n =>
      n = name ∨ s.layer n := by
  funext n
  apply propext
  unfold layer ready?
  rw [List.lookup_cons]
  by_cases h : n = name
  · simp [h]
  · have hbeq : (n == name) = false := by simpa using h
    simp [h, hbeq]

private theorem layer_define (s : Scope) (name : Text) :
    (s.define name).layer = fun n => n = name ∨ s.layer n :=
  s.layer_cons name true

private theorem layer_declare (s : Scope) (name : Text) :
    (s.declare name).layer = fun n => n = name ∨ s.layer n := by
  unfold declare
  split
  · rename_i h
    funext n
    apply propext
    constructor
    · exact .inr
    · rintro (rfl | hn)
      · show (s.ready? n).isSome = true
        rw [h]
        rfl
      · exact hn
  · exact s.layer_cons name false

end Scope

namespace Scopes

def layers (env : Scopes) : Layers := env.locals.map Scope.layer

private theorem layers_push (env : Scopes) (s : Scope) :
    (env.push s).layers = s.layer :: env.layers := rfl

private theorem layers_declare (env : Scopes) (name : Text) :
    (env.declare name).layers = Layers.declare name env.layers := by
  unfold Scopes.declare update layers
  split
  · rename_i h
    simp [h, Layers.declare]
  · rename_i s r h
    simp [h, Layers.declare, s.layer_declare]

private theorem layers_define (env : Scopes) (name : Text) :
    (env.define name).layers = Layers.declare name env.layers := by
  unfold Scopes.define update layers
  split
  · rename_i h
    simp [h, Layers.declare]
  · rename_i s r h
    simp [h, Layers.declare, s.layer_define]

private theorem layers_declare_define (env : Scopes) (name : Text) :
    ((env.declare name).define name).layers = Layers.declare name env.layers := by
  rw [layers_define, layers_declare]
  cases env.layers with
  | nil => rfl
  | cons l r =>
    have hsame : (fun n => n = name ∨ (n = name ∨ l n)) = fun n => n = name ∨ l n := by
      funext n
      apply propext
      constructor
      · rintro (h | h)
        · exact .inl h
        · exact h
      · exact .inr
    simp only [Layers.declare, hsame]

private theorem binds_of_locate {name : Text} {locals : List Scope} {hops funs : Nat} {ready : Bool}
    (h : locate name locals = some (hops, ready, funs)) :
    Binds (locals.map Scope.layer) hops name := by
  induction locals generalizing hops ready funs with
  | nil => cases h
  | cons s r ih =>
    rw [locate] at h
    split at h
    · rename_i b hb
      cases h
      exact ⟨s.layer, rfl, Option.isSome_iff_exists.2 ⟨_, hb⟩⟩
    · obtain ⟨⟨d, b, f⟩, hloc, heq⟩ := Option.map_eq_some_iff.1 h
      cases heq
      obtain ⟨l, hl, hn⟩ := ih hloc
      exact ⟨l, hl, hn⟩

def HasSuper (locals : List Scope) : Prop :=
  ∃ hops ready funs s, locate (lit "super") locals = some (hops + 1, ready, funs) ∧
    locals[hops]? = some s ∧ s.layer (lit "this")

private theorem HasSuper.push {locals : List Scope} (h : HasSuper locals) {s : Scope}
    (hs : ¬ s.layer (lit "super")) : HasSuper (s :: locals) := by
  obtain ⟨hops, ready, funs, t, hloc, ht, hthis⟩ := h
  have hnone : s.ready? (lit "super") = none := Option.not_isSome_iff_eq_none.1 hs
  exact ⟨hops + 1, ready, funs, t, by rw [locate, hnone, hloc]; rfl, ht, hthis⟩

private theorem HasSuper.grow {s s' : Scope} {r : List Scope} (h : HasSuper (s :: r))
    (hgrow : ∀ n, s.layer n → s'.layer n) (hs' : ¬ s'.layer (lit "super")) :
    HasSuper (s' :: r) := by
  obtain ⟨hops, ready, funs, t, hloc, ht, hthis⟩ := h
  have hnone' : s'.ready? (lit "super") = none := Option.not_isSome_iff_eq_none.1 hs'
  rw [locate] at hloc
  split at hloc
  · cases hloc
  · refine ⟨hops, ready, funs, if hops = 0 then s' else t, ?_, ?_, ?_⟩
    · rw [locate, hnone', hloc]
    · cases hops with
      | zero => rfl
      | succ n => exact ht
    · cases hops with
      | zero =>
        cases ht
        exact hgrow _ hthis
      | succ n => exact hthis

private theorem HasSuper.update {env : Scopes} {f : Scope → Scope} {name : Text}
    (h : HasSuper env.locals) (hname : name ≠ lit "super")
    (hf : ∀ s, (f s).layer = fun n => n = name ∨ s.layer n) : HasSuper (env.update f).locals := by
  unfold Scopes.update
  split
  · exact h
  · rename_i s r hlocals
    rw [hlocals] at h
    refine h.grow (fun n hn => by rw [hf]; exact .inr hn) ?_
    rw [hf]
    rintro (heq | hsuper)
    · exact hname heq.symm
    · obtain ⟨hops, ready, funs, t, hloc, -⟩ := h
      obtain ⟨b, hb⟩ := Option.isSome_iff_exists.1 hsuper
      rw [locate, hb] at hloc
      cases hloc

end Scopes

def Surroundings.Fits (at_ : Surroundings) (env : Scopes) : Prop :=
  at_.inClass = .derived → Scopes.HasSuper env.locals

def Surroundings.takes (at_ : Surroundings) : Takes :=
  { leaveLoop := at_.inLoop, leaveFunction := at_.body != .script }

namespace Surroundings

variable {at_ : Surroundings} {env : Scopes}

private theorem Fits.declare_define (h : at_.Fits env) {name : Text} (hname : name ≠ lit "super") :
    at_.Fits ((env.declare name).define name) := fun hclass =>
  have hdeclare := (h hclass).update hname (Scope.layer_declare · name)
  hdeclare.update hname (Scope.layer_define · name)

private theorem Fits.declare (h : at_.Fits env) {name : Text} (hname : name ≠ lit "super") :
    at_.Fits (env.declare name) := fun hclass =>
  (h hclass).update hname (Scope.layer_declare · name)

private theorem Fits.push_empty (h : at_.Fits env) (funs : Nat) :
    at_.Fits (env.push (.empty funs)) :=
  fun hclass => (h hclass).push (by rw [Scope.layer_empty]; exact id)

end Surroundings

namespace Resolve

private theorem layer_params (funs : Nat) (ps : List Param) :
    (ps.foldl (fun s p => (s.declare p.name).define p.name) (Scope.empty funs)).layer =
      .ofParams ps := by
  have general : ∀ s : Scope,
      (ps.foldl (fun s p => (s.declare p.name).define p.name) s).layer =
        fun n => s.layer n ∨ Layer.ofParams ps n := by
    induction ps with
    | nil =>
      intro s
      funext n
      simp [Layer.ofParams]
    | cons p ps ih =>
      intro s
      rw [List.foldl_cons, ih]
      funext n
      rw [Scope.layer_define, Scope.layer_declare]
      apply propext
      simp only [Layer.ofParams, List.mem_cons, exists_eq_or_imp]
      constructor
      · rintro ((h | h | h) | h)
        · exact .inr (.inl h.symm)
        · exact .inr (.inl h.symm)
        · exact .inl h
        · exact .inr (.inr h)
      · rintro (h | h | h)
        · exact .inl (.inr (.inr h))
        · exact .inl (.inl h.symm)
        · exact .inr h
  rw [general, Scope.layer_empty]
  funext n
  simp [Layer.empty]

private theorem layers_inside (env : Scopes) (funs : Nat) (ps : List Param) :
    (inside env funs ps).layers = .ofParams ps :: env.layers := by
  rw [inside, Scopes.layers_push, layer_params]

private theorem layer_single (funs : Nat) (name : Text) :
    (single funs name).layer = .single name := by
  rw [single, Scope.layer_define, Scope.layer_empty]
  funext n
  simp [Layer.empty, Layer.single]

private theorem layers_aroundMethods (env : Scopes) (funs : Nat) (derived : Bool) :
    (aroundMethods env funs derived).layers = .single (lit "this") ::
      (if derived then .single (lit "super") :: env.layers else env.layers) := by
  cases derived <;> simp [aroundMethods, Scopes.layers_push, layer_single]

private theorem fits_inside {at_ : Surroundings} {env : Scopes} (h : at_.Fits env)
    (kind : Body) (funs : Nat) {ps : List Param} (hps : ∀ p ∈ ps, p.name ≠ lit "super") :
    (at_.enter kind).Fits (inside env funs ps) := by
  intro hclass
  refine (h hclass).push ?_
  rw [layer_params]
  rintro ⟨p, hp, hname⟩
  exact hps p hp hname

private theorem fits_plain (at_ : Surroundings) (env : Scopes) (funs : Nat) :
    ({ at_ with inClass := .plain } : Surroundings).Fits (aroundMethods env funs false) := nofun

private theorem fits_derived (at_ : Surroundings) (env : Scopes) (funs : Nat) :
    ({ at_ with inClass := .derived } : Surroundings).Fits (aroundMethods env funs true) := by
  intro _
  refine ⟨0, true, funs, single funs (lit "this"), rfl, rfl, ?_⟩
  rw [layer_single]
  rfl

private theorem reaches_occurrence (at_ : Surroundings) (env : Scopes) (name : Text) (span : Span)
    (isRead : Bool) : Reaches env.layers (occurrence at_ env name span isRead).value name := by
  unfold occurrence
  split
  · rename_i hops ready funs hloc
    intro d hd
    cases hd
    exact ⟨hops, rfl, Scopes.binds_of_locate hloc⟩
  · intro d hd
    cases hd

/-- A statement that is accepted is scoped, and the scopes after it are those of the layers. -/
def StmtResolves (s : Stmt) : Prop :=
  ∀ at_ env, Surroundings.Fits at_ env → (stmt at_ env s).found = [] →
    (stmt at_ env s).value.1.Scoped env.layers at_.takes ∧
      (stmt at_ env s).value.2.layers = (stmt at_ env s).value.1.after env.layers ∧
      at_.Fits (stmt at_ env s).value.2

def MethodsResolve (ds : List FunDecl) : Prop :=
  ∀ at_ env ofInstances, Surroundings.Fits at_ env → (methods at_ env ofInstances ds).found = [] →
    FunDecl.ScopedAll env.layers (methods at_ env ofInstances ds).value

def Resolves : Grammar.Node → Prop
  | .expr e => ∀ at_ env, Surroundings.Fits at_ env → (expr at_ env e).found = [] →
      (expr at_ env e).value.Scoped env.layers
  | .exprs es => ∀ at_ env, Surroundings.Fits at_ env → (exprs at_ env es).found = [] →
      Expr.ScopedAll env.layers (exprs at_ env es).value
  | .stmt s => StmtResolves s
  | .stmts ss => ∀ at_ env, Surroundings.Fits at_ env → (stmts at_ env ss).found = [] →
      Stmt.ScopedAll env.layers at_.takes (stmts at_ env ss).value.1
  | .function d => d.name ≠ lit "super" ∧ ∀ at_ env kind, kind ≠ Body.script →
      Surroundings.Fits at_ env → (funDecl at_ env kind d).found = [] →
      (funDecl at_ env kind d).value.Scoped env.layers
  | .members ms ss => MethodsResolve ms ∧ MethodsResolve ss
  | .init none => True
  | .init (some s) => StmtResolves s
  | .clause e => ∀ at_ env, Surroundings.Fits at_ env → (clause at_ env e).found = [] →
      Expr.ScopedOption env.layers (clause at_ env e).value

theorem isDeclaration_stmt (at_ : Surroundings) (env : Scopes) (s : Stmt) :
    (stmt at_ env s).value.1.isDeclaration = s.isDeclaration := by
  cases s with
  | ifStmt s c a b => cases b <;> rfl
  | forStmt s init c i b => cases init <;> rfl
  | returnStmt s e => cases e <;> rfl
  | classDecl s n sup ms ss => cases sup <;> rfl
  | _ => rfl

theorem name_funDecl (at_ : Surroundings) (env : Scopes) (kind : Body) (d : FunDecl) :
    (funDecl at_ env kind d).value.name = d.name := by
  cases d
  rfl

private theorem resolves_body {ps : List Param} {body : List Stmt}
    (hps : ∀ p ∈ ps, p.name ≠ lit "super")
    (h : Resolves (.stmts body)) {at_ : Surroundings} {env : Scopes} (hfits : at_.Fits env)
    {kind : Body} (hkind : kind ≠ .script)
    (hfound : (parameters [] ps).found ++
      ((stmts (at_.enter kind) (inside env (at_.funs + 1) ps) body).found ++ []) = []) :
    Stmt.ScopedAll (.ofParams ps :: env.layers) .inFunction
      (stmts (at_.enter kind) (inside env (at_.funs + 1) ps) body).value.1 := by
  simp only [List.append_nil, List.append_eq_nil_iff] at hfound
  have htakes : (at_.enter kind).takes = .inFunction := by
    cases kind with
    | script => exact absurd rfl hkind
    | function => rfl
    | initializer => rfl
  have hbody := h _ _ (fits_inside hfits kind (at_.funs + 1) hps) hfound.2
  rwa [layers_inside, htakes] at hbody

private theorem resolves_this (s : Span) (hops : Option Int) : Resolves (.expr (.this s hops)) := by
  intro at_ env hfits hfound
  rw [Resolve.expr] at hfound ⊢
  split at hfound
  · simp at hfound
  · exact reaches_occurrence at_ env _ _ _

private theorem resolves_super (s : Span) (m : Text) (hops : Option Int) :
    Resolves (.expr (.super s m hops)) := by
  intro at_ env hfits hfound
  rw [Resolve.expr] at hfound ⊢
  split at hfound
  · simp at hfound
  · simp at hfound
  · rename_i hclass
    obtain ⟨d, ready, funs, t, hloc, ht, hthis⟩ := hfits hclass
    have hops : ∀ span, (occurrence at_ env (lit "super") span true).value =
        some ((d : Int) + 1) := by
      intro span
      rw [occurrence, hloc]
      rfl
    refine ⟨d, hops _, Scopes.binds_of_locate hloc, t.layer, ?_, hthis⟩
    show (env.locals.map Scope.layer)[d]? = _
    rw [List.getElem?_map, ht]
    rfl

section Expressions

variable {s : Span} {e a b c f o : Expr} {es : List Expr}

private theorem resolves_name (use : NameUse) : Resolves (.expr (.name use)) :=
  fun at_ env _ _ => reaches_occurrence at_ env _ _ _

private theorem resolves_assign {target : NameUse} (hname : target.name ≠ lit "super")
    (h : Resolves (.expr e)) : Resolves (.expr (.assign target e)) := by
  intro at_ env hfits hfound
  have hall : (expr at_ env e).found ++
      ((occurrence at_ env target.name target.span false).found ++ []) = [] := hfound
  simp only [List.append_nil, List.append_eq_nil_iff] at hall
  exact ⟨h at_ env hfits hall.1, reaches_occurrence at_ env _ _ _, hname⟩

private theorem resolves_set {name : Text} (ho : Resolves (.expr o)) (h : Resolves (.expr e)) :
    Resolves (.expr (.set s o name e)) := by
  intro at_ env hfits hfound
  have hall : (expr at_ env e).found ++ ((expr at_ env o).found ++ []) = [] := hfound
  simp only [List.append_nil, List.append_eq_nil_iff] at hall
  exact ⟨ho at_ env hfits hall.2, h at_ env hfits hall.1⟩

private theorem resolves_conditional (hc : Resolves (.expr c)) (ha : Resolves (.expr a))
    (hb : Resolves (.expr b)) : Resolves (.expr (.conditional s c a b)) := by
  intro at_ env hfits hfound
  have hall : (expr at_ env c).found ++
      ((expr at_ env a).found ++ ((expr at_ env b).found ++ [])) = [] := hfound
  simp only [List.append_nil, List.append_eq_nil_iff] at hall
  exact ⟨hc at_ env hfits hall.1, ha at_ env hfits hall.2.1, hb at_ env hfits hall.2.2⟩

private theorem resolves_logical {op : LogicalOp} (ha : Resolves (.expr a))
    (hb : Resolves (.expr b)) :
    Resolves (.expr (.logical s op a b)) := by
  intro at_ env hfits hfound
  have hall : (expr at_ env a).found ++ ((expr at_ env b).found ++ []) = [] := hfound
  simp only [List.append_nil, List.append_eq_nil_iff] at hall
  exact ⟨ha at_ env hfits hall.1, hb at_ env hfits hall.2⟩

private theorem resolves_binary {op : BinaryOp} (hop : ∀ t, op ≠ .other t) (ha : Resolves (.expr a))
    (hb : Resolves (.expr b)) : Resolves (.expr (.binary s op a b)) := by
  intro at_ env hfits hfound
  have hall : (expr at_ env a).found ++ ((expr at_ env b).found ++ []) = [] := hfound
  simp only [List.append_nil, List.append_eq_nil_iff] at hall
  exact ⟨hop, ha at_ env hfits hall.1, hb at_ env hfits hall.2⟩

private theorem resolves_unary {op : UnaryOp} (hop : ∀ t, op ≠ .other t) (h : Resolves (.expr e)) :
    Resolves (.expr (.unary s op e)) := by
  intro at_ env hfits hfound
  have hone : (expr at_ env e).found ++ [] = [] := hfound
  rw [List.append_nil] at hone
  exact ⟨hop, h at_ env hfits hone⟩

private theorem resolves_grouping (h : Resolves (.expr e)) : Resolves (.expr (.grouping s e)) := by
  intro at_ env hfits hfound
  have hone : (expr at_ env e).found ++ [] = [] := hfound
  rw [List.append_nil] at hone
  exact h at_ env hfits hone

private theorem resolves_get {name : Text} (h : Resolves (.expr o)) :
    Resolves (.expr (.get s o name)) := by
  intro at_ env hfits hfound
  have hone : (expr at_ env o).found ++ [] = [] := hfound
  rw [List.append_nil] at hone
  exact h at_ env hfits hone

private theorem resolves_call (hf : Resolves (.expr f)) (hargs : Resolves (.exprs es)) :
    Resolves (.expr (.call s f es)) := by
  intro at_ env hfits hfound
  have hall : (expr at_ env f).found ++ ((exprs at_ env es).found ++ []) = [] := hfound
  simp only [List.append_nil, List.append_eq_nil_iff] at hall
  exact ⟨hf at_ env hfits hall.1, hargs at_ env hfits hall.2⟩

private theorem resolves_cons (h : Resolves (.expr e)) (hs : Resolves (.exprs es)) :
    Resolves (.exprs (e :: es)) := by
  intro at_ env hfits hfound
  have hall : (expr at_ env e).found ++ ((exprs at_ env es).found ++ []) = [] := hfound
  simp only [List.append_nil, List.append_eq_nil_iff] at hall
  exact ⟨h at_ env hfits hall.1, hs at_ env hfits hall.2⟩

private theorem resolves_lambda {ps : List Param} {body : List Stmt}
    (hps : ∀ p ∈ ps, p.name ≠ lit "super")
    (h : Resolves (.stmts body)) : Resolves (.expr (.lambda s ps body)) :=
  fun _ _ hfits hfound => ⟨hps, resolves_body hps h hfits (by decide) hfound⟩

private theorem resolves_function {name : Text} {ps : List Param} {body : List Stmt}
    (hname : name ≠ lit "super") (hps : ∀ p ∈ ps, p.name ≠ lit "super")
    (h : Resolves (.stmts body)) :
    Resolves (.function (.mk s name ps body)) :=
  ⟨hname, fun _ _ _ hkind hfits hfound => ⟨hps, resolves_body hps h hfits hkind hfound⟩⟩

end Expressions

section Statements

variable {at_ : Surroundings} {env : Scopes} {s : Span} {n : Text} {e : Expr} {b : Stmt}

private theorem reaches_of_declare {ls : Layers} {hops : Option Int} {name declared : Text}
    (h : Reaches (declare declared ls) hops name) (hne : name ≠ declared) :
    Reaches ls hops name := by
  intro d hd
  obtain ⟨n, rfl, l, hl, hname⟩ := h d hd
  refine ⟨n, rfl, ?_⟩
  cases ls with
  | nil => exact ⟨l, hl, hname⟩
  | cons l' r =>
    cases n with
    | zero =>
      cases hl
      exact ⟨l', rfl, hname.resolve_left hne⟩
    | succ n => exact ⟨l, hl, hname⟩

private theorem resolves_methods {d : FunDecl} {ds : List FunDecl} (hd : Resolves (.function d))
    (hds : MethodsResolve ds) : MethodsResolve (d :: ds) := by
  intro at_ env ofInstances hfits hfound
  have hall : (funDecl at_ env
      (if ofInstances && d.name == lit "init" then .initializer else .function) d).found ++
    ((methods at_ env ofInstances ds).found ++ []) = [] := hfound
  simp only [List.append_nil, List.append_eq_nil_iff] at hall
  refine ⟨hd.2 at_ env _ ?_ hfits hall.1, hds at_ env ofInstances hfits hall.2⟩
  split <;> decide

private theorem resolves_class {ms ss : List FunDecl} (hname : n ≠ lit "super")
    (hms : MethodsResolve ms)
    (hss : MethodsResolve ss) : StmtResolves (.classDecl s n none ms ss) := by
  intro at_ env hfits hfound
  let at' : Surroundings := { at_ with inClass := .plain }
  let around := aroundMethods ((env.declare n).define n) at_.funs false
  have hboth : (methods at' around true ms).found ++ ((methods at' around false ss).found ++ []) =
    [] := hfound
  simp only [List.append_nil, List.append_eq_nil_iff] at hboth
  have hms := hms at' around true (fits_plain at_ _ at_.funs) hboth.1
  have hss := hss at' around false (fits_plain at_ _ at_.funs) hboth.2
  rw [layers_aroundMethods, Scopes.layers_declare_define] at hms hss
  exact ⟨⟨hname, hms, hss⟩, Scopes.layers_declare_define env n, hfits.declare_define hname⟩

/-- The superclass is read before the class has a value, which does not matter, because a class
cannot inherit from itself. -/
theorem resolves_subclass {sup : NameUse} {ms ss : List FunDecl} (hname : n ≠ lit "super")
    (hms : MethodsResolve ms) (hss : MethodsResolve ss) :
    StmtResolves (.classDecl s n (some sup) ms ss) := by
  intro at_ env hfits hfound
  let at' : Surroundings := { at_ with inClass := .derived }
  let env' := (env.declare n).define n
  let around := aroundMethods env' at_.funs true
  have hall : (Checked.reportIf (sup.name == n) .inheritSelf sup.span).found ++
    ((nameUse at' env' sup).found ++ ((methods at' around true ms).found ++
      ((methods at' around false ss).found ++ []))) = [] := hfound
  simp only [List.append_nil, List.append_eq_nil_iff, Checked.found_reportIf,
    beq_eq_false_iff_ne] at hall
  have hms := hms at' around true (fits_derived at_ _ at_.funs) hall.2.2.1
  have hss := hss at' around false (fits_derived at_ _ at_.funs) hall.2.2.2
  rw [layers_aroundMethods, Scopes.layers_declare_define] at hms hss
  have hreach := reaches_occurrence at' env' sup.name sup.span true
  rw [Scopes.layers_declare_define] at hreach
  exact ⟨⟨hname, reaches_of_declare hreach hall.1, hms, hss⟩, Scopes.layers_declare_define env n,
    hfits.declare_define hname⟩

private theorem resolves_funDecl {d : FunDecl} (h : Resolves (.function d)) :
    StmtResolves (.funDecl d) := by
  intro at_ env hfits hfound
  let env' := (env.declare d.name).define d.name
  obtain ⟨hname, hd⟩ := h
  have hfun : (funDecl at_ env' .function d).found ++ [] = [] := hfound
  rw [List.append_nil] at hfun
  have hscoped := hd at_ env' .function (by decide) (hfits.declare_define hname) hfun
  rw [Scopes.layers_declare_define] at hscoped
  have hsame := name_funDecl at_ env' .function d
  refine ⟨⟨?_, ?_⟩, ?_, hfits.declare_define hname⟩
  · show (funDecl at_ env' .function d).value.name ≠ _
    rwa [hsame]
  · show (funDecl at_ env' .function d).value.Scoped
      (declare (funDecl at_ env' .function d).value.name env.layers)
    rwa [hsame]
  · show env'.layers = declare (funDecl at_ env' .function d).value.name env.layers
    rw [hsame]
    exact Scopes.layers_declare_define env d.name

private theorem resolves_var {init : Option Expr} (hname : n ≠ lit "super")
    (h : Resolves (.clause init)) :
    StmtResolves (.varDecl s n init) := by
  intro at_ env hfits hfound
  have hinit : (clause at_ (env.declare n) init).found ++ [] = [] := hfound
  rw [List.append_nil] at hinit
  have hscoped := h at_ (env.declare n) (hfits.declare hname) hinit
  rw [Scopes.layers_declare] at hscoped
  exact ⟨⟨hname, hscoped⟩, Scopes.layers_declare_define env n, hfits.declare_define hname⟩

private theorem resolves_stmts {ss : List Stmt} (h : StmtResolves b) (hs : Resolves (.stmts ss)) :
    Resolves (.stmts (b :: ss)) := by
  intro at_ env hfits hfound
  have hboth : (stmt at_ env b).found ++
      ((stmts at_ (stmt at_ env b).value.2 ss).found ++ []) = [] :=
    hfound
  simp only [List.append_nil, List.append_eq_nil_iff] at hboth
  obtain ⟨hfirst, hlayers, hfits'⟩ := h at_ env hfits hboth.1
  exact ⟨hfirst, hlayers ▸ hs at_ _ hfits' hboth.2⟩

private theorem resolves_exprStmt (h : Resolves (.expr e)) : StmtResolves (.exprStmt s e) := by
  intro at_ env hfits hfound
  have hone : (expr at_ env e).found ++ [] = [] := hfound
  rw [List.append_nil] at hone
  exact ⟨h at_ env hfits hone, rfl, hfits⟩

private theorem resolves_print (h : Resolves (.expr e)) : StmtResolves (.printStmt s e) := by
  intro at_ env hfits hfound
  have hone : (expr at_ env e).found ++ [] = [] := hfound
  rw [List.append_nil] at hone
  exact ⟨h at_ env hfits hone, rfl, hfits⟩

private theorem resolves_break (s : Span) : StmtResolves (.breakStmt s) := by
  intro at_ env hfits hfound
  have hinside : (Checked.reportIf (!at_.inLoop) .breakOutsideLoop s).found ++ [] = [] := hfound
  rw [List.append_nil, Checked.found_reportIf, Bool.not_eq_false'] at hinside
  exact ⟨hinside, rfl, hfits⟩

private theorem resolves_clause (h : Resolves (.expr e)) : Resolves (.clause (some e)) := by
  intro at_ env hfits hfound
  have hone : (expr at_ env e).found ++ [] = [] := hfound
  rw [List.append_nil] at hone
  exact h at_ env hfits hone

private theorem resolves_return {value : Option Expr} (h : Resolves (.clause value)) :
    StmtResolves (.returnStmt s value) := by
  intro at_ env hfits hfound
  have hclause := h at_ env hfits
  cases value with
  | none =>
    have hinside : (Checked.reportIf (at_.body == .script) .returnTopLevel s).found ++ [] = [] :=
      hfound
    rw [List.append_nil, Checked.found_reportIf] at hinside
    exact ⟨⟨congrArg not hinside, trivial⟩, rfl, hfits⟩
  | some e =>
    have hall : (Checked.reportIf (at_.body == .script) .returnTopLevel s).found ++
        ((Checked.reportIf (at_.body == .initializer) .returnInit s).found ++
          ((expr at_ env e).found ++ [])) = [] := hfound
    rw [List.append_eq_nil_iff, List.append_eq_nil_iff, Checked.found_reportIf] at hall
    exact ⟨⟨congrArg not hall.1, hclause hall.2.2⟩, rfl, hfits⟩

private theorem resolves_block {body : List Stmt} (h : Resolves (.stmts body)) :
    StmtResolves (.block s body) := by
  intro at_ env hfits hfound
  let inner := env.push (.empty at_.funs)
  have hbody : (stmts at_ inner body).found ++ [] = [] := hfound
  rw [List.append_nil] at hbody
  have hscoped := h at_ inner (hfits.push_empty at_.funs) hbody
  rw [Scopes.layers_push, Scope.layer_empty] at hscoped
  exact ⟨hscoped, rfl, hfits⟩

private theorem StmtResolves.same (h : StmtResolves b)
    (hb : b.isDeclaration = false) (hfits : at_.Fits env) (hfound : (stmt at_ env b).found = []) :
    (stmt at_ env b).value.1.isDeclaration = false ∧
      (stmt at_ env b).value.1.Scoped env.layers at_.takes ∧
      (stmt at_ env b).value.2.layers = env.layers ∧ at_.Fits (stmt at_ env b).value.2 := by
  obtain ⟨hscoped, hlayers, hfits'⟩ := h at_ env hfits hfound
  have hdecl := (isDeclaration_stmt at_ env b).trans hb
  exact ⟨hdecl, hscoped, hlayers.trans (Stmt.after_eq_self hdecl _), hfits'⟩

private theorem resolves_while (hc : Resolves (.expr e)) (hdecl : b.isDeclaration = false)
    (hb : StmtResolves b) : StmtResolves (.whileStmt s e b) := by
  intro at_ env hfits hfound
  let round : Surroundings := { at_ with inLoop := true }
  have hboth : (expr at_ env e).found ++ ((stmt round env b).found ++ []) = [] := hfound
  simp only [List.append_nil, List.append_eq_nil_iff] at hboth
  have hround : round.Fits env := hfits
  obtain ⟨hdecl', hscoped, hlayers, hfits'⟩ := hb.same hdecl hround hboth.2
  exact ⟨⟨hc at_ env hfits hboth.1, hdecl', hscoped⟩, hlayers, hfits'⟩

private theorem resolves_if (hc : Resolves (.expr e)) (hdecl : b.isDeclaration = false)
    (hb : StmtResolves b) : StmtResolves (.ifStmt s e b none) := by
  intro at_ env hfits hfound
  have hboth : (expr at_ env e).found ++ ((stmt at_ env b).found ++ []) = [] := hfound
  simp only [List.append_nil, List.append_eq_nil_iff] at hboth
  obtain ⟨hdecl', hscoped, hlayers, hfits'⟩ := hb.same hdecl hfits hboth.2
  exact ⟨⟨hc at_ env hfits hboth.1, hdecl', hscoped, trivial⟩, hlayers, hfits'⟩

private theorem resolves_ifElse {b' : Stmt} (hc : Resolves (.expr e))
    (hdecl : b.isDeclaration = false)
    (hb : StmtResolves b) (hdecl' : b'.isDeclaration = false) (hb' : StmtResolves b') :
    StmtResolves (.ifStmt s e b (some b')) := by
  intro at_ env hfits hfound
  let env' := (stmt at_ env b).value.2
  have hall : (expr at_ env e).found ++ ((stmt at_ env b).found ++
    ((stmt at_ env' b').found ++ [])) = [] := hfound
  simp only [List.append_nil, List.append_eq_nil_iff] at hall
  obtain ⟨hdecl, hscoped, hlayers, hfits'⟩ := hb.same hdecl hfits hall.2.1
  obtain ⟨hdecl', hscoped', hlayers', hfits''⟩ := hb'.same hdecl' hfits' hall.2.2
  rw [hlayers] at hscoped' hlayers'
  exact ⟨⟨hc at_ env hfits hall.1, hdecl, hscoped, hdecl', hscoped'⟩, hlayers', hfits''⟩

private theorem resolves_round {c i : Option Expr} (hc : Resolves (.clause c))
    (hi : Resolves (.clause i))
    (hdecl : b.isDeclaration = false) (hb : StmtResolves b) {round : Surroundings}
    (hround : round = { at_ with inLoop := true }) (hfits : at_.Fits env) {inner : Scopes}
    (hinner : inner = env.push (.empty at_.funs)) (hcfound : (clause at_ env c).found = [])
    (hbfound : (stmt round inner b).found = [])
    (hifound : (clause round (stmt round inner b).value.2 i).found = []) :
    Expr.ScopedOption env.layers (clause at_ env c).value ∧
      (stmt round inner b).value.1.isDeclaration = false ∧
      (stmt round inner b).value.1.Scoped (.empty :: env.layers) at_.takes.inLoop ∧
      Expr.ScopedOption (.empty :: env.layers)
        (clause round (stmt round inner b).value.2 i).value := by
  subst hround
  have hlayers : inner.layers = .empty :: env.layers := by
    rw [hinner, Scopes.layers_push, Scope.layer_empty]
  have hfits₁ : Surroundings.Fits { at_ with inLoop := true } inner :=
    hinner ▸ hfits.push_empty at_.funs
  obtain ⟨hdecl', hscoped, hsame, hfits₂⟩ := hb.same hdecl hfits₁ hbfound
  have hstep := hi _ _ hfits₂ hifound
  rw [hsame, hlayers] at hstep
  rw [hlayers] at hscoped
  exact ⟨hc at_ env hfits hcfound, hdecl', hscoped, hstep⟩

private theorem resolves_for {init : Option Stmt} {c i : Option Expr}
    (hinit : Resolves (.init init))
    (hc : Resolves (.clause c)) (hi : Resolves (.clause i)) (hdecl : b.isDeclaration = false)
    (hb : StmtResolves b) : StmtResolves (.forStmt s init c i b) := by
  intro at_ env hfits hfound
  let round : Surroundings := { at_ with inLoop := true }
  cases init with
  | none =>
    let inner := env.push (.empty at_.funs)
    have hall : (clause at_ env c).found ++ ((stmt round inner b).found ++
      ((clause round (stmt round inner b).value.2 i).found ++ [])) = [] := hfound
    simp only [List.append_nil, List.append_eq_nil_iff] at hall
    have hscoped := resolves_round hc hi hdecl hb rfl hfits rfl hall.1 hall.2.1 hall.2.2
    exact ⟨hscoped, rfl, hfits⟩
  | some init =>
    let start := env.push (.empty at_.funs)
    let outer := (stmt at_ start init).value.2
    let inner := outer.push (.empty at_.funs)
    have hall : (stmt at_ start init).found ++ ((clause at_ outer c).found ++
      ((stmt round inner b).found ++ ((clause round (stmt round inner b).value.2 i).found ++ []))) =
        [] := hfound
    simp only [List.append_nil, List.append_eq_nil_iff] at hall
    have hstart : start.layers = .empty :: env.layers := by
      rw [Scopes.layers_push, Scope.layer_empty]
    obtain ⟨hfirst, hlayers, hfits'⟩ := hinit at_ start (hfits.push_empty at_.funs) hall.1
    have hscoped :=
      resolves_round hc hi hdecl hb rfl hfits' rfl hall.2.1 hall.2.2.1 hall.2.2.2
    rw [hlayers, hstart] at hscoped
    rw [hstart] at hfirst
    exact ⟨⟨hfirst, hscoped⟩, rfl, hfits⟩

end Statements

end Resolve

namespace Grammar

open Resolve

theorem Derives.not_declaration {ts : List Token} {s : Stmt}
    (h : Derives .statement ts (.stmt s)) : s.isDeclaration = false := by
  cases h <;> rfl

private theorem IsOperator.known {tier : Parser.Tier} {kind : Token.Kind} {op : Parser.Operator}
    (h : IsOperator tier kind op) : ∀ o, op = .binary o → ∀ t, o ≠ .other t := by
  cases h <;> simp

theorem Derives.resolves {sym : Sym} {ts : List Token} {n : Node} (h : Derives sym ts n)
    (hts : ∀ t ∈ ts, t.kind = .name → t.text ≠ lit "super") : Resolves n := by
  induction h with try simp only [List.forall_mem_append, List.forall_mem_cons] at hts
  | simple _ ih | plain _ ih | operand _ ih | called _ ih | head _ ih | someArguments _ ih
  | varDecl _ ih | statement _ ih | varInit _ ih => exact ih hts
  | assignName hn _ _ ih => exact resolves_assign (hts.1 hn) (ih hts.2.2)
  | assignField _ _ _ _ _ iho ihv => exact resolves_set (iho hts.1) (ihv hts.2.2.2.2)
  | choice _ _ _ _ _ ihc iha ihb =>
    exact resolves_conditional (ihc hts.1) (iha hts.2.2.1) (ihb hts.2.2.2.2)
  | @chain _ _ op _ _ _ _ _ _ hop _ iha ihb =>
    cases op with
    | logical op => exact resolves_logical (iha hts.1) (ihb hts.2.2)
    | binary op => exact resolves_binary (hop.known op rfl) (iha hts.1) (ihb hts.2.2)
  | not _ _ ih | negate _ _ ih => exact resolves_unary nofun (ih hts.2)
  | apply _ _ _ _ ihf ihargs => exact resolves_call (ihf hts.1) (ihargs hts.2.2)
  | get _ _ _ ih => exact resolves_get (ih hts.1)
  | noArguments _ | false_ _ | true_ _ | nil_ _ | number _ _ | string _ | noDeclarations
  | noClause => exact fun _ _ _ _ => trivial
  | lastArgument _ _ ih => exact resolves_cons (ih hts.1) fun _ _ _ _ => trivial
  | moreArguments _ _ _ ih ihs => exact resolves_cons (ih hts.1) (ihs hts.2.2)
  | this _ => exact resolves_this _ _
  | super _ _ _ => exact resolves_super _ _ _
  | name _ => exact resolves_name _
  | lambda _ hps _ ih =>
    have hnames := hps.forall_name (P := (· ≠ lit "super")) hts.2.1
    exact resolves_lambda hnames (ih hts.2.2)
  | group _ _ _ ih => exact resolves_grouping (ih hts.2.1)
  | block _ _ _ ih => exact ih hts.2.1
  | moreDeclarations _ _ ih ihs => exact resolves_stmts (ih hts.1) (ihs hts.2)
  | @classDecl _ _ _ _ _ _ sup _ _ _ _ hn _ _ _ _ ih =>
    obtain ⟨hms, hss⟩ := ih hts.2.2.2.2.1
    cases sup with
    | none => exact resolves_class (hts.2.1 hn) hms hss
    | some sup => exact resolves_subclass (hts.2.1 hn) hms hss
  | funDecl _ _ ih => exact resolves_funDecl (ih hts.2)
  | noValue _ hn _ => exact resolves_var (hts.2.1 hn) fun _ _ _ _ => trivial
  | value _ hn _ _ _ ih => exact resolves_var (hts.2.1 hn) (resolves_clause (ih hts.2.2.2.1))
  | function hn hps _ ih =>
    have hnames := hps.forall_name (P := (· ≠ lit "super")) hts.2.1
    exact resolves_function (hts.1 hn) hnames (ih hts.2.2)
  | noMembers => exact ⟨fun _ _ _ _ _ => trivial, fun _ _ _ _ _ => trivial⟩
  | method _ _ ihd ih => exact ⟨resolves_methods (ihd hts.1) (ih hts.2).1, (ih hts.2).2⟩
  | static _ _ _ ihd ih => exact ⟨(ih hts.2.2).1, resolves_methods (ihd hts.2.1) (ih hts.2.2).2⟩
  | exprStmt _ _ ih | exprInit _ _ ih => exact resolves_exprStmt (ih hts.1)
  | print _ _ _ ih => exact resolves_print (ih hts.2.1)
  | return_ _ _ _ ih => exact resolves_return (ih hts.2.1)
  | break_ _ _ => exact resolves_break _
  | inBlock _ ih => exact resolves_block (ih hts)
  | while_ _ _ _ _ hd ihc ihb =>
    exact resolves_while (ihc hts.2.2.1) hd.not_declaration (ihb hts.2.2.2.2)
  | if_ _ _ _ _ hd ihc ihy => exact resolves_if (ihc hts.2.2.1) hd.not_declaration (ihy hts.2.2.2.2)
  | ifElse _ _ _ _ hd _ _ hd' ihc ihy ihn =>
    exact resolves_ifElse (ihc hts.2.2.1) hd.not_declaration (ihy hts.2.2.2.2.1)
      hd'.not_declaration (ihn hts.2.2.2.2.2.2)
  | for_ _ _ _ _ _ _ _ hd ihi ihc ihs ihb =>
    exact resolves_for (ihi hts.2.2.1.1) (ihc hts.2.2.1.2) (ihs hts.2.2.2.2.1) hd.not_declaration
      (ihb hts.2.2.2.2.2.2)
  | noInit _ => trivial
  | someClause _ ih => exact resolves_clause (ih hts)

end Grammar
end Lox
