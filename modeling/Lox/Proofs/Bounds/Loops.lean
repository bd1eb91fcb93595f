import Lox.Proofs.Run.Globals
import Lox.Scope.Resolve

set_option autoImplicit false
set_option relaxedAutoImplicit false

namespace Lox

mutual

def Expr.LoopsIf (c : Prop) : Expr → Prop
  | .literal _ _ => True
  | .grouping _ e => e.LoopsIf c
  | .unary _ _ e => e.LoopsIf c
  | .binary _ _ a b => a.LoopsIf c ∧ b.LoopsIf c
  | .logical _ _ a b => a.LoopsIf c ∧ b.LoopsIf c
  | .conditional _ p a b => p.LoopsIf c ∧ a.LoopsIf c ∧ b.LoopsIf c
  | .name _ => True
  | .assign _ e => e.LoopsIf c
  | .call _ f args => f.LoopsIf c ∧ Expr.LoopsIfAll c args
  | .get _ o _ => o.LoopsIf c
  | .set _ o _ e => o.LoopsIf c ∧ e.LoopsIf c
  | .this _ _ => True
  | .super _ _ _ => True
  | .lambda _ _ body => Stmt.LoopsIfAll c body

def Expr.LoopsIfAll (c : Prop) : List Expr → Prop
  | [] => True
  | e :: r => e.LoopsIf c ∧ Expr.LoopsIfAll c r

def Expr.LoopsIfOption (c : Prop) : Option Expr → Prop
  | none => True
  | some e => e.LoopsIf c

def Stmt.LoopsIf (c : Prop) : Stmt → Prop
  | .exprStmt _ e => e.LoopsIf c
  | .printStmt _ e => e.LoopsIf c
  | .varDecl _ _ init => Expr.LoopsIfOption c init
  | .block _ body => Stmt.LoopsIfAll c body
  | .ifStmt _ p a b => p.LoopsIf c ∧ a.LoopsIf c ∧ Stmt.LoopsIfOption c b
  | .whileStmt _ p b => c ∧ p.LoopsIf c ∧ b.LoopsIf c
  | .forStmt _ init p i b =>
    c ∧ Stmt.LoopsIfOption c init ∧ Expr.LoopsIfOption c p ∧ Expr.LoopsIfOption c i ∧ b.LoopsIf c
  | .breakStmt _ => True
  | .returnStmt _ e => Expr.LoopsIfOption c e
  | .funDecl d => d.LoopsIf c
  | .classDecl _ _ _ ms ss => FunDecl.LoopsIfAll c ms ∧ FunDecl.LoopsIfAll c ss

def Stmt.LoopsIfAll (c : Prop) : List Stmt → Prop
  | [] => True
  | s :: r => s.LoopsIf c ∧ Stmt.LoopsIfAll c r

def Stmt.LoopsIfOption (c : Prop) : Option Stmt → Prop
  | none => True
  | some s => s.LoopsIf c

def FunDecl.LoopsIf (c : Prop) : FunDecl → Prop
  | .mk _ _ _ body => Stmt.LoopsIfAll c body

def FunDecl.LoopsIfAll (c : Prop) : List FunDecl → Prop
  | [] => True
  | d :: r => d.LoopsIf c ∧ FunDecl.LoopsIfAll c r

end

section

variable (c : Prop) [Decidable c]

mutual

def Expr.decideLoopsIf : (e : Expr) → Decidable (e.LoopsIf c)
  | .literal _ _ | .name _ | .this _ _ | .super _ _ _ => .isTrue trivial
  | .grouping _ e | .unary _ _ e | .assign _ e | .get _ e _ => e.decideLoopsIf
  | .binary _ _ a b | .logical _ _ a b | .set _ a _ b =>
    @instDecidableAnd _ _ a.decideLoopsIf b.decideLoopsIf
  | .conditional _ p a b =>
    @instDecidableAnd _ _ p.decideLoopsIf (@instDecidableAnd _ _ a.decideLoopsIf b.decideLoopsIf)
  | .call _ f args => @instDecidableAnd _ _ f.decideLoopsIf (Expr.decideLoopsIfAll args)
  | .lambda _ _ body => Stmt.decideLoopsIfAll body

def Expr.decideLoopsIfAll : (es : List Expr) → Decidable (Expr.LoopsIfAll c es)
  | [] => .isTrue trivial
  | e :: r => @instDecidableAnd _ _ e.decideLoopsIf (Expr.decideLoopsIfAll r)

def Expr.decideLoopsIfOption : (e : Option Expr) → Decidable (Expr.LoopsIfOption c e)
  | none => .isTrue trivial
  | some e => e.decideLoopsIf

def Stmt.decideLoopsIf : (s : Stmt) → Decidable (s.LoopsIf c)
  | .exprStmt _ e | .printStmt _ e => e.decideLoopsIf
  | .varDecl _ _ e | .returnStmt _ e => Expr.decideLoopsIfOption e
  | .block _ body => Stmt.decideLoopsIfAll body
  | .ifStmt _ p a b =>
    @instDecidableAnd _ _ p.decideLoopsIf
      (@instDecidableAnd _ _ a.decideLoopsIf (Stmt.decideLoopsIfOption b))
  | .whileStmt _ p b =>
    @instDecidableAnd _ _ ‹_› (@instDecidableAnd _ _ p.decideLoopsIf b.decideLoopsIf)
  | .forStmt _ init p i b =>
    @instDecidableAnd _ _ ‹_› (@instDecidableAnd _ _ (Stmt.decideLoopsIfOption init)
      (@instDecidableAnd _ _ (Expr.decideLoopsIfOption p)
        (@instDecidableAnd _ _ (Expr.decideLoopsIfOption i) b.decideLoopsIf)))
  | .breakStmt _ => .isTrue trivial
  | .funDecl d => d.decideLoopsIf
  | .classDecl _ _ _ ms ss =>
    @instDecidableAnd _ _ (FunDecl.decideLoopsIfAll ms) (FunDecl.decideLoopsIfAll ss)

def Stmt.decideLoopsIfAll : (ss : List Stmt) → Decidable (Stmt.LoopsIfAll c ss)
  | [] => .isTrue trivial
  | s :: r => @instDecidableAnd _ _ s.decideLoopsIf (Stmt.decideLoopsIfAll r)

def Stmt.decideLoopsIfOption : (s : Option Stmt) → Decidable (Stmt.LoopsIfOption c s)
  | none => .isTrue trivial
  | some s => s.decideLoopsIf

def FunDecl.decideLoopsIf : (d : FunDecl) → Decidable (d.LoopsIf c)
  | .mk _ _ _ body => Stmt.decideLoopsIfAll body

def FunDecl.decideLoopsIfAll : (ds : List FunDecl) → Decidable (FunDecl.LoopsIfAll c ds)
  | [] => .isTrue trivial
  | d :: r => @instDecidableAnd _ _ d.decideLoopsIf (FunDecl.decideLoopsIfAll r)

end

instance (ss : List Stmt) : Decidable (Stmt.LoopsIfAll c ss) := Stmt.decideLoopsIfAll c ss

end

def Function.LoopsIf (c : Prop) (f : Function) : Prop := Stmt.LoopsIfAll c f.body

def Class.LoopsIf (c : Prop) : Class → Prop
  | .mk _ _ none ms ss => (∀ m ∈ ms, m.2.LoopsIf c) ∧ ∀ m ∈ ss, m.2.LoopsIf c
  | .mk _ _ (some sup) ms ss =>
    sup.LoopsIf c ∧ (∀ m ∈ ms, m.2.LoopsIf c) ∧ ∀ m ∈ ss, m.2.LoopsIf c

def Value.LoopsIf (c : Prop) : Value → Prop
  | .function f => f.LoopsIf c
  | .method _ f receiver => f.LoopsIf c ∧ receiver.LoopsIf c
  | .cls d => d.LoopsIf c
  | .object _ d => d.LoopsIf c
  | _ => True

structure Heap.LoopsIf (c : Prop) (h : Heap) : Prop where
  bindings {e : FrameId} {n : Text} {v : Value} : (h.bindings e).lookup n = some v → v.LoopsIf c
  field {i : Nat} {n : Text} {v : Value} : h.field? i n = some v → v.LoopsIf c

variable {c : Prop}

/-! ### Any code, if the condition is met -/

mutual

theorem Expr.loopsIf_of (hc : c) (e : Expr) : e.LoopsIf c := by
  cases e with
  | literal span v | name use | this span hops | super span m hops => trivial
  | grouping span e | unary span op e | assign target e | get span e name => exact e.loopsIf_of hc
  | binary span op a b | logical span op a b | set span a name b =>
    exact ⟨a.loopsIf_of hc, b.loopsIf_of hc⟩
  | conditional span p a b => exact ⟨p.loopsIf_of hc, a.loopsIf_of hc, b.loopsIf_of hc⟩
  | call span f args => exact ⟨f.loopsIf_of hc, Expr.loopsIfAll_of hc args⟩
  | lambda span params body => exact Stmt.loopsIfAll_of hc body
termination_by structural e

theorem Expr.loopsIfAll_of (hc : c) (es : List Expr) : Expr.LoopsIfAll c es := by
  cases es with
  | nil => trivial
  | cons e r => exact ⟨e.loopsIf_of hc, Expr.loopsIfAll_of hc r⟩
termination_by structural es

theorem Expr.loopsIfOption_of (hc : c) (e : Option Expr) : Expr.LoopsIfOption c e := by
  cases e with
  | none => trivial
  | some e => exact e.loopsIf_of hc
termination_by structural e

theorem Stmt.loopsIf_of (hc : c) (s : Stmt) : s.LoopsIf c := by
  cases s with
  | exprStmt span e | printStmt span e => exact e.loopsIf_of hc
  | varDecl span name e | returnStmt span e => exact Expr.loopsIfOption_of hc e
  | block span body => exact Stmt.loopsIfAll_of hc body
  | ifStmt span p a b => exact ⟨p.loopsIf_of hc, a.loopsIf_of hc, Stmt.loopsIfOption_of hc b⟩
  | whileStmt span p b => exact ⟨hc, p.loopsIf_of hc, b.loopsIf_of hc⟩
  | forStmt span init p i b =>
    exact ⟨hc, Stmt.loopsIfOption_of hc init, Expr.loopsIfOption_of hc p,
      Expr.loopsIfOption_of hc i, b.loopsIf_of hc⟩
  | breakStmt span => trivial
  | funDecl d => exact d.loopsIf_of hc
  | classDecl span name sup ms ss =>
    exact ⟨FunDecl.loopsIfAll_of hc ms, FunDecl.loopsIfAll_of hc ss⟩
termination_by structural s

theorem Stmt.loopsIfAll_of (hc : c) (ss : List Stmt) : Stmt.LoopsIfAll c ss := by
  cases ss with
  | nil => trivial
  | cons s r => exact ⟨s.loopsIf_of hc, Stmt.loopsIfAll_of hc r⟩
termination_by structural ss

theorem Stmt.loopsIfOption_of (hc : c) (s : Option Stmt) : Stmt.LoopsIfOption c s := by
  cases s with
  | none => trivial
  | some s => exact s.loopsIf_of hc
termination_by structural s

theorem FunDecl.loopsIf_of (hc : c) (d : FunDecl) : d.LoopsIf c := by
  obtain ⟨span, name, params, body⟩ := d
  exact Stmt.loopsIfAll_of hc body
termination_by structural d

theorem FunDecl.loopsIfAll_of (hc : c) (ds : List FunDecl) : FunDecl.LoopsIfAll c ds := by
  cases ds with
  | nil => trivial
  | cons d r => exact ⟨d.loopsIf_of hc, FunDecl.loopsIfAll_of hc r⟩
termination_by structural ds

end

private theorem Function.loopsIf_of (hc : c) (f : Function) : f.LoopsIf c :=
  Stmt.loopsIfAll_of hc f.body

theorem Class.loopsIf_of (hc : c) (d : Class) : d.LoopsIf c := by
  fun_induction Class.LoopsIf c d with
  | case1 i n ms ss => exact ⟨fun m _ => m.2.loopsIf_of hc, fun m _ => m.2.loopsIf_of hc⟩
  | case2 i n sup ms ss ih => exact ⟨ih, fun m _ => m.2.loopsIf_of hc, fun m _ => m.2.loopsIf_of hc⟩

theorem Value.loopsIf_of (hc : c) (v : Value) : v.LoopsIf c := by
  induction v with
  | function f => exact f.loopsIf_of hc
  | method i f receiver ih => exact ⟨f.loopsIf_of hc, ih⟩
  | cls d => exact d.loopsIf_of hc
  | object i d => exact d.loopsIf_of hc
  | _ => trivial

theorem Heap.loopsIf_of (hc : c) (h : Heap) : h.LoopsIf c where
  bindings _ := Value.loopsIf_of hc _
  field _ := Value.loopsIf_of hc _

/-! ### Values -/

namespace Class.LoopsIf

variable {d : Class} {name : Text} {f : Function}

private theorem lookup {table : List (Text × Function)} (ht : ∀ m ∈ table, m.2.LoopsIf c)
    (hf : table.lookup name = some f) : f.LoopsIf c := by
  obtain ⟨pre, post, rfl, -⟩ := List.lookup_eq_some_iff.1 hf
  exact ht (name, f) (List.mem_append_right _ (List.mem_cons_self ..))

theorem findMethod (hd : d.LoopsIf c) (hf : d.findMethod name = some f) : f.LoopsIf c := by
  fun_induction Class.LoopsIf c d with
  | case1 i n ms ss => exact lookup hd.1 hf
  | case2 i n sup ms ss ih =>
    rw [Class.findMethod, Option.or_eq_some_iff] at hf
    rcases hf with hown | ⟨-, hup⟩
    · exact lookup hd.2.1 hown
    · exact ih hd.1 hup

theorem findStatic (hd : d.LoopsIf c) (hf : d.findStatic name = some f) : f.LoopsIf c := by
  fun_induction Class.LoopsIf c d with
  | case1 i n ms ss => exact lookup hd.2 hf
  | case2 i n sup ms ss ih =>
    rw [Class.findStatic, Option.or_eq_some_iff] at hf
    rcases hf with hown | ⟨-, hup⟩
    · exact lookup hd.2.2 hown
    · exact ih hd.1 hup

end Class.LoopsIf

theorem Value.loopsIf_ofLiteral (c : Prop) (v : Literal) : (Value.ofLiteral v).LoopsIf c := by
  cases v <;> trivial

/-! ### Heaps -/

namespace Heap

theorem loopsIf_initial {bs : Bindings} (hbs : ∀ n v, bs.lookup n = some v → v.LoopsIf c) :
    (Heap.initial bs).LoopsIf c where
  bindings {e n v} hv := by
    cases e with
    | zero => exact hbs n v hv
    | succ e => cases hv
  field hv := nomatch hv

namespace LoopsIf

variable {h : Heap} (hh : h.LoopsIf c)
include hh

theorem getAt {e : FrameId} {d : Int} {n : Text} {v : Value} (hv : h.getAt? e d n = some v) :
    v.LoopsIf c := by
  unfold getAt? at hv
  split at hv
  · exact hh.bindings hv
  · cases hv

theorem define (e : FrameId) (name : Text) {v : Value} (hv : v.LoopsIf c) :
    (h.define e name v).LoopsIf c where
  bindings {e' n w} hw := by
    rw [bindings_define] at hw
    split at hw
    · rw [Bindings.lookup_bind] at hw
      split at hw
      · cases hw
        exact hv
      · exact hh.bindings hw
    · exact hh.bindings hw
  field hw := hh.field hw

theorem declare (e : FrameId) (name : Text) : (h.declare e name).LoopsIf c := by
  unfold Heap.declare
  split
  · exact hh
  · exact hh.define e name trivial

theorem child (parent : FrameId) {bs : Bindings} (hbs : ∀ n v, bs.lookup n = some v → v.LoopsIf c) :
    (h.child parent bs).2.LoopsIf c where
  bindings {e n v} hv := by
    unfold Heap.bindings Heap.child at hv
    rw [Array.getElem?_push] at hv
    by_cases he : e = h.frames.size
    · rw [if_pos he] at hv
      exact hbs n v hv
    · rw [if_neg he] at hv
      exact hh.bindings hv
  field hv := hh.field hv

theorem newObject : h.newObject.2.LoopsIf c where
  bindings hv := hh.bindings hv
  field {i n v} hv := by
    unfold Heap.field? Heap.newObject at hv
    rw [Array.getElem?_push] at hv
    by_cases hi : i = h.objects.size
    · rw [if_pos hi] at hv
      cases hv
    · rw [if_neg hi] at hv
      exact hh.field hv

theorem setField (object : Nat) (name : Text) {v : Value} (hv : v.LoopsIf c) :
    (h.setField object name v).LoopsIf c where
  bindings hw := hh.bindings hw
  field {i n w} hw := by
    have hfield : ∀ fields, h.objects[i]? = some fields →
        fields.lookup n = some w → w.LoopsIf c := by
      intro fields hi hn
      refine hh.field (i := i) (n := n) ?_
      simp only [Heap.field?, hi, hn]
    unfold Heap.field? Heap.setField at hw
    rw [Array.getElem?_modify] at hw
    by_cases ho : object = i
    · rw [if_pos ho] at hw
      cases hi : h.objects[i]? with
      | none =>
        rw [hi] at hw
        cases hw
      | some fields =>
        rw [hi] at hw
        change (Bindings.bind fields name v).lookup n = some w at hw
        rw [Bindings.lookup_bind] at hw
        split at hw
        · cases hw
          exact hv
        · exact hfield fields hi hw
    · rw [if_neg ho] at hw
      exact hh.field hw

theorem freshId : h.freshId.2.LoopsIf c := ⟨hh.bindings, hh.field⟩

end LoopsIf

end Heap

/-! ### Programs in which the declarations of names have been found -/

namespace Resolve

mutual

theorem loopsIf_expr (at_ : Surroundings) (env : Scopes) {e : Expr} (he : e.LoopsIf c) :
    (expr at_ env e).value.LoopsIf c := by
  cases e with
  | literal span v | name use => trivial
  | this span hops | super span m hops =>
    obtain ⟨body, inClass, inLoop, funs⟩ := at_
    cases inClass <;> trivial
  | grouping span e | unary span op e | assign target e | get span e name =>
    exact loopsIf_expr at_ env (e := e) he
  | binary span op a b | logical span op a b | set span a name b =>
    exact ⟨loopsIf_expr at_ env he.1, loopsIf_expr at_ env he.2⟩
  | conditional span p a b =>
    exact ⟨loopsIf_expr at_ env he.1, loopsIf_expr at_ env he.2.1, loopsIf_expr at_ env he.2.2⟩
  | call span f args => exact ⟨loopsIf_expr at_ env he.1, loopsIf_exprs at_ env he.2⟩
  | lambda span params body => exact loopsIf_stmts _ _ (show Stmt.LoopsIfAll c body from he)
termination_by structural e

theorem loopsIf_exprs (at_ : Surroundings) (env : Scopes) {es : List Expr}
    (hes : Expr.LoopsIfAll c es) : Expr.LoopsIfAll c (exprs at_ env es).value := by
  cases es with
  | nil => trivial
  | cons e r => exact ⟨loopsIf_expr at_ env hes.1, loopsIf_exprs at_ env hes.2⟩
termination_by structural es

theorem loopsIf_clause (at_ : Surroundings) (env : Scopes) {e : Option Expr}
    (he : Expr.LoopsIfOption c e) : Expr.LoopsIfOption c (clause at_ env e).value := by
  cases e with
  | none => trivial
  | some e => exact loopsIf_expr at_ env (e := e) he
termination_by structural e

theorem loopsIf_stmt (at_ : Surroundings) (env : Scopes) {s : Stmt} (hs : s.LoopsIf c) :
    (stmt at_ env s).value.1.LoopsIf c := by
  cases s with
  | exprStmt span e | printStmt span e => exact loopsIf_expr at_ env (e := e) hs
  | varDecl span name e => exact loopsIf_clause at_ _ (e := e) hs
  | returnStmt span e =>
    cases e with
    | none => trivial
    | some e => exact loopsIf_expr at_ env (e := e) hs
  | block span body => exact loopsIf_stmts at_ _ (show Stmt.LoopsIfAll c body from hs)
  | ifStmt span p a b =>
    cases b with
    | none => exact ⟨loopsIf_expr at_ env hs.1, loopsIf_stmt at_ env hs.2.1, trivial⟩
    | some b =>
      exact ⟨loopsIf_expr at_ env hs.1, loopsIf_stmt at_ env hs.2.1,
        loopsIf_stmt at_ _ (s := b) hs.2.2⟩
  | whileStmt span p b => exact ⟨hs.1, loopsIf_expr at_ env hs.2.1, loopsIf_stmt _ env hs.2.2⟩
  | forStmt span init p i b =>
    cases init with
    | none =>
      exact ⟨hs.1, trivial, loopsIf_clause at_ env hs.2.2.1, loopsIf_clause _ _ hs.2.2.2.1,
        loopsIf_stmt _ _ hs.2.2.2.2⟩
    | some init =>
      exact ⟨hs.1, loopsIf_stmt at_ _ (s := init) hs.2.1, loopsIf_clause at_ _ hs.2.2.1,
        loopsIf_clause _ _ hs.2.2.2.1, loopsIf_stmt _ _ hs.2.2.2.2⟩
  | breakStmt span => trivial
  | funDecl d => exact loopsIf_funDecl at_ _ _ (d := d) hs
  | classDecl span name sup ms ss =>
    cases sup with
    | none => exact ⟨loopsIf_methods _ _ _ hs.1, loopsIf_methods _ _ _ hs.2⟩
    | some sup => exact ⟨loopsIf_methods _ _ _ hs.1, loopsIf_methods _ _ _ hs.2⟩
termination_by structural s

theorem loopsIf_stmts (at_ : Surroundings) (env : Scopes) {ss : List Stmt}
    (hss : Stmt.LoopsIfAll c ss) : Stmt.LoopsIfAll c (stmts at_ env ss).value.1 := by
  cases ss with
  | nil => trivial
  | cons s r => exact ⟨loopsIf_stmt at_ env hss.1, loopsIf_stmts at_ _ hss.2⟩
termination_by structural ss

theorem loopsIf_funDecl (at_ : Surroundings) (env : Scopes) (kind : Body) {d : FunDecl}
    (hd : d.LoopsIf c) : (funDecl at_ env kind d).value.LoopsIf c := by
  obtain ⟨span, name, params, body⟩ := d
  exact loopsIf_stmts _ _ (show Stmt.LoopsIfAll c body from hd)
termination_by structural d

theorem loopsIf_methods (at_ : Surroundings) (env : Scopes) (ofInstances : Bool) {ds : List FunDecl}
    (hds : FunDecl.LoopsIfAll c ds) :
    FunDecl.LoopsIfAll c (methods at_ env ofInstances ds).value := by
  cases ds with
  | nil => trivial
  | cons d r => exact ⟨loopsIf_funDecl at_ env _ hds.1, loopsIf_methods at_ env ofInstances hds.2⟩
termination_by structural ds

end

end Resolve

end Lox
