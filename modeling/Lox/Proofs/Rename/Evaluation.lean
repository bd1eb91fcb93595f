import Lox.Proofs.Rename.Lockstep

set_option autoImplicit false
set_option relaxedAutoImplicit false

namespace Lox

open Text (lit)
open Layers

/-- A function and its renamed form may run inside a frame with so many arguments. -/
structure Function.RunsRenamed (r : Renaming) (W : World) (f f' : Function) (closure : FrameId)
    (args args' : List Value) : Prop where
  outline : f.SameOutline f'
  arguments : args.length = f.arity
  alike : List.Forall₂ (Value.Alike (W.likeness r)) args args'
  code : ∃ ls marks here, W.At closure ls marks ∧ (∀ p ∈ f.params, p.name ≠ lit "super") ∧
    Stmt.ScopedAll (.ofParams f.params :: ls) .inFunction f.body ∧
    (∀ p ∈ f.params, r.Allows (here :: marks) p.name) ∧
    f'.params = f.params.map (r.param here) ∧ Stmt.RenamedAll r (here :: marks) f.body f'.body

namespace Eval

/-- Everything that evaluation does within a bound on steps is in lockstep. -/
structure LockstepAt (r : Renaming) (st : Settings) (fuel : Nat) : Prop where
  expr : ∀ {c : List Bool} {m : Machine} {h : Heap} {env : FrameId}
    {ls : Layers} {marks : List Bool}
    {e e' : Expr}, (m.world c).Twin r h → (m.world c).At env ls marks → e.Scoped ls →
    Expr.Renamed r marks e e' →
    Lockstep r (expr st fuel e env) (expr st fuel e' env) c m h fun W => Value.Alike (W.likeness r)
  exprs : ∀ {c : List Bool} {m : Machine} {h : Heap} {env : FrameId}
    {ls : Layers} {marks : List Bool}
    {es es' : List Expr}, (m.world c).Twin r h →
      (m.world c).At env ls marks → Expr.ScopedAll ls es →
    Expr.RenamedAll r marks es es' →
    Lockstep r (exprs st fuel es env) (exprs st fuel es' env) c m h
      fun W => List.Forall₂ (Value.Alike (W.likeness r))
  apply : ∀ {c : List Bool} {m : Machine} {h : Heap} {callee callee' : Value}
    {args args' : List Value},
    (m.world c).Twin r h → Value.Alike ((m.world c).likeness r) callee callee' →
    List.Forall₂ (Value.Alike ((m.world c).likeness r)) args args' →
    arity? st callee = some args.length →
    Lockstep r (apply st fuel callee args) (apply st fuel callee' args') c m h
      fun W => Value.Alike (W.likeness r)
  method : ∀ {c : List Bool} {m : Machine} {h : Heap} {f f' : Function} {receiver receiver' : Value}
    {args args' : List Value}, (m.world c).Twin r h → ((m.world c).likeness r).member f f' →
    Value.Alike ((m.world c).likeness r) receiver receiver' →
    List.Forall₂ (Value.Alike ((m.world c).likeness r)) args args' → args.length = f.arity →
    Lockstep r (method st fuel f receiver args) (method st fuel f' receiver' args') c m h
      fun W => Value.Alike (W.likeness r)
  function : ∀ {c : List Bool} {m : Machine} {h : Heap} {f f' : Function} {closure : FrameId}
    {args args' : List Value}, (m.world c).Twin r h →
    f.RunsRenamed r (m.world c) f' closure args args' →
    Lockstep r (function st fuel f closure args) (function st fuel f' closure args') c m h
      fun W => Value.Alike (W.likeness r)
  perform : ∀ {c : List Bool} {m : Machine} {h : Heap} {action action' : Action},
    (m.world c).Twin r h → Action.Paired .alike ((m.world c).likeness r) action action' →
    Lockstep r (perform st fuel action) (perform st fuel action') c m h
      fun W => Value.Alike (W.likeness r)
  stmt : ∀ {c : List Bool} {m : Machine} {h : Heap} {env : FrameId}
    {ls : Layers} {marks : List Bool}
    {takes : Takes} {s s' : Stmt}, (m.world c).Twin r h → (m.world c).At env ls marks →
    s.Scoped ls takes → Stmt.Renamed r marks s s' →
    Lockstep r (stmt st fuel s env) (stmt st fuel s' env) c m h fun W signal signal' =>
      Signal.Alike (W.likeness r) signal signal' ∧ W.At env (s.after ls) marks
  stmts : ∀ {c : List Bool} {m : Machine} {h : Heap} {env : FrameId}
    {ls : Layers} {marks : List Bool}
    {takes : Takes} {ss ss' : List Stmt}, (m.world c).Twin r h → (m.world c).At env ls marks →
    Stmt.ScopedAll ls takes ss → Stmt.RenamedAll r marks ss ss' →
    Lockstep r (stmts st fuel ss env) (stmts st fuel ss' env) c m h
      fun W => Signal.Alike (W.likeness r)
  whileLoop : ∀ {c : List Bool} {m : Machine} {h : Heap} {env : FrameId} {ls : Layers}
    {marks : List Bool} {takes : Takes} {e e' : Expr} {body body' : Stmt} (span : Span),
    (m.world c).Twin r h → (m.world c).At env ls marks → e.Scoped ls → body.Scoped ls takes →
    Expr.Renamed r marks e e' → Stmt.Renamed r marks body body' →
    Lockstep r (whileLoop st fuel span e body env) (whileLoop st fuel span e' body' env) c m h
      fun W => Signal.Alike (W.likeness r)
  forLoop : ∀ {c : List Bool} {m : Machine} {h : Heap} {env : FrameId} {ls : Layers}
    {marks : List Bool} {takes : Takes} {e e' i i' : Option Expr} {body body' : Stmt} (span : Span)
    (round : Bool), (m.world c).Twin r h → (m.world c).At env ls marks →
    Expr.ScopedOption ls e → body.Scoped (.empty :: ls) takes → Expr.ScopedOption (.empty :: ls) i →
    Expr.RenamedOption r marks e e' → Stmt.Renamed r (round :: marks) body body' →
    Expr.RenamedOption r (round :: marks) i i' →
    Lockstep r (forLoop st fuel span e i body env) (forLoop st fuel span e' i' body' env) c m h
      fun W => Signal.Alike (W.likeness r)
  clauseHolds : ∀ {c : List Bool} {m : Machine} {h : Heap} {env : FrameId} {ls : Layers}
    {marks : List Bool} {e e' : Option Expr}, (m.world c).Twin r h → (m.world c).At env ls marks →
    Expr.ScopedOption ls e → Expr.RenamedOption r marks e e' →
    Lockstep r (clauseHolds st fuel e env) (clauseHolds st fuel e' env) c m h fun _ b b' => b' = b

private theorem lockstepAt_zero (r : Renaming) (st : Settings) : LockstepAt r st 0 where
  expr ht _ _ _ := by rw [Eval.expr, Eval.expr]; exact .exhaust ht
  exprs ht _ _ _ := by rw [Eval.exprs, Eval.exprs]; exact .exhaust ht
  apply ht _ _ _ := by rw [Eval.apply, Eval.apply]; exact .exhaust ht
  method ht _ _ _ _ := by rw [Eval.method, Eval.method]; exact .exhaust ht
  function ht _ := by rw [Eval.function, Eval.function]; exact .exhaust ht
  perform ht _ := by rw [Eval.perform, Eval.perform]; exact .exhaust ht
  stmt ht _ _ _ := by rw [Eval.stmt, Eval.stmt]; exact .exhaust ht
  stmts ht _ _ _ := by rw [Eval.stmts, Eval.stmts]; exact .exhaust ht
  whileLoop _ ht _ _ _ _ _ := by rw [Eval.whileLoop, Eval.whileLoop]; exact .exhaust ht
  forLoop _ _ ht _ _ _ _ _ _ _ := by rw [Eval.forLoop, Eval.forLoop]; exact .exhaust ht
  clauseHolds ht _ _ _ := by rw [Eval.clauseHolds, Eval.clauseHolds]; exact .exhaust ht

variable {r : Renaming} {st : Settings} {fuel : Nat} {c : List Bool} {m : Machine} {h : Heap}
  {env : FrameId} {ls : Layers} {marks : List Bool} {takes : Takes}

private theorem lockstep_funDecl {d d' : FunDecl} (ht : (m.world c).Twin r h)
    (hat : (m.world c).At env ls marks) (hscoped : (Stmt.funDecl d).Scoped ls takes)
    (hrenamed : Stmt.Renamed r marks (.funDecl d) (.funDecl d')) :
    Lockstep r (Eval.stmt st (fuel + 1) (.funDecl d) env)
      (Eval.stmt st (fuel + 1) (.funDecl d') env)
      c m h fun W signal signal' =>
        Signal.Alike (W.likeness r) signal signal' ∧ W.At env (declare d.name ls) marks := by
  obtain ⟨span, name, ps, body⟩ := d
  obtain ⟨hsuper, hparams, hbody⟩ := hscoped
  cases hrenamed with
  | funDecl hname hsame hd =>
    cases hd with
    | @mk _ _ _ _ _ body' here hallows hbody' =>
      rw [Eval.stmt, Eval.stmt]
      refine (lockstep_newFunction (List.length_map ..).symm ht).bind
        fun f f' c₁ m₁ h₁ hgrows ht₁ hf => ?_
      obtain ⟨houtline, rfl, hinit, ⟨rfl, hps'⟩, rfl, rfl⟩ := hf
      have hat₁ := hat.mono hgrows
      -- The code may use the name of its function, which is bound only now.
      have hat₂ := hat₁.define hsuper (.function f)
      have hfunction :
        Value.Alike (World.likeness ⟨c₁, m₁.heap.define f.closure name (.function f)⟩ r)
          (.function f) (.function f') :=
        .function ⟨hinit, houtline, _, marks, here, hat₂, hparams, hbody, hallows, hps', hbody'⟩
      have hdefine := Lockstep.define ht₁ (hat₁.instance ht₁) hsuper
        (fun hhere => hname (Renaming.mem_of_here hhere)) hfunction
      rw [hsame] at hdefine
      refine hdefine.bind fun _ _ c₂ m₂ h₂ _ ht₂ hW => .give ht₂ ⟨.normal, ?_⟩
      rw [hW]
      exact hat₂

private theorem lockstep_classDecl {span : Span} {name : Text} {sup : Option NameUse} {s' : Stmt}
    {ms ss : List FunDecl} (ht : (m.world c).Twin r h) (hat : (m.world c).At env ls marks)
    (hscoped : (Stmt.classDecl span name sup ms ss).Scoped ls takes)
    (hrenamed : Stmt.Renamed r marks (.classDecl span name sup ms ss) s') :
    Lockstep r (Eval.stmt st (fuel + 1) (.classDecl span name sup ms ss) env)
      (Eval.stmt st (fuel + 1) s' env) c m h fun W signal signal' =>
        Signal.Alike (W.likeness r) signal signal' ∧ W.At env (declare name ls) marks := by
  cases hrenamed with
  | classDecl hname hsame hms' hss' =>
    obtain ⟨hsuper, hms, hss⟩ := hscoped
    rw [Eval.stmt, Eval.stmt]
    have hnil : Value.Alike (World.likeness ⟨c, m.heap.define env name .nil⟩ r) .nil .nil := .nil
    have hdefine := Lockstep.define ht (hat.instance ht) hsuper
      (fun hhere => hname (Renaming.mem_of_here hhere)) hnil
    rw [hsame] at hdefine
    refine hdefine.bind fun _ _ c₁ m₁ h₁ hgrows ht₁ hW => ?_
    have hat₁ := hat.define hsuper .nil
    rw [← hW] at hat₁
    refine (lockstep_newClass ht₁ hat₁
      (hat.mono hgrows) hsuper hname hsame .none hms hss hms' hss').bind
      fun _ _ c₂ m₂ h₂ _ ht₂ hat₂ => ?_
    exact .give ht₂ ⟨.normal, hat₂⟩
  | @subclass _ _ _ sup _ _ _ _ hname hsame hsup hms' hss' =>
    obtain ⟨hsuper, hreaches, hms, hss⟩ := hscoped
    rw [Eval.stmt, Eval.stmt]
    refine (lockstep_readName _ ht hat hreaches hsup).bind fun v v' c₁ m₁ h₁ hgrows₁ ht₁ hv => ?_
    cases hv with
    | @cls k k' hk =>
      have hat₁ := hat.mono hgrows₁
      have hnil : Value.Alike (World.likeness ⟨c₁, m₁.heap.define env name .nil⟩ r) .nil .nil :=
        .nil
      have hdefine := Lockstep.define ht₁ (hat₁.instance ht₁) hsuper
        (fun hhere => hname (Renaming.mem_of_here hhere)) hnil
      rw [hsame] at hdefine
      refine hdefine.bind fun _ _ c₂ m₂ h₂ hgrows₂ ht₂ hW => ?_
      have hat₂ := hat₁.define hsuper .nil
      rw [← hW] at hat₂
      have hk₂ := hk.mono hgrows₂.within
      refine (Lockstep.newSingle ht₂ hat₂ (.cls hk₂) fun _ => ⟨k, rfl⟩).bind
        fun inner inner' c₃ m₃ h₃ hgrows₃ ht₃ hinner => ?_
      obtain ⟨rfl, hinner⟩ := hinner
      refine (lockstep_newClass ht₃ hinner (hat₁.mono (hgrows₂.trans hgrows₃)) hsuper hname hsame
        (.some (hk₂.mono hgrows₃.within)) hms hss hms' hss').bind fun _ _ c₄ m₄ h₄ _ ht₄ hat₄ => ?_
      exact .give ht₄ ⟨.normal, hat₄⟩
    | _ => exact .error _ _ ht₁

private theorem firstSpan_renamed {body body' : List Stmt}
    (hrenamed : Stmt.RenamedAll r marks body body') :
    firstSpan body' = firstSpan body := by
  cases hrenamed with
  | nil => rfl
  | cons hs _ => exact congrArg some hs.span

namespace LockstepAt

variable (ih : LockstepAt r st fuel)
include ih

private theorem call_succ {span : Span} {f f' : Expr} {args args' : List Expr}
    (ht : (m.world c).Twin r h)
    (hat : (m.world c).At env ls marks) (hscoped : (Expr.call span f args).Scoped ls)
    (hf : Expr.Renamed r marks f f') (hargs : Expr.RenamedAll r marks args args') :
    Lockstep r (Eval.expr st (fuel + 1) (.call span f args) env)
      (Eval.expr st (fuel + 1) (.call span f' args') env) c m h fun W =>
        Value.Alike (W.likeness r) := by
  rw [Eval.expr, Eval.expr]
  refine (ih.expr ht hat hscoped.1 hf).bind fun callee callee' c₁ m₁ h₁ hgrows₁ ht₁ hcallee => ?_
  refine (ih.exprs ht₁ (hat.mono hgrows₁) hscoped.2 hargs).bind
    fun vs vs' c₂ m₂ h₂ hgrows₂ ht₂ hvs => ?_
  rw [← hcallee.arity? st, ← hvs.length_eq]
  cases harity : arity? st callee with
  | none => exact .error _ _ ht₂
  | some expected =>
    dsimp only
    split
    · exact .error _ _ ht₂
    · rename_i hcount
      have hlength : vs.length = expected := Decidable.not_not.1 hcount
      refine .counted span hcallee.print (fun c₃ m₃ h₃ hgrows₃ ht₃ => ?_) ht₂
      exact ih.apply ht₃ (hcallee.mono (hgrows₂.trans hgrows₃).within)
        (hvs.imp fun _ _ hv => hv.mono hgrows₃.within) (hlength ▸ harity)

private theorem expr_succ {e e' : Expr} (ht : (m.world c).Twin r h)
    (hat : (m.world c).At env ls marks)
    (hscoped : e.Scoped ls) (hrenamed : Expr.Renamed r marks e e') :
    Lockstep r (Eval.expr st (fuel + 1) e env) (Eval.expr st (fuel + 1) e' env) c m h
      fun W => Value.Alike (W.likeness r) := by
  cases hrenamed with
  | @literal _ _ v =>
    rw [Eval.expr]
    exact .give ht (Value.Alike.ofLiteral _ v)
  | grouping he =>
    rw [Eval.expr, Eval.expr]
    exact ih.expr ht hat hscoped he
  | unary he =>
    rw [Eval.expr, Eval.expr]
    refine (ih.expr ht hat hscoped.2 he).bind fun v v' c₁ m₁ h₁ hgrows ht₁ hv => ?_
    exact lockstep_unary _ _ ht₁ hv
  | binary ha hb =>
    rw [Eval.expr, Eval.expr]
    refine (ih.expr ht hat hscoped.2.1 ha).bind fun v v' c₁ m₁ h₁ hgrows₁ ht₁ hv => ?_
    refine (ih.expr ht₁ (hat.mono hgrows₁) hscoped.2.2 hb).bind
      fun w w' c₂ m₂ h₂ hgrows₂ ht₂ hw => ?_
    exact lockstep_binary _ _ ht₂ (hv.mono hgrows₂.within) hw
  | @logical _ _ op _ _ _ _ ha hb =>
    rw [Eval.expr, Eval.expr]
    refine (ih.expr ht hat hscoped.1 ha).bind fun v v' c₁ m₁ h₁ hgrows ht₁ hv => ?_
    rw [decides_eq hv op]
    split
    · exact .give ht₁ hv
    · exact ih.expr ht₁ (hat.mono hgrows) hscoped.2 hb
  | conditional hc ha hb =>
    rw [Eval.expr, Eval.expr]
    refine (ih.expr ht hat hscoped.1 hc).bind fun v v' c₁ m₁ h₁ hgrows ht₁ hv => ?_
    rw [hv.truthy]
    split
    · exact ih.expr ht₁ (hat.mono hgrows) hscoped.2.1 ha
    · exact ih.expr ht₁ (hat.mono hgrows) hscoped.2.2 hb
  | name hname =>
    rw [Eval.expr, Eval.expr]
    exact lockstep_readName _ ht hat hscoped hname
  | assign hname he =>
    rw [Eval.expr, Eval.expr]
    obtain ⟨hvalue, hreaches, hsuper⟩ := hscoped
    refine (ih.expr ht hat hvalue he).bind fun v v' c₁ m₁ h₁ hgrows₁ ht₁ hv => ?_
    refine (lockstep_assignName ht₁ hv (hat.mono hgrows₁) hreaches hsuper hname).bind
      fun _ _ c₂ m₂ h₂ hgrows₂ ht₂ _ => ?_
    exact .give ht₂ (hv.mono hgrows₂.within)
  | call hf hargs => exact ih.call_succ ht hat hscoped hf hargs
  | @get _ _ o _ _ ho =>
    have hobject : o.Scoped ls := hscoped
    rw [Eval.expr, Eval.expr]
    refine (ih.expr ht hat hobject ho).bind fun v v' c₁ m₁ h₁ hgrows ht₁ hv => ?_
    exact lockstep_property _ _ ht₁ hv
  | @set _ _ _ _ _ _ n ho he =>
    rw [Eval.expr, Eval.expr]
    refine (ih.expr ht hat hscoped.1 ho).bind fun v v' c₁ m₁ h₁ hgrows₁ ht₁ hv => ?_
    cases hv with
    | object i _ =>
      refine (ih.expr ht₁ (hat.mono hgrows₁) hscoped.2 he).bind
        fun w w' c₂ m₂ h₂ hgrows₂ ht₂ hw => ?_
      have hset := ht₂.setField i n hw
      have hgrows :=
        World.Twin.keepsFrames (m₂.world c₂) (rfl : (m₂.heap.setField i n w).frames = _)
      refine (Lockstep.change (Q := fun _ _ _ => True) hgrows hset trivial).bind
        fun _ _ c₃ m₃ h₃ hgrows₃ ht₃ _ => ?_
      exact .give ht₃ (hw.mono hgrows₃.within)
    | _ => exact .error _ _ ht₁
  | @this _ span =>
    have hsame : ∀ b, r.apply b (lit "this") = lit "this" := fun b => r.apply_keyword b .this_
    rw [Eval.expr]
    have hread := lockstep_readName span ht hat hscoped (r.allows_keyword marks .this_)
    rw [hsame] at hread
    exact hread
  | super =>
    rw [Eval.expr]
    exact lockstep_superMethod ht hat hscoped
  | lambda here hallows hbody =>
    rw [Eval.expr, Eval.expr]
    refine (lockstep_newFunction_renamed [] ht hat hscoped.1 hscoped.2 hallows hbody).bind
      fun f f' c₁ m₁ h₁ hgrows ht₁ hf => ?_
    exact .give ht₁ (.function hf)

private theorem exprs_succ {es es' : List Expr} (ht : (m.world c).Twin r h)
    (hat : (m.world c).At env ls marks)
    (hscoped : Expr.ScopedAll ls es) (hrenamed : Expr.RenamedAll r marks es es') :
    Lockstep r (Eval.exprs st (fuel + 1) es env) (Eval.exprs st (fuel + 1) es' env) c m h
      fun W => List.Forall₂ (Value.Alike (W.likeness r)) := by
  cases hrenamed with
  | nil =>
    rw [Eval.exprs]
    exact .give ht .nil
  | cons he hes =>
    rw [Eval.exprs, Eval.exprs]
    refine (ih.expr ht hat hscoped.1 he).bind fun v v' c₁ m₁ h₁ hgrows₁ ht₁ hv => ?_
    refine (ih.exprs ht₁ (hat.mono hgrows₁) hscoped.2 hes).bind
      fun vs vs' c₂ m₂ h₂ hgrows₂ ht₂ hvs => ?_
    exact .give ht₂ (.cons (hv.mono hgrows₂.within) hvs)

private theorem apply_succ {callee callee' : Value} {args args' : List Value}
    (hnatives : ∀ n ∈ st.natives, n.Blind) (ht : (m.world c).Twin r h)
    (hcallee : Value.Alike ((m.world c).likeness r) callee callee')
    (hargs : List.Forall₂ (Value.Alike ((m.world c).likeness r)) args args')
    (harity : arity? st callee = some args.length) :
    Lockstep r (Eval.apply st (fuel + 1) callee args) (Eval.apply st (fuel + 1) callee' args') c m h
      fun W => Value.Alike (W.likeness r) := by
  cases hcallee with
  | @function f f' hf =>
    rw [Eval.apply, Eval.apply]
    obtain ⟨hinit, houtline, ls, marks, here, hat, hcode⟩ := hf
    rw [← houtline.closure]
    exact ih.function ht
      ⟨houtline, (Option.some.inj harity).symm, hargs, ls, marks, here, hat, hcode⟩
  | method i hf hreceiver =>
    rw [Eval.apply, Eval.apply]
    exact ih.method ht hf hreceiver hargs (Option.some.inj harity).symm
  | native i =>
    obtain ⟨n, hn, hlength⟩ := Option.map_eq_some_iff.1 harity
    rw [Eval.apply, Eval.apply, hn]
    exact ih.perform ht (hnatives n (Array.mem_of_getElem? hn) _ args args' hlength.symm hargs)
  | @cls k k' hk =>
    rw [Eval.apply, Eval.apply]
    refine (Lockstep.newObject ht hk).bind fun object object' c₁ m₁ h₁ hgrows₁ ht₁ hobject => ?_
    have hcount : k.arity = args.length := Option.some.inj harity
    have hinit : Option.Rel ((m.world c).likeness r).member k.initializer k'.initializer :=
      hk.findMethod (lit "init")
    unfold Class.arity at hcount
    generalize k.initializer = f, k'.initializer = f' at hinit hcount
    cases hinit with
    | none => exact .give ht₁ hobject
    | some hf =>
      refine (ih.method ht₁ (hgrows₁.within.member hf) hobject
        (hargs.imp fun _ _ hv => hv.mono hgrows₁.within) hcount.symm).bind
        fun _ _ c₂ m₂ h₂ hgrows₂ ht₂ _ => ?_
      exact .give ht₂ (hobject.mono hgrows₂.within)
  | _ => cases harity

private theorem method_succ {f f' : Function} {receiver receiver' : Value} {args args' : List Value}
    (ht : (m.world c).Twin r h) (hf : ((m.world c).likeness r).member f f')
    (hreceiver : Value.Alike ((m.world c).likeness r) receiver receiver')
    (hargs : List.Forall₂ (Value.Alike ((m.world c).likeness r)) args args')
    (hlength : args.length = f.arity) :
    Lockstep r (Eval.method st (fuel + 1) f receiver args)
      (Eval.method st (fuel + 1) f' receiver' args')
      c m h fun W => Value.Alike (W.likeness r) := by
  rw [Eval.method, Eval.method]
  obtain ⟨houtline, ls, marks, here, hat, hcode⟩ := hf
  rw [← houtline.closure]
  refine (Lockstep.newSingle ht hat hreceiver fun h => absurd h (by decide)).bind
    fun closure closure' c₁ m₁ h₁ hgrows ht₁ hclosure => ?_
  obtain ⟨rfl, hclosure⟩ := hclosure
  exact ih.function ht₁
    ⟨houtline, hlength, hargs.imp fun _ _ hv => hv.mono hgrows.within, _, _, here,
    hclosure, hcode⟩

private theorem function_succ {f f' : Function} {closure : FrameId} {args args' : List Value}
    (ht : (m.world c).Twin r h) (hruns : f.RunsRenamed r (m.world c) f' closure args args') :
    Lockstep r (Eval.function st (fuel + 1) f closure args)
      (Eval.function st (fuel + 1) f' closure args')
      c m h fun W => Value.Alike (W.likeness r) := by
  rw [Eval.function, Eval.function]
  obtain ⟨houtline, hlength, hargs, ls, marks, here, hat, hparams, hscoped,
      hallows, hparams', hbody⟩ :=
    hruns
  have henough : ¬ args.length < f.arity := by omega
  have henough' : ¬ args'.length < f'.arity := by
    rw [← houtline.arity, ← hargs.length_eq]
    exact henough
  rw [if_neg henough, if_neg henough', hparams']
  have hbindings := parameterBindings_renamed
    (fun hhere p hp => hallows p hp (Renaming.mem_of_here hhere)) hargs
  refine (Lockstep.newFrame ht hat (heldBy_parameterBindings hlength hparams) hbindings).bind
    fun env env' c₁ m₁ h₁ hgrows₁ ht₁ henv => ?_
  obtain ⟨rfl, henv⟩ := henv
  refine (ih.stmts ht₁ henv hscoped hbody).bind
    fun signal signal' c₂ m₂ h₂ hgrows₂ ht₂ hsignal => ?_
  exact lockstep_result ht₂ (hat.mono (hgrows₁.trans hgrows₂)) houtline
    (firstSpan_renamed hbody) hsignal

private theorem perform_succ {action action' : Action} (ht : (m.world c).Twin r h)
    (haction : Action.Paired .alike ((m.world c).likeness r) action action') :
    Lockstep r (Eval.perform st (fuel + 1) action) (Eval.perform st (fuel + 1) action') c m h
      fun W => Value.Alike (W.likeness r) := by
  cases haction with
  | give hv =>
    rw [Eval.perform, Eval.perform]
    exact .give ht hv
  | @fail _ f _ hsame =>
    obtain rfl := hsame
    rw [Eval.perform]
    exact .fail f ht
  | write line hnext =>
    rw [Eval.perform, Eval.perform]
    refine (Lockstep.write st line ht).bind fun fault fault' c₁ m₁ h₁ _ ht₁ hwritten => ?_
    obtain ⟨hworld, rfl⟩ := hwritten
    exact ih.perform ht₁ (hworld ▸ hnext fault')
  | clock hnext =>
    rw [Eval.perform, Eval.perform]
    exact ih.perform ht (hnext _)
  | cancel hnext =>
    rw [Eval.perform, Eval.perform]
    exact .cancel (ih.perform (m := { m with canceled := true }) ht hnext)
  | @invoke _ callee callee' args args' next next' hcallee hargs hrefused hgave hfailed =>
    by_cases harity : arity? st callee = some args.length
    · have harity' : arity? st callee' = some args'.length := by
        rw [← hcallee.arity? st, ← hargs.length_eq]
        exact harity
      rw [perform_invoke fuel next harity, perform_invoke fuel next' harity']
      refine (ih.apply ht hcallee hargs harity).settle
        (fun v v' c₁ m₁ h₁ hgrows ht₁ hv => ?_) fun f c₁ m₁ h₁ hgrows ht₁ => ?_
      · exact ih.perform ht₁ (hgave _ hgrows.within v v' hv)
      · exact ih.perform ht₁ (hfailed _ hgrows.within f f rfl)
    · have harity' : ¬ arity? st callee' = some args'.length := by
        rw [← hcallee.arity? st, ← hargs.length_eq]
        exact harity
      rw [perform_refused fuel next harity, perform_refused fuel next' harity']
      exact ih.perform ht hrefused

private theorem varDecl_succ {span : Span} {name : Text} {init init' : Option Expr}
    (ht : (m.world c).Twin r h)
    (hat : (m.world c).At env ls marks) (hscoped : (Stmt.varDecl span name init).Scoped ls takes)
    (hname : r.Allows marks name) (hrenamed : Expr.RenamedOption r marks init init') :
    Lockstep r (Eval.stmt st (fuel + 1) (.varDecl span name init) env)
      (Eval.stmt st (fuel + 1) (.varDecl span (r.apply (Renaming.here marks) name) init') env) c m h
      fun W signal signal' =>
        Signal.Alike (W.likeness r) signal signal' ∧ W.At env (declare name ls) marks := by
  obtain ⟨hsuper, hinit⟩ := hscoped
  have hallowed : Renaming.here marks = true → name ≠ r.new :=
    fun hhere => hname (Renaming.mem_of_here hhere)
  cases hrenamed with
  | none =>
    rw [Eval.stmt, Eval.stmt]
    refine (Lockstep.define ht (hat.instance ht) hsuper hallowed .nil).bind
      fun _ _ c₁ m₁ h₁ hgrows ht₁ hW => .give ht₁ ⟨.normal, ?_⟩
    rw [hW]
    exact hat.define hsuper .nil
  | @some _ e e' he =>
    have hdeclared : ∀ c₁ m₁ h₁, (m.world c).Grows (m₁.world c₁) → (m₁.world c₁).Twin r h₁ →
        (m₁.world c₁).At env (declare name ls) marks →
        Lockstep r
          (Eval.expr st fuel e env >>= fun v => Run.change (·.define env name v) >>= fun _ =>
            Run.give Signal.normal)
          (Eval.expr st fuel e' env >>= fun v =>
            Run.change (·.define env (r.apply (Renaming.here marks) name) v) >>= fun _ =>
            Run.give Signal.normal) c₁ m₁ h₁ fun W signal signal' =>
              Signal.Alike (W.likeness r) signal signal' ∧ W.At env (declare name ls) marks := by
      intro c₁ m₁ h₁ hgrows₁ ht₁ hat₁
      refine (ih.expr ht₁ hat₁ hinit he).bind fun v v' c₂ m₂ h₂ hgrows₂ ht₂ hv => ?_
      have hat₂ := hat.mono (hgrows₁.trans hgrows₂)
      refine (Lockstep.define ht₂ (hat₂.instance ht₂) hsuper hallowed
        (hv.mono (World.Twin.defines _ env hsuper v).within)).bind
        fun _ _ c₃ m₃ h₃ hgrows₃ ht₃ hW => .give ht₃ ⟨.normal, ?_⟩
      rw [hW]
      exact hat₂.define hsuper v
    rw [Eval.stmt, Eval.stmt]
    by_cases hglobal : env = Heap.globals
    · rw [if_neg (not_not.2 hglobal), if_neg (not_not.2 hglobal)]
      have hlayers : ls = [] := by
        cases ls with
        | nil => rfl
        | cons l ls =>
          obtain ⟨p, bs, hframe, -⟩ := hat.fits
          obtain ⟨bs', hglobals⟩ := ht.globals
          rw [hglobal, hglobals] at hframe
          cases hframe
      subst hlayers
      exact hdeclared c m h (.refl _) ht hat
    · rw [if_pos hglobal, if_pos hglobal]
      obtain ⟨hgrows, hdeclare⟩ := ht.declare (hat.instance ht) hsuper hallowed
      refine (Lockstep.change (Q := fun W _ _ => W = ⟨c, m.heap.declare env name⟩)
        hgrows hdeclare rfl).bind fun _ _ c₁ m₁ h₁ hgrows₁ ht₁ hW => ?_
      refine hdeclared c₁ m₁ h₁ hgrows₁ ht₁ ?_
      rw [hW]
      exact ⟨hat.fits.declare hsuper, hat.marks.mono hgrows⟩

private theorem stmt_succ {s s' : Stmt} (ht : (m.world c).Twin r h)
    (hat : (m.world c).At env ls marks)
    (hscoped : s.Scoped ls takes) (hrenamed : Stmt.Renamed r marks s s') :
    Lockstep r (Eval.stmt st (fuel + 1) s env) (Eval.stmt st (fuel + 1) s' env) c m h
      fun W signal signal' =>
        Signal.Alike (W.likeness r) signal signal' ∧ W.At env (s.after ls) marks := by
  cases hrenamed with
  | exprStmt he =>
    rw [Eval.stmt, Eval.stmt]
    refine (ih.expr ht hat hscoped he).bind fun _ _ c₁ m₁ h₁ hgrows ht₁ _ => ?_
    exact .give ht₁ ⟨.normal, hat.mono hgrows⟩
  | printStmt he =>
    rw [Eval.stmt, Eval.stmt]
    refine (ih.expr ht hat hscoped he).bind fun v v' c₁ m₁ h₁ hgrows₁ ht₁ hv => ?_
    rw [hv.print]
    refine (Lockstep.write st _ ht₁).bind fun _ _ c₂ m₂ h₂ hgrows₂ ht₂ _ => ?_
    exact .give ht₂ ⟨.normal, (hat.mono hgrows₁).mono hgrows₂⟩
  | varDecl hname hinit => exact ih.varDecl_succ ht hat hscoped hname hinit
  | block here hbody =>
    rw [Eval.stmt, Eval.stmt]
    refine (Lockstep.newBlock here ht hat).bind fun inner inner' c₁ m₁ h₁ hgrows₁ ht₁ hinner => ?_
    obtain ⟨rfl, hinner⟩ := hinner
    refine (ih.stmts ht₁ hinner hscoped hbody).imp fun W signal signal' hgrows₂ hsignal => ?_
    exact ⟨hsignal, (hat.mono hgrows₁).mono hgrows₂⟩
  | ifThen hc ha =>
    obtain ⟨hcscoped, hdecl, hascoped, -⟩ := hscoped
    unfold Eval.stmt
    refine (ih.expr ht hat hcscoped hc).bind fun v v' c₁ m₁ h₁ hgrows ht₁ hv => ?_
    rw [hv.truthy]
    have hat₁ := hat.mono hgrows
    split
    · have hafter := ih.stmt ht₁ hat₁ hascoped ha
      rwa [Stmt.after_eq_self hdecl] at hafter
    · exact .give ht₁ ⟨.normal, hat₁⟩
  | ifElse hc ha hb =>
    obtain ⟨hcscoped, hdecl, hascoped, hdecl', hbscoped⟩ := hscoped
    unfold Eval.stmt
    refine (ih.expr ht hat hcscoped hc).bind fun v v' c₁ m₁ h₁ hgrows ht₁ hv => ?_
    rw [hv.truthy]
    have hat₁ := hat.mono hgrows
    split
    · have hafter := ih.stmt ht₁ hat₁ hascoped ha
      rwa [Stmt.after_eq_self hdecl] at hafter
    · have hafter := ih.stmt ht₁ hat₁ hbscoped hb
      rwa [Stmt.after_eq_self hdecl'] at hafter
  | whileStmt hc hb =>
    rw [Eval.stmt, Eval.stmt]
    refine (ih.whileLoop _ ht hat hscoped.1 hscoped.2.2 hc hb).imp
      fun W signal signal' hgrows hsignal => ?_
    exact ⟨hsignal, hat.mono hgrows⟩
  | forStmt round hc hb hi =>
    obtain ⟨hcscoped, -, hbscoped, hiscoped⟩ := hscoped
    rw [Eval.stmt, Eval.stmt]
    refine (ih.forLoop _ round ht hat hcscoped hbscoped hiscoped hc hb hi).imp
      fun W signal signal' hgrows hsignal => ?_
    exact ⟨hsignal, hat.mono hgrows⟩
  | forInit outer round hinit hc hb hi =>
    obtain ⟨hinitscoped, hcscoped, -, hbscoped, hiscoped⟩ := hscoped
    rw [Eval.stmt, Eval.stmt]
    refine (Lockstep.newBlock outer ht hat).bind fun frame frame' c₁ m₁ h₁ hgrows₁ ht₁ hframe => ?_
    obtain ⟨rfl, hframe⟩ := hframe
    refine (ih.stmt ht₁ hframe hinitscoped hinit).bind fun _ _ c₂ m₂ h₂ hgrows₂ ht₂ hafter => ?_
    refine (ih.forLoop _ round ht₂ hafter.2 hcscoped hbscoped hiscoped hc hb hi).imp
      fun W signal signal' hgrows₃ hsignal => ?_
    exact ⟨hsignal, ((hat.mono hgrows₁).mono hgrows₂).mono hgrows₃⟩
  | breakStmt =>
    rw [Eval.stmt]
    exact .give ht ⟨.leaveLoop, hat⟩
  | returnStmt he =>
    cases he with
    | none =>
      rw [Eval.stmt]
      exact .give ht ⟨.leaveFunction .nil, hat⟩
    | some he =>
      rw [Eval.stmt, Eval.stmt]
      refine (ih.expr ht hat hscoped.2 he).bind fun v v' c₁ m₁ h₁ hgrows ht₁ hv => ?_
      exact .give ht₁ ⟨.leaveFunction hv, hat.mono hgrows⟩
  | funDecl hname hsame hd => exact lockstep_funDecl ht hat hscoped (.funDecl hname hsame hd)
  | classDecl hname hsame hms hss =>
    exact lockstep_classDecl ht hat hscoped (.classDecl hname hsame hms hss)
  | subclass hname hsame hsup hms hss =>
    exact lockstep_classDecl ht hat hscoped (.subclass hname hsame hsup hms hss)

private theorem stmts_succ {ss ss' : List Stmt} (ht : (m.world c).Twin r h)
    (hat : (m.world c).At env ls marks)
    (hscoped : Stmt.ScopedAll ls takes ss) (hrenamed : Stmt.RenamedAll r marks ss ss') :
    Lockstep r (Eval.stmts st (fuel + 1) ss env) (Eval.stmts st (fuel + 1) ss' env) c m h
      fun W => Signal.Alike (W.likeness r) := by
  cases hrenamed with
  | nil =>
    rw [Eval.stmts]
    exact .give ht .normal
  | cons hs hss =>
    rw [Eval.stmts, Eval.stmts]
    refine (ih.stmt ht hat hscoped.1 hs).bind fun signal signal' c₁ m₁ h₁ hgrows ht₁ hafter => ?_
    cases hafter.1 with
    | normal => exact ih.stmts ht₁ hafter.2 hscoped.2 hss
    | leaveLoop => exact .give ht₁ .leaveLoop
    | leaveFunction hv => exact .give ht₁ (.leaveFunction hv)

private theorem whileLoop_succ {e e' : Expr} {body body' : Stmt} (span : Span)
    (ht : (m.world c).Twin r h)
    (hat : (m.world c).At env ls marks) (hc : e.Scoped ls) (hbody : body.Scoped ls takes)
    (hc' : Expr.Renamed r marks e e') (hbody' : Stmt.Renamed r marks body body') :
    Lockstep r (Eval.whileLoop st (fuel + 1) span e body env)
      (Eval.whileLoop st (fuel + 1) span e' body' env) c m h fun W =>
        Signal.Alike (W.likeness r) := by
  rw [Eval.whileLoop, Eval.whileLoop]
  refine (Lockstep.checkCanceled span ht).bind fun _ _ c₁ m₁ h₁ hgrows₁ ht₁ _ => ?_
  refine (ih.expr ht₁ (hat.mono hgrows₁) hc hc').bind fun v v' c₂ m₂ h₂ hgrows₂ ht₂ hv => ?_
  have hat₂ := (hat.mono hgrows₁).mono hgrows₂
  rw [hv.truthy]
  split
  · exact .give ht₂ .normal
  · refine (ih.stmt ht₂ hat₂ hbody hbody').bind fun signal signal' c₃ m₃ h₃ hgrows₃ ht₃ hafter => ?_
    cases hafter.1 with
    | normal => exact ih.whileLoop span ht₃ (hat₂.mono hgrows₃) hc hbody hc' hbody'
    | leaveLoop => exact .give ht₃ .normal
    | leaveFunction hv => exact .give ht₃ (.leaveFunction hv)

private theorem forLoop_succ {e e' i i' : Option Expr} {body body' : Stmt}
    (span : Span) (round : Bool)
    (ht : (m.world c).Twin r h) (hat : (m.world c).At env ls marks) (hc : Expr.ScopedOption ls e)
    (hbody : body.Scoped (.empty :: ls) takes) (hi : Expr.ScopedOption (.empty :: ls) i)
    (hc' : Expr.RenamedOption r marks e e') (hbody' : Stmt.Renamed r (round :: marks) body body')
    (hi' : Expr.RenamedOption r (round :: marks) i i') :
    Lockstep r (Eval.forLoop st (fuel + 1) span e i body env)
      (Eval.forLoop st (fuel + 1) span e' i' body' env) c m h fun W =>
        Signal.Alike (W.likeness r) := by
  rw [Eval.forLoop, Eval.forLoop]
  refine (Lockstep.checkCanceled span ht).bind fun _ _ c₁ m₁ h₁ hgrows₁ ht₁ _ => ?_
  refine (ih.clauseHolds ht₁ (hat.mono hgrows₁) hc hc').bind
    fun goOn _ c₂ m₂ h₂ hgrows₂ ht₂ hsame => ?_
  cases hsame
  have hat₂ := (hat.mono hgrows₁).mono hgrows₂
  split
  · exact .give ht₂ .normal
  · refine (Lockstep.newBlock round ht₂ hat₂).bind
      fun inner inner' c₃ m₃ h₃ hgrows₃ ht₃ hinner => ?_
    obtain ⟨rfl, hinner⟩ := hinner
    refine (ih.stmt ht₃ hinner hbody hbody').bind
      fun signal signal' c₄ m₄ h₄ hgrows₄ ht₄ hafter => ?_
    cases hafter.1 with
    | normal =>
      refine (ih.clauseHolds ht₄ (hinner.mono hgrows₄) hi hi').bind
        fun _ _ c₅ m₅ h₅ hgrows₅ ht₅ _ => ?_
      have hgrown := (hgrows₃.trans hgrows₄).trans hgrows₅
      exact ih.forLoop span round ht₅ (hat₂.mono hgrown) hc hbody hi hc' hbody' hi'
    | leaveLoop => exact .give ht₄ .normal
    | leaveFunction hv => exact .give ht₄ (.leaveFunction hv)

private theorem clauseHolds_succ {e e' : Option Expr} (ht : (m.world c).Twin r h)
    (hat : (m.world c).At env ls marks) (hscoped : Expr.ScopedOption ls e)
    (hrenamed : Expr.RenamedOption r marks e e') :
    Lockstep r (Eval.clauseHolds st (fuel + 1) e env) (Eval.clauseHolds st (fuel + 1) e' env) c m h
      fun _ b b' => b' = b := by
  cases hrenamed with
  | none =>
    rw [Eval.clauseHolds]
    exact .give ht rfl
  | some he =>
    rw [Eval.clauseHolds, Eval.clauseHolds]
    refine (ih.expr ht hat hscoped he).bind fun v v' c₁ m₁ h₁ hgrows ht₁ hv => ?_
    exact .give ht₁ hv.truthy.symm

private theorem succ (hnatives : ∀ n ∈ st.natives, n.Blind) : LockstepAt r st (fuel + 1) where
  expr := ih.expr_succ
  exprs := ih.exprs_succ
  apply := ih.apply_succ hnatives
  method := ih.method_succ
  function := ih.function_succ
  perform := ih.perform_succ
  stmt := ih.stmt_succ
  stmts := ih.stmts_succ
  whileLoop := ih.whileLoop_succ
  forLoop := ih.forLoop_succ
  clauseHolds := ih.clauseHolds_succ

end LockstepAt

theorem lockstepAt (r : Renaming) (hnatives : ∀ n ∈ st.natives, n.Blind) (fuel : Nat) :
    LockstepAt r st fuel := by
  induction fuel with
  | zero => exact lockstepAt_zero r st
  | succ fuel ih => exact ih.succ hnatives

end Eval
end Lox
