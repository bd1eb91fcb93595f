import Lox.Proofs.Bounds.Brief
import Lox.Proofs.Bounds.Watch
import Lox.Proofs.Run.Grows

set_option autoImplicit false
set_option relaxedAutoImplicit false

namespace Lox

abbrev Budgeted.Watched (α : Type) := Nat → Noted Moment α

/-- A property of two computations at a bound on steps of the first one that every step has and that
is kept by one computation after another. Native functions take related actions. -/
structure Twins (st st' : Settings) (A : Action → Action → Prop)
    (P : {α : Type} → Nat → Budgeted.Watched α → Budgeted α → Prop) : Prop where
  natives (i : Nat) :
    Option.Rel (fun n n' => n'.arity = n.arity ∧ ∀ args, A (n.act args) (n'.act args))
    st.natives[i]? st'.natives[i]?
  outputFault : st'.outputFault = st.outputFault
  later {α : Type} {n : Nat} {t : Budgeted.Watched α} {x : Budgeted α} :
    P n (fun k => t (k + 1)) (fun k => x (k + 1)) → P (n + 1) t x
  brief {α : Type} {n : Nat} {x : Run α} {Q : α → Prop} :
    x.Brief True Q → P n (fun _ => .quiet x) (fun _ => x)
  bind {α β : Type} {n : Nat} {t : Budgeted.Watched α} {x : Budgeted α}
    {k : Nat → α → Noted Moment β}
    {l : Nat → α → Run β} : P n t x → (∀ a, P n (fun i => k i a) (fun i => l i a)) →
    P n (fun i => t i >>= k i) (fun i => x i >>= l i)
  round {α : Type} {n : Nat} {c : Budgeted.Watched Bool} {c' : Budgeted Bool}
    {t : Budgeted.Watched α}
    {x : Budgeted α} (span : Span) : P n c c' → P n t x →
    P n (fun i => watching.round span (c i) (t i)) (fun i => .round span (c' i) (x i))
  counted {n : Nat} {t : Budgeted.Watched Value} {x : Budgeted Value}
    (callee : Value) (span : Span) :
    P n t x → P n (fun i => watching.counted st callee span (t i))
      (fun i => Eval.counted st' callee span (x i))
  perform {n : Nat} :
    (∀ callee args, P n (watching.apply st · callee args) (Eval.apply st' · callee args)) →
    (∀ told {a a'}, A a a' → P n (watching.perform st · told a) (Eval.perform st' · a')) →
    ∀ told {a a'}, A a a' →
      P n (fun i => watching.perform st (i + 1) told a) (fun i => Eval.perform st' (i + 1) a')

namespace Eval

/-- Everything that the two evaluations do has a property at a bound on steps. -/
structure HoldsBoth (st st' : Settings) (A : Action → Action → Prop)
    (P : {α : Type} → Nat → Budgeted.Watched α → Budgeted α → Prop) (n : Nat) : Prop where
  expr (e : Expr) (env : FrameId) : P n (watching.expr st · () e env) (expr st' · e env)
  exprs (es : List Expr) (env : FrameId) : P n (watching.exprs st · () es env) (exprs st' · es env)
  apply (callee : Value) (args : List Value) : P n (watching.apply st · callee args)
    (apply st' · callee args)
  method (f : Function) (receiver : Value) (args : List Value) :
    P n (watching.method st · f receiver args) (method st' · f receiver args)
  function (f : Function) (closure : FrameId) (args : List Value) :
    P n (watching.function st · () f closure args) (function st' · f closure args)
  perform (told : List Failure) {a a' : Action} : A a a' →
    P n (watching.perform st · told a) (perform st' · a')
  stmt (s : Stmt) (env : FrameId) : P n (watching.stmt st · () s env) (stmt st' · s env)
  stmts (ss : List Stmt) (env : FrameId) : P n (watching.stmts st · () ss env) (stmts st' · ss env)
  whileLoop (span : Span) (c : Expr) (body : Stmt) (env : FrameId) :
    P n (watching.whileLoop st · () span c body env) (whileLoop st' · span c body env)
  forLoop (span : Span) (c i : Option Expr) (body : Stmt) (env : FrameId) :
    P n (watching.forLoop st · () span c i body env) (forLoop st' · span c i body env)
  clauseHolds (c : Option Expr) (env : FrameId) :
    P n (watching.clauseHolds st · () c env) (clauseHolds st' · c env)

namespace HoldsBoth

variable {st st' : Settings} {A : Action → Action → Prop}
  {P : {α : Type} → Nat → Budgeted.Watched α → Budgeted α → Prop} (hP : Twins st st' A P) {n : Nat}

include hP

private theorem arity_eq (v : Value) : arity? st' v = arity? st v := by
  cases v with
  | native i =>
    have hrel := hP.natives i
    simp only [arity?]
    generalize st.natives[i]? = a, st'.natives[i]? = a' at hrel
    cases hrel with
    | none => rfl
    | some h => exact congrArg some h.1
  | _ => rfl

private theorem give {α : Type} (a : α) :
    P n (fun _ => .quiet (Run.give a)) (fun _ => Run.give a) :=
  hP.brief (.give (Q := fun _ => True) trivial)

private theorem fail {α : Type} (f : Failure) (hf : f.Placed) :
    P n (fun _ => .quiet (Run.fail f : Run α)) (fun _ => Run.fail f) :=
  hP.brief (.fail (Q := fun _ => True) hf)

private theorem write_eq (line : Text) : Run.write st' line = Run.write st line := by
  unfold Run.write
  rw [hP.outputFault]

private theorem newFrame (parent : FrameId) (bs : Bindings) :
    P n (fun _ => .quiet (Run.newFrame parent bs)) (fun _ => Run.newFrame parent bs) :=
  hP.brief (.newFrame parent fun _ v _ => v.loopsIf_of trivial)

private theorem define (env : FrameId) (name : Text) (v : Value) :
    P n (fun _ => .quiet (Run.change (·.define env name v)))
      (fun _ => Run.change (·.define env name v)) :=
  hP.brief (.define env name (v.loopsIf_of trivial))

private theorem class_succ (span : Span) (name : Text) (sup : Option NameUse)
    (methods statics : List FunDecl) (env : FrameId) :
    P n (fun k => watching.stmt st (k + 1) () (.classDecl span name sup methods statics) env)
      (fun k => Eval.stmt st' (k + 1) (.classDecl span name sup methods statics) env) := by
  have hclass : ∀ superclass closure, P n
      (fun _ => .quiet (newClass name superclass methods statics closure env))
      (fun _ => newClass name superclass methods statics closure env) := fun superclass closure =>
    hP.brief (brief_newClass name (fun d _ => d.loopsIf_of trivial)
      (FunDecl.loopsIfAll_of trivial _) (FunDecl.loopsIfAll_of trivial _) closure env)
  cases sup with
  | none =>
    simp only [Scribe.stmt, Watching.step, Watching.newClass, Eval.stmt]
    exact hP.bind (define hP _ _ _) fun _ => hP.bind (hclass _ _) fun _ => give hP _
  | some sup =>
    simp only [Scribe.stmt, Watching.step, Watching.newClass, Eval.stmt]
    refine hP.bind (hP.brief (brief_readName _ _ _ env)) fun v => ?_
    cases v with
    | cls c =>
      exact hP.bind (define hP _ _ _) fun _ => hP.bind (newFrame hP _ _) fun inner =>
        hP.bind (hclass _ _) fun _ => give hP _
    | _ => exact fail hP _ trivial

variable (ih : HoldsBoth st st' A P n)
include ih

private theorem expr_succ (e : Expr) (env : FrameId) :
    P n (fun k => watching.expr st (k + 1) () e env) (fun k => Eval.expr st' (k + 1) e env) := by
  cases e with
  | literal span v =>
    simp only [Scribe.expr, Watching.step, Eval.expr]
    exact give hP _
  | grouping span e =>
    simp only [Scribe.expr, Eval.expr]
    exact ih.expr e env
  | unary span op e =>
    simp only [Scribe.expr, Watching.step, Eval.expr]
    exact hP.bind (ih.expr e env) fun v => hP.brief (brief_unary span op v)
  | binary span op a b =>
    simp only [Scribe.expr, Watching.step, Eval.expr]
    exact hP.bind (ih.expr a env) fun v => hP.bind (ih.expr b env) fun w =>
      hP.brief (brief_binary span op v w)
  | logical span op a b =>
    simp only [Scribe.expr, Watching.step, Eval.expr]
    refine hP.bind (ih.expr a env) fun v => ?_
    cases decides op v with
    | true => exact give hP v
    | false => exact ih.expr b env
  | conditional span c a b =>
    simp only [Scribe.expr, Eval.expr]
    refine hP.bind (ih.expr c env) fun v => ?_
    cases v.truthy with
    | true => exact ih.expr a env
    | false => exact ih.expr b env
  | name use =>
    simp only [Scribe.expr, Watching.step, Eval.expr]
    exact hP.brief (brief_readName _ _ _ env)
  | assign target e =>
    simp only [Scribe.expr, Watching.step, Eval.expr]
    exact hP.bind (ih.expr e env) fun v =>
      hP.bind (hP.brief (brief_assignName target (v.loopsIf_of trivial) env)) fun _ => give hP v
  | call span f args =>
    simp only [Scribe.expr, Watching.step, Eval.expr]
    refine hP.bind (ih.expr f env) fun callee => hP.bind (ih.exprs args env) fun vs => ?_
    simp only [arity_eq hP]
    cases arity? st callee with
    | none => exact fail hP _ trivial
    | some expected =>
      by_cases hlength : vs.length ≠ expected
      · simp only [if_pos hlength]
        exact fail hP _ trivial
      · simp only [if_neg hlength]
        exact hP.counted callee span (ih.apply callee vs)
  | get span o name =>
    simp only [Scribe.expr, Watching.step, Eval.expr]
    exact hP.bind (ih.expr o env) fun v =>
      hP.brief (brief_property (v.loopsIf_of trivial) name span)
  | set span o name e =>
    simp only [Scribe.expr, Watching.step, Eval.expr]
    refine hP.bind (ih.expr o env) fun v => ?_
    cases v with
    | object i c =>
      exact hP.bind (ih.expr e env) fun w =>
        hP.bind (hP.brief (.change fun _ hh => hh.setField i name (w.loopsIf_of trivial))) fun _ =>
          give hP w
    | _ => exact fail hP _ trivial
  | this span hops =>
    simp only [Scribe.expr, Watching.step, Watching.see, Eval.expr]
    exact hP.brief (brief_readName _ _ _ env)
  | super span name hops =>
    simp only [Scribe.expr, Watching.step, Watching.see, Eval.expr]
    exact hP.brief (brief_superMethod span name hops env)
  | lambda span params body =>
    simp only [Scribe.expr, Watching.step, Watching.newFunction, Eval.expr]
    exact hP.bind (hP.brief (brief_newFunction _ _ (Stmt.loopsIfAll_of trivial body) _ _)) fun f =>
      give hP _

private theorem exprs_succ (es : List Expr) (env : FrameId) :
    P n (fun k => watching.exprs st (k + 1) () es env)
      (fun k => Eval.exprs st' (k + 1) es env) := by
  cases es with
  | nil =>
    simp only [Scribe.exprs, Watching.step, Eval.exprs]
    exact give hP _
  | cons e r =>
    simp only [Scribe.exprs, Watching.step, Eval.exprs]
    exact hP.bind (ih.expr e env) fun v => hP.bind (ih.exprs r env) fun vs => give hP _

private theorem apply_succ (callee : Value) (args : List Value) :
    P n (fun k => watching.apply st (k + 1) callee args)
      (fun k => Eval.apply st' (k + 1) callee args) := by
  cases callee with
  | function f =>
    simp only [Scribe.apply, Noted.consult_unit_bind, Eval.apply]
    exact ih.function f f.closure args
  | method i f receiver =>
    simp only [Scribe.apply, Eval.apply]
    exact ih.method f receiver args
  | native i =>
    simp only [Scribe.apply, Watching.step, Eval.apply]
    have hrel := hP.natives i
    generalize st.natives[i]? = a, st'.natives[i]? = a' at hrel ⊢
    cases hrel with
    | none => exact fail hP _ trivial
    | some h => exact ih.perform [] (h.2 args)
  | cls c =>
    simp only [Scribe.apply, Watching.step, Watching.see, Eval.apply]
    refine hP.bind (hP.brief (.newObject (c.loopsIf_of trivial))) fun object => ?_
    cases c.initializer with
    | some f => exact hP.bind (ih.method f object args) fun _ => give hP object
    | none => exact give hP object
  | _ =>
    simp only [Scribe.apply, Watching.step, Eval.apply]
    exact fail hP _ trivial

private theorem method_succ (f : Function) (receiver : Value) (args : List Value) :
    P n (fun k => watching.method st (k + 1) f receiver args)
      (fun k => Eval.method st' (k + 1) f receiver args) := by
  simp only [Scribe.method, Noted.consult_unit_bind, Watching.step, Watching.see, Eval.method]
  exact hP.bind (newFrame hP _ _) fun closure => ih.function f closure args

private theorem function_succ (f : Function) (closure : FrameId) (args : List Value) :
    P n (fun k => watching.function st (k + 1) () f closure args)
      (fun k => Eval.function st' (k + 1) f closure args) := by
  simp only [Scribe.function, Watching.step, Eval.function]
  by_cases hlength : args.length < f.arity
  · simp only [if_pos hlength]
    exact fail hP _ trivial
  · simp only [if_neg hlength]
    refine hP.bind (newFrame hP _ _) fun env => hP.bind (ih.stmts f.body env) fun signal => ?_
    refine hP.brief (brief_result (c := True) f closure ?_)
    cases signal with
    | leaveFunction v => exact v.loopsIf_of trivial
    | _ => trivial

private theorem var_succ (span : Span) (name : Text) (init : Option Expr) (env : FrameId) :
    P n (fun k => watching.stmt st (k + 1) () (.varDecl span name init) env)
      (fun k => Eval.stmt st' (k + 1) (.varDecl span name init) env) := by
  cases init with
  | none =>
    simp only [Scribe.stmt, Watching.step, Eval.stmt]
    exact hP.bind (define hP _ _ _) fun _ => give hP _
  | some e =>
    simp only [Scribe.stmt, Watching.step, Eval.stmt]
    have hrest : P n (fun k => watching.expr st k () e env >>= fun v =>
        Noted.quiet (Run.change (·.define env name v)) >>= fun _ =>
          Noted.quiet (Run.give Signal.normal))
        (fun k => Eval.expr st' k e env >>= fun v =>
        Run.change (·.define env name v) >>= fun _ => Run.give Signal.normal) :=
      hP.bind (ih.expr e env) fun v => hP.bind (define hP _ _ _) fun _ => give hP _
    by_cases henv : env ≠ Heap.globals
    · simp only [if_pos henv]
      exact hP.bind (hP.brief (.change fun _ hh => hh.declare env name)) fun _ => hrest
    · simp only [if_neg henv]
      exact hrest

private theorem stmt_succ (s : Stmt) (env : FrameId) :
    P n (fun k => watching.stmt st (k + 1) () s env) (fun k => Eval.stmt st' (k + 1) s env) := by
  cases s with
  | exprStmt span e =>
    simp only [Scribe.stmt, Watching.step, Eval.stmt]
    exact hP.bind (ih.expr e env) fun _ => give hP _
  | printStmt span e =>
    simp only [Scribe.stmt, Watching.step, Watching.write, Eval.stmt, write_eq hP]
    exact hP.bind (ih.expr e env) fun v => hP.bind (hP.brief (.write st _)) fun _ => give hP _
  | varDecl span name init => exact var_succ hP ih span name init env
  | block span body =>
    simp only [Scribe.stmt, Watching.step, Eval.stmt]
    exact hP.bind (newFrame hP _ _) fun inner => ih.stmts body inner
  | ifStmt span c a b =>
    cases b with
    | none =>
      simp only [Scribe.stmt, Watching.step, Eval.stmt]
      refine hP.bind (ih.expr c env) fun v => ?_
      cases v.truthy with
      | true => exact ih.stmt a env
      | false => exact give hP _
    | some b =>
      simp only [Scribe.stmt, Eval.stmt]
      refine hP.bind (ih.expr c env) fun v => ?_
      cases v.truthy with
      | true => exact ih.stmt a env
      | false => exact ih.stmt b env
  | whileStmt span c body =>
    simp only [Scribe.stmt, Eval.stmt]
    exact ih.whileLoop span c body env
  | forStmt span init c i body =>
    cases init with
    | none =>
      simp only [Scribe.stmt, Eval.stmt]
      exact ih.forLoop span c i body env
    | some init =>
      simp only [Scribe.stmt, Watching.step, Eval.stmt]
      exact hP.bind (newFrame hP _ _) fun outer => hP.bind (ih.stmt init outer) fun _ =>
        ih.forLoop span c i body outer
  | breakStmt span =>
    simp only [Scribe.stmt, Watching.step, Eval.stmt]
    exact give hP _
  | returnStmt span e =>
    cases e with
    | none =>
      simp only [Scribe.stmt, Watching.step, Eval.stmt]
      exact give hP _
    | some e =>
      simp only [Scribe.stmt, Watching.step, Eval.stmt]
      exact hP.bind (ih.expr e env) fun v => give hP _
  | funDecl d =>
    obtain ⟨span, name, params, body⟩ := d
    simp only [Scribe.stmt, Watching.step, Watching.newFunction, Eval.stmt]
    exact hP.bind (hP.brief (brief_newFunction _ _ (Stmt.loopsIfAll_of trivial body) _ _)) fun f =>
      hP.bind (define hP _ _ _) fun _ => give hP _
  | classDecl span name sup methods statics =>
    exact class_succ hP span name sup methods statics env

private theorem stmts_succ (ss : List Stmt) (env : FrameId) :
    P n (fun k => watching.stmts st (k + 1) () ss env)
      (fun k => Eval.stmts st' (k + 1) ss env) := by
  cases ss with
  | nil =>
    simp only [Scribe.stmts, Watching.step, Eval.stmts]
    exact give hP _
  | cons s r =>
    simp only [Scribe.stmts, Watching.step, Eval.stmts]
    refine hP.bind (ih.stmt s env) fun signal => ?_
    cases signal with
    | normal => exact ih.stmts r env
    | _ => exact give hP _

private theorem whileLoop_succ (span : Span) (c : Expr) (body : Stmt) (env : FrameId) :
    P n (fun k => watching.whileLoop st (k + 1) () span c body env)
      (fun k => Eval.whileLoop st' (k + 1) span c body env) := by
  simp only [Scribe.whileLoop, Watching.step, whileLoop_by_rounds]
  refine hP.bind (hP.round span (hP.bind (ih.expr c env) fun v => give hP _) (ih.stmt body env))
    fun r => ?_
  cases r with
  | none => exact give hP _
  | some signal =>
    cases signal with
    | normal => exact ih.whileLoop span c body env
    | _ => exact give hP _

private theorem forLoop_succ (span : Span) (c i : Option Expr) (body : Stmt) (env : FrameId) :
    P n (fun k => watching.forLoop st (k + 1) () span c i body env)
      (fun k => Eval.forLoop st' (k + 1) span c i body env) := by
  simp only [Scribe.forLoop, Watching.step, forLoop_by_rounds]
  refine hP.bind (hP.round span (ih.clauseHolds c env) (hP.bind (newFrame hP _ _) fun inner =>
    hP.bind (ih.stmt body inner) fun signal => give hP _)) fun r => ?_
  cases r with
  | none => exact give hP _
  | some r =>
    obtain ⟨signal, inner⟩ := r
    cases signal with
    | normal => exact hP.bind (ih.clauseHolds i inner) fun _ => ih.forLoop span c i body env
    | _ => exact give hP _

private theorem clauseHolds_succ (c : Option Expr) (env : FrameId) :
    P n (fun k => watching.clauseHolds st (k + 1) () c env)
      (fun k => Eval.clauseHolds st' (k + 1) c env) := by
  cases c with
  | none =>
    simp only [Scribe.clauseHolds, Watching.step, Eval.clauseHolds]
    exact give hP _
  | some e =>
    simp only [Scribe.clauseHolds, Watching.step, Eval.clauseHolds]
    exact hP.bind (ih.expr e env) fun v => give hP _

private theorem succ : HoldsBoth st st' A P (n + 1) where
  expr e env := hP.later (ih.expr_succ hP e env)
  exprs es env := hP.later (ih.exprs_succ hP es env)
  apply callee args := hP.later (ih.apply_succ hP callee args)
  method f receiver args := hP.later (ih.method_succ hP f receiver args)
  function f closure args := hP.later (ih.function_succ hP f closure args)
  perform told _ _ ha := hP.later (hP.perform ih.apply ih.perform told ha)
  stmt s env := hP.later (ih.stmt_succ hP s env)
  stmts ss env := hP.later (ih.stmts_succ hP ss env)
  whileLoop span c body env := hP.later (ih.whileLoop_succ hP span c body env)
  forLoop span c i body env := hP.later (ih.forLoop_succ hP span c i body env)
  clauseHolds c env := hP.later (ih.clauseHolds_succ hP c env)

end HoldsBoth

variable {st st' : Settings} {A : Action → Action → Prop}
  {P : {α : Type} → Nat → Budgeted.Watched α → Budgeted α → Prop}

theorem holdsBoth_zero
    (h : ∀ {α : Type} {t : Budgeted.Watched α} {x : Budgeted α}, t 0 = .quiet Run.exhaust →
      x 0 = Run.exhaust → (∀ N, (x N).Grows) → P 0 t x) :
    HoldsBoth st st' A P 0 where
  expr e env := h (by simp only [Scribe.expr, Watching.step]) (by simp only [Eval.expr])
    fun N => (grows st' N).expr e env
  exprs es env := h (by simp only [Scribe.exprs, Watching.step]) (by simp only [Eval.exprs])
    fun N => (grows st' N).exprs es env
  apply callee args := h (by simp only [Scribe.apply, Watching.step]) (by simp only [Eval.apply])
    fun N => (grows st' N).apply callee args
  method f receiver args :=
    h (by simp only [Scribe.method, Watching.step]) (by simp only [Eval.method])
    fun N => (grows st' N).method f receiver args
  function f closure args :=
    h (by simp only [Scribe.function, Watching.step]) (by simp only [Eval.function])
    fun N => (grows st' N).function f closure args
  perform told _ _ _ :=
    h (by simp only [Scribe.perform, Watching.step]) (by simp only [Eval.perform])
    fun N => (grows st' N).perform _
  stmt s env := h (by simp only [Scribe.stmt, Watching.step]) (by simp only [Eval.stmt])
    fun N => (grows st' N).stmt fun _ _ => trivial
  stmts ss env := h (by simp only [Scribe.stmts, Watching.step]) (by simp only [Eval.stmts])
    fun N => (grows st' N).stmts ss fun _ => trivial
  whileLoop span c body env :=
    h (by simp only [Scribe.whileLoop, Watching.step]) (by simp only [Eval.whileLoop])
    fun N => (grows st' N).whileLoop span c fun _ _ => trivial
  forLoop span c i body env :=
    h (by simp only [Scribe.forLoop, Watching.step]) (by simp only [Eval.forLoop])
    fun N => (grows st' N).forLoop span c i body env
  clauseHolds c env :=
    h (by simp only [Scribe.clauseHolds, Watching.step]) (by simp only [Eval.clauseHolds])
    fun N => (grows st' N).clauseHolds c env

/-- What every step has, and what holds if no step may be taken, both evaluations have under every
bound. -/
theorem holdsBoth (hP : Twins st st' A P) (hzero : HoldsBoth st st' A P 0) (n : Nat) :
    HoldsBoth st st' A P n := by
  induction n with
  | zero => exact hzero
  | succ n ih => exact ih.succ hP

theorem HoldsBoth.script (hP : Twins st st' A P) {n : Nat} (h : HoldsBoth st st' A P n)
    (ss : List Stmt) : P n (watching.script st · ss) (script st' · ss) := by
  induction ss with
  | nil => exact give hP _
  | cons s r ih =>
    simp only [Scribe.script, Watching.step, Eval.script]
    refine hP.bind (h.stmt s _) fun signal => ?_
    cases signal with
    | normal => exact ih
    | _ => exact fail hP _ trivial

end Eval

end Lox
