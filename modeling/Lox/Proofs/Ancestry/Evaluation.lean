import Lox.Proofs.Ancestry.Proceeds

set_option autoImplicit false
set_option relaxedAutoImplicit false

namespace Lox

open Text (lit)

namespace Eval

open Proceeds

/-- Everything that is done within a bound on steps goes on by steps of scenes. -/
structure ProceedsAt (st : Settings) (fuel : Nat) : Prop where
  expr : ∀ {cs : List Class} {m : Machine} {env : FrameId} (e : Expr), (m.scene cs).Founded →
    env < m.heap.frames.size → Proceeds (Eval.expr st fuel e env) cs m fun v S => S.Has v
  exprs : ∀ {cs : List Class} {m : Machine} {env : FrameId} (es : List Expr), (m.scene cs).Founded →
    env < m.heap.frames.size → Proceeds (Eval.exprs st fuel es env) cs m fun vs S =>
      ∀ v ∈ vs, S.Has v
  apply : ∀ {cs : List Class} {m : Machine} {callee : Value} {args : List Value},
    (m.scene cs).Founded → (m.scene cs).Has callee → (∀ v ∈ args, (m.scene cs).Has v) →
    arity? st callee = some args.length →
    Proceeds (Eval.apply st fuel callee args) cs m fun v S => S.Has v
  method : ∀ {cs : List Class} {m : Machine} {f : Function} {receiver : Value} {args : List Value},
    (m.scene cs).Founded → f.closure < m.heap.frames.size → (m.scene cs).Has receiver →
    (∀ v ∈ args, (m.scene cs).Has v) →
    Proceeds (Eval.method st fuel f receiver args) cs m fun v S => S.Has v
  function : ∀ {cs : List Class} {m : Machine} {f : Function}
    {closure : FrameId} {args : List Value},
    (m.scene cs).Founded → closure < m.heap.frames.size → (∀ v ∈ args, (m.scene cs).Has v) →
    Proceeds (Eval.function st fuel f closure args) cs m fun v S => S.Has v
  perform : ∀ {cs : List Class} {m : Machine} {action : Action} {given : List Value},
    (m.scene cs).Founded → action.Borrows given → (∀ v ∈ given, (m.scene cs).Has v) →
    Proceeds (Eval.perform st fuel action) cs m fun v S => S.Has v
  stmt : ∀ {cs : List Class} {m : Machine} {env : FrameId} (s : Stmt), (m.scene cs).Founded →
    env < m.heap.frames.size → Proceeds (Eval.stmt st fuel s env) cs m fun signal S =>
      S.HasSignal signal
  stmts : ∀ {cs : List Class} {m : Machine} {env : FrameId} (ss : List Stmt), (m.scene cs).Founded →
    env < m.heap.frames.size →
    Proceeds (Eval.stmts st fuel ss env) cs m fun signal S => S.HasSignal signal
  whileLoop : ∀ {cs : List Class} {m : Machine} {env : FrameId} (span : Span)
    (c : Expr) (body : Stmt),
    (m.scene cs).Founded → env < m.heap.frames.size →
    Proceeds (Eval.whileLoop st fuel span c body env) cs m fun signal S => S.HasSignal signal
  forLoop : ∀ {cs : List Class} {m : Machine} {env : FrameId} (span : Span) (c i : Option Expr)
    (body : Stmt), (m.scene cs).Founded → env < m.heap.frames.size →
    Proceeds (Eval.forLoop st fuel span c i body env) cs m fun signal S => S.HasSignal signal
  clauseHolds : ∀ {cs : List Class} {m : Machine} {env : FrameId} (c : Option Expr),
    (m.scene cs).Founded → env < m.heap.frames.size →
    Proceeds (Eval.clauseHolds st fuel c env) cs m fun _ _ => True

private theorem proceedsAt_zero (st : Settings) : ProceedsAt st 0 where
  expr _ _ _ := by rw [Eval.expr]; exact exhaust
  exprs _ _ _ := by rw [Eval.exprs]; exact exhaust
  apply _ _ _ _ := by rw [Eval.apply]; exact exhaust
  method _ _ _ _ := by rw [Eval.method]; exact exhaust
  function _ _ _ := by rw [Eval.function]; exact exhaust
  perform _ _ _ := by rw [Eval.perform]; exact exhaust
  stmt _ _ _ := by rw [Eval.stmt]; exact exhaust
  stmts _ _ _ := by rw [Eval.stmts]; exact exhaust
  whileLoop _ _ _ _ _ := by rw [Eval.whileLoop]; exact exhaust
  forLoop _ _ _ _ _ _ := by rw [Eval.forLoop]; exact exhaust
  clauseHolds _ _ _ := by rw [Eval.clauseHolds]; exact exhaust

namespace ProceedsAt

variable {st : Settings} {fuel : Nat} (ih : ProceedsAt st fuel)
include ih

variable {cs : List Class} {m : Machine} {env : FrameId} (hS : (m.scene cs).Founded)
include hS

/-! ### Expressions -/

private theorem call_succ (span : Span) (f : Expr) (args : List Expr)
    (henv : env < m.heap.frames.size) :
    Proceeds (Eval.expr st (fuel + 1) (.call span f args) env) cs m fun v S => S.Has v := by
  rw [Eval.expr]
  refine .bind (ih.expr f hS henv) fun callee cs₁ m₁ h₁ hcallee => ?_
  refine .bind (ih.exprs args (hS.onward h₁) (h₁.lt henv)) fun vs cs₂ m₂ h₂ hvs => ?_
  split
  · exact error
  · rename_i expected harity
    split
    · exact error
    · rename_i hcount
      have hlength : vs.length = expected := Decidable.not_not.1 hcount
      refine .counted fun m₃ hheap => ?_
      have hscene := Machine.scene_congr hheap cs₂
      refine ih.apply (hscene ▸ hS.onward (h₁.trans h₂))
        (hscene ▸ h₂.has hcallee) ?_ (hlength ▸ harity)
      exact hscene ▸ hvs

private theorem expr_succ (e : Expr) (henv : env < m.heap.frames.size) :
    Proceeds (Eval.expr st (fuel + 1) e env) cs m fun v S => S.Has v := by
  cases e with
  | literal span v =>
    rw [Eval.expr]
    exact give (Scene.has_ofLiteral _ v)
  | grouping span e =>
    rw [Eval.expr]
    exact ih.expr e hS henv
  | unary span op e =>
    rw [Eval.expr]
    exact .bind (ih.expr e hS henv) fun v cs₁ m₁ h₁ _ => proceeds_unary
  | binary span op a b =>
    rw [Eval.expr]
    refine .bind (ih.expr a hS henv) fun v cs₁ m₁ h₁ _ => ?_
    exact .bind (ih.expr b (hS.onward h₁) (h₁.lt henv)) fun w cs₂ m₂ h₂ _ => proceeds_binary
  | logical span op a b =>
    rw [Eval.expr]
    refine .bind (ih.expr a hS henv) fun v cs₁ m₁ h₁ hv => ?_
    split
    · exact give hv
    · exact ih.expr b (hS.onward h₁) (h₁.lt henv)
  | conditional span c a b =>
    rw [Eval.expr]
    refine .bind (ih.expr c hS henv) fun v cs₁ m₁ h₁ _ => ?_
    split
    · exact ih.expr a (hS.onward h₁) (h₁.lt henv)
    · exact ih.expr b (hS.onward h₁) (h₁.lt henv)
  | name use =>
    rw [Eval.expr]
    exact proceeds_readName hS
  | assign target e =>
    rw [Eval.expr]
    refine .bind (ih.expr e hS henv) fun v cs₁ m₁ h₁ hv => ?_
    exact .bind (proceeds_assignName hv) fun _ cs₂ m₂ h₂ _ => give (h₂.has hv)
  | call span f args => exact ih.call_succ hS span f args henv
  | get span o name =>
    rw [Eval.expr]
    exact .bind (ih.expr o hS henv) fun v cs₁ m₁ h₁ hv => proceeds_property (hS.onward h₁) hv
  | set span o name e =>
    rw [Eval.expr]
    refine .bind (ih.expr o hS henv) fun v cs₁ m₁ h₁ hv => ?_
    split
    · refine .bind (ih.expr e (hS.onward h₁) (h₁.lt henv)) fun w cs₂ m₂ h₂ hw => ?_
      exact .bind (setField hw) fun _ cs₃ m₃ h₃ _ => give (h₃.has hw)
    · exact error
  | this span hops =>
    rw [Eval.expr]
    exact proceeds_readName hS
  | super span name hops =>
    rw [Eval.expr]
    exact proceeds_superMethod hS
  | lambda span params body =>
    rw [Eval.expr]
    refine .bind proceeds_newFunction fun f cs₁ m₁ h₁ hf => ?_
    have hclosure : f.closure < m₁.heap.frames.size := hf ▸ h₁.lt henv
    exact give hclosure

private theorem exprs_succ (es : List Expr) (henv : env < m.heap.frames.size) :
    Proceeds (Eval.exprs st (fuel + 1) es env) cs m fun vs S => ∀ v ∈ vs, S.Has v := by
  cases es with
  | nil =>
    rw [Eval.exprs]
    exact give (List.forall_mem_nil _)
  | cons e r =>
    rw [Eval.exprs]
    refine .bind (ih.expr e hS henv) fun v cs₁ m₁ h₁ hv => ?_
    refine .bind (ih.exprs r (hS.onward h₁) (h₁.lt henv)) fun vs cs₂ m₂ h₂ hvs => ?_
    exact give (List.forall_mem_cons.2 ⟨h₂.has hv, hvs⟩)

private theorem clauseHolds_succ (c : Option Expr) (henv : env < m.heap.frames.size) :
    Proceeds (Eval.clauseHolds st (fuel + 1) c env) cs m fun _ _ => True := by
  cases c with
  | none =>
    rw [Eval.clauseHolds]
    exact give trivial
  | some e =>
    rw [Eval.clauseHolds]
    exact .bind (ih.expr e hS henv) fun v cs₁ m₁ h₁ _ => give trivial

/-! ### Calls -/

private theorem apply_succ (hnatives : ∀ n ∈ st.natives, n.Borrows)
    {callee : Value} {args : List Value}
    (hcallee : (m.scene cs).Has callee) (hargs : ∀ v ∈ args, (m.scene cs).Has v)
    (harity : arity? st callee = some args.length) :
    Proceeds (Eval.apply st (fuel + 1) callee args) cs m fun v S => S.Has v := by
  cases callee with
  | function f =>
    rw [Eval.apply]
    exact ih.function hS hcallee hargs
  | method i f receiver =>
    rw [Eval.apply]
    exact ih.method hS hcallee.1 hcallee.2 hargs
  | native i =>
    obtain ⟨n, hn, hlength⟩ := Option.map_eq_some_iff.1 harity
    have hborrows := hnatives n (Array.mem_of_getElem? hn)
    rw [Eval.apply, hn]
    exact ih.perform hS (hborrows args hlength.symm) hargs
  | cls c =>
    rw [Eval.apply]
    refine .bind (newObject hcallee) fun object cs₁ m₁ h₁ hobject => ?_
    split
    · rename_i f hf
      have hclosure := hS.closure_lt false hcallee hf
      refine .bind (ih.method (hS.onward h₁) (h₁.lt hclosure) hobject fun v hv =>
        h₁.has (hargs v hv))
        fun _ cs₂ m₂ h₂ _ => ?_
      exact give (h₂.has hobject)
    · exact give hobject
  | _ => cases harity

private theorem method_succ {f : Function} {receiver : Value} {args : List Value}
    (hf : f.closure < m.heap.frames.size) (hreceiver : (m.scene cs).Has receiver)
    (hargs : ∀ v ∈ args, (m.scene cs).Has v) :
    Proceeds (Eval.method st (fuel + 1) f receiver args) cs m fun v S => S.Has v := by
  rw [Eval.method]
  refine .bind (newSingle hf hreceiver) fun closure cs₁ m₁ h₁ hclosure => ?_
  exact ih.function (hS.onward h₁) hclosure fun v hv => h₁.has (hargs v hv)

private theorem function_succ {f : Function} {closure : FrameId} {args : List Value}
    (hclosure : closure < m.heap.frames.size) (hargs : ∀ v ∈ args, (m.scene cs).Has v) :
    Proceeds (Eval.function st (fuel + 1) f closure args) cs m fun v S => S.Has v := by
  rw [Eval.function]
  split
  · exact fail
  · refine .bind (newFrame hclosure (has_parameterBindings f.params hargs))
      fun env cs₁ m₁ h₁ henv => ?_
    refine .bind (ih.stmts f.body (hS.onward h₁) henv) fun signal cs₂ m₂ h₂ hsignal => ?_
    exact proceeds_result (hS.onward (h₁.trans h₂)) hsignal

private theorem perform_succ {action : Action} {given : List Value} (haction : action.Borrows given)
    (hgiven : ∀ v ∈ given, (m.scene cs).Has v) :
    Proceeds (Eval.perform st (fuel + 1) action) cs m fun v S => S.Has v := by
  cases action with
  | give v =>
    rw [Eval.perform]
    exact give (hS.has_of_known haction hgiven)
  | fail f =>
    rw [Eval.perform]
    exact fail
  | write line next =>
    rw [Eval.perform]
    refine .bind write fun fault cs₁ m₁ h₁ _ => ?_
    exact ih.perform (hS.onward h₁) (haction fault) fun v hv => h₁.has (hgiven v hv)
  | clock next =>
    rw [Eval.perform]
    exact ih.perform hS (haction st.time) hgiven
  | cancel next =>
    rw [Eval.perform]
    have hborrows : next.Borrows given := haction
    exact ih.perform (m := { m with canceled := true }) hS hborrows hgiven
  | invoke callee args next =>
    obtain ⟨hcallee, hargs, hnone, hok, herror⟩ := haction
    by_cases harity : arity? st callee = some args.length
    · rw [perform_invoke fuel next harity]
      refine settle (ih.apply hS (hS.has_of_known hcallee hgiven)
        (fun v hv => hS.has_of_known (hargs v hv) hgiven) harity) (fun v cs₁ m₁ h₁ hv => ?_)
        fun f cs₁ m₁ h₁ => ?_
      · exact ih.perform (hS.onward h₁) (hok v)
          (List.forall_mem_cons.2 ⟨hv, fun w hw => h₁.has (hgiven w hw)⟩)
      · exact ih.perform (hS.onward h₁) (herror f trivial) fun w hw => h₁.has (hgiven w hw)
    · rw [perform_refused fuel next harity]
      exact ih.perform hS hnone hgiven

/-! ### Statements -/

private theorem var_succ (span : Span) (name : Text) (init : Option Expr)
    (henv : env < m.heap.frames.size) :
    Proceeds (Eval.stmt st (fuel + 1) (.varDecl span name init) env) cs m
      fun signal S => S.HasSignal signal := by
  cases init with
  | none =>
    rw [Eval.stmt]
    exact .bind (define trivial) fun _ cs₁ m₁ h₁ _ => give trivial
  | some e =>
    rw [Eval.stmt]
    have hrest : ∀ {cs' : List Class} {m' : Machine}, (m'.scene cs').Founded →
        env < m'.heap.frames.size →
        Proceeds (Eval.expr st fuel e env >>= fun v =>
          Run.change (·.define env name v) >>= fun _ => Run.give Signal.normal) cs' m'
          fun signal S => S.HasSignal signal := fun hS henv =>
      .bind (ih.expr e hS henv) fun v cs₁ m₁ h₁ hv =>
        .bind (define hv) fun _ cs₂ m₂ h₂ _ => give trivial
    split
    · exact .bind declare fun _ cs₁ m₁ h₁ _ => hrest (hS.onward h₁) (h₁.lt henv)
    · exact hrest hS henv

omit ih in
private theorem class_succ (span : Span) (name : Text) (sup : Option NameUse)
    (methods statics : List FunDecl) (henv : env < m.heap.frames.size) :
    Proceeds (Eval.stmt st (fuel + 1) (.classDecl span name sup methods statics) env) cs m
      fun signal S => S.HasSignal signal := by
  cases sup with
  | none =>
    rw [Eval.stmt]
    refine .bind (define trivial) fun _ cs₁ m₁ h₁ _ => ?_
    refine .bind (proceeds_newClass (h₁.lt henv) ?_) fun _ cs₂ m₂ h₂ _ => give trivial
    rintro _ ⟨⟩
  | some sup =>
    rw [Eval.stmt]
    refine .bind (proceeds_readName hS) fun v cs₁ m₁ h₁ hv => ?_
    split
    · rename_i c
      refine .bind (define trivial) fun _ cs₂ m₂ h₂ _ => ?_
      have hc : (m₂.scene cs₂).Has (.cls c) := h₂.has hv
      refine .bind (newSingle ((h₁.trans h₂).lt henv) hc) fun inner cs₃ m₃ h₃ hinner => ?_
      refine .bind (proceeds_newClass hinner ?_) fun _ cs₄ m₄ h₄ _ => give trivial
      rintro _ ⟨⟩
      exact h₃.has hc
    · exact error

private theorem stmt_succ (s : Stmt) (henv : env < m.heap.frames.size) :
    Proceeds (Eval.stmt st (fuel + 1) s env) cs m fun signal S => S.HasSignal signal := by
  cases s with
  | exprStmt span e =>
    rw [Eval.stmt]
    exact .bind (ih.expr e hS henv) fun _ cs₁ m₁ h₁ _ => give trivial
  | printStmt span e =>
    rw [Eval.stmt]
    refine .bind (ih.expr e hS henv) fun v cs₁ m₁ h₁ _ => ?_
    exact .bind write fun _ cs₂ m₂ h₂ _ => give trivial
  | varDecl span name init => exact ih.var_succ hS span name init henv
  | block span body =>
    rw [Eval.stmt]
    refine .bind (newFrame henv Bindings.all_nil) fun inner cs₁ m₁ h₁ hinner => ?_
    exact ih.stmts body (hS.onward h₁) hinner
  | ifStmt span c yes no =>
    cases no with
    | none =>
      rw [Eval.stmt]
      refine .bind (ih.expr c hS henv) fun v cs₁ m₁ h₁ _ => ?_
      split
      · exact ih.stmt yes (hS.onward h₁) (h₁.lt henv)
      · exact give trivial
    | some no =>
      rw [Eval.stmt]
      refine .bind (ih.expr c hS henv) fun v cs₁ m₁ h₁ _ => ?_
      split
      · exact ih.stmt yes (hS.onward h₁) (h₁.lt henv)
      · exact ih.stmt no (hS.onward h₁) (h₁.lt henv)
  | whileStmt span c body =>
    rw [Eval.stmt]
    exact ih.whileLoop span c body hS henv
  | forStmt span init c i body =>
    cases init with
    | none =>
      rw [Eval.stmt]
      exact ih.forLoop span c i body hS henv
    | some init =>
      rw [Eval.stmt]
      refine .bind (newFrame henv Bindings.all_nil) fun outer cs₁ m₁ h₁ houter => ?_
      refine .bind (ih.stmt init (hS.onward h₁) houter) fun _ cs₂ m₂ h₂ _ => ?_
      exact ih.forLoop span c i body (hS.onward (h₁.trans h₂)) (h₂.lt houter)
  | breakStmt span =>
    rw [Eval.stmt]
    exact give trivial
  | returnStmt span e =>
    cases e with
    | none =>
      rw [Eval.stmt]
      exact give trivial
    | some e =>
      rw [Eval.stmt]
      exact .bind (ih.expr e hS henv) fun v cs₁ m₁ h₁ hv => give hv
  | funDecl d =>
    obtain ⟨span, name, params, body⟩ := d
    rw [Eval.stmt]
    refine .bind proceeds_newFunction fun f cs₁ m₁ h₁ hf => ?_
    have hclosure : f.closure < m₁.heap.frames.size := hf ▸ h₁.lt henv
    exact .bind (define (v := .function f) hclosure) fun _ cs₂ m₂ h₂ _ => give trivial
  | classDecl span name sup methods statics =>
    exact class_succ hS span name sup methods statics henv

private theorem stmts_succ (ss : List Stmt) (henv : env < m.heap.frames.size) :
    Proceeds (Eval.stmts st (fuel + 1) ss env) cs m fun signal S => S.HasSignal signal := by
  cases ss with
  | nil =>
    rw [Eval.stmts]
    exact give trivial
  | cons s r =>
    rw [Eval.stmts]
    refine .bind (ih.stmt s hS henv) fun signal cs₁ m₁ h₁ hsignal => ?_
    cases signal with
    | normal => exact ih.stmts r (hS.onward h₁) (h₁.lt henv)
    | leaveLoop => exact give trivial
    | leaveFunction v => exact give hsignal

private theorem whileLoop_succ (span : Span) (c : Expr) (body : Stmt)
    (henv : env < m.heap.frames.size) :
    Proceeds (Eval.whileLoop st (fuel + 1) span c body env) cs m
      fun signal S => S.HasSignal signal := by
  rw [Eval.whileLoop]
  refine .bind checkCanceled fun _ cs₁ m₁ h₁ _ => ?_
  refine .bind (ih.expr c (hS.onward h₁) (h₁.lt henv)) fun v cs₂ m₂ h₂ _ => ?_
  have h := h₁.trans h₂
  split
  · exact give trivial
  · refine .bind (ih.stmt body (hS.onward h) (h.lt henv)) fun signal cs₃ m₃ h₃ hsignal => ?_
    cases signal with
    | normal => exact ih.whileLoop span c body (hS.onward (h.trans h₃)) ((h.trans h₃).lt henv)
    | leaveLoop => exact give trivial
    | leaveFunction v => exact give hsignal

private theorem forLoop_succ (span : Span) (c i : Option Expr) (body : Stmt)
    (henv : env < m.heap.frames.size) :
    Proceeds (Eval.forLoop st (fuel + 1) span c i body env) cs m
      fun signal S => S.HasSignal signal := by
  rw [Eval.forLoop]
  refine .bind checkCanceled fun _ cs₁ m₁ h₁ _ => ?_
  refine .bind (ih.clauseHolds c (hS.onward h₁) (h₁.lt henv)) fun goOn cs₂ m₂ h₂ _ => ?_
  have h := h₁.trans h₂
  split
  · exact give trivial
  · refine .bind (newFrame (h.lt henv) Bindings.all_nil) fun inner cs₃ m₃ h₃ hinner => ?_
    have hbefore := h.trans h₃
    refine .bind (ih.stmt body (hS.onward hbefore) hinner) fun signal cs₄ m₄ h₄ hsignal => ?_
    have hafter := hbefore.trans h₄
    cases signal with
    | normal =>
      refine .bind (ih.clauseHolds i (hS.onward hafter) (h₄.lt hinner)) fun _ cs₅ m₅ h₅ _ => ?_
      exact ih.forLoop span c i body (hS.onward (hafter.trans h₅)) ((hafter.trans h₅).lt henv)
    | leaveLoop => exact give trivial
    | leaveFunction v => exact give hsignal

omit hS in
private theorem succ (hnatives : ∀ n ∈ st.natives, n.Borrows) : ProceedsAt st (fuel + 1) where
  expr e hS henv := ih.expr_succ hS e henv
  exprs es hS henv := ih.exprs_succ hS es henv
  apply hS := ih.apply_succ hS hnatives
  method hS := ih.method_succ hS
  function hS := ih.function_succ hS
  perform hS := ih.perform_succ hS
  stmt s hS henv := ih.stmt_succ hS s henv
  stmts ss hS henv := ih.stmts_succ hS ss henv
  whileLoop span c body hS henv := ih.whileLoop_succ hS span c body henv
  forLoop span c i body hS henv := ih.forLoop_succ hS span c i body henv
  clauseHolds c hS henv := ih.clauseHolds_succ hS c henv

end ProceedsAt

/-- With native functions that make up nothing, evaluation goes on by steps of scenes, however many
steps it may take. -/
theorem proceedsAt {st : Settings} (hnatives : ∀ n ∈ st.natives, n.Borrows) (fuel : Nat) :
    ProceedsAt st fuel := by
  induction fuel with
  | zero => exact proceedsAt_zero st
  | succ fuel ih => exact ih.succ hnatives

end Eval
end Lox
