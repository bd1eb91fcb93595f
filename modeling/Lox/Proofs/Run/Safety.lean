import Lox.Proofs.Run.Safe

set_option autoImplicit false
set_option relaxedAutoImplicit false

namespace Lox

open Text (lit)
open Layers

def Signal.Taken (takes : Takes) (h : Heap) : Signal → Prop
  | .normal => True
  | .leaveLoop => takes.leaveLoop = true
  | .leaveFunction v => takes.leaveFunction = true ∧ v.Sound h

structure Function.Runs (f : Function) (h : Heap) (closure : FrameId) (args : List Value) :
    Prop where
  arguments : args.length = f.arity
  sound : ∀ v ∈ args, v.Sound h
  fits : ∃ ls, h.Fits closure ls ∧ (∀ p ∈ f.params, p.name ≠ lit "super") ∧
    Stmt.ScopedAll (.ofParams f.params :: ls) .inFunction f.body ∧
    (f.isInit = true → Binds ls 0 (lit "this"))

namespace Eval

structure SafeAt (st : Settings) (fuel : Nat) : Prop where
  expr : ∀ {m : Machine} {env : FrameId} {ls : Layers} {e : Expr}, m.heap.Sound →
    m.heap.Fits env ls → e.Scoped ls → Safe (expr st fuel e env) m fun v h => v.Sound h
  exprs : ∀ {m : Machine} {env : FrameId} {ls : Layers} {es : List Expr}, m.heap.Sound →
    m.heap.Fits env ls → Expr.ScopedAll ls es →
    Safe (exprs st fuel es env) m fun vs h => ∀ v ∈ vs, v.Sound h
  apply : ∀ {m : Machine} {callee : Value} {args : List Value}, m.heap.Sound →
    callee.Sound m.heap → (∀ v ∈ args, v.Sound m.heap) → arity? st callee = some args.length →
    Safe (apply st fuel callee args) m fun v h => v.Sound h
  method : ∀ {m : Machine} {f : Function} {receiver : Value} {args : List Value}, m.heap.Sound →
    f.Fits m.heap receiverLayers → receiver.Sound m.heap → (∀ v ∈ args, v.Sound m.heap) →
    args.length = f.arity → Safe (method st fuel f receiver args) m fun v h => v.Sound h
  function : ∀ {m : Machine} {f : Function} {closure : FrameId} {args : List Value},
    m.heap.Sound → f.Runs m.heap closure args →
    Safe (function st fuel f closure args) m fun v h => v.Sound h
  perform : ∀ {m : Machine} {action : Action} {given : List Value}, m.heap.Sound →
    action.Honest given → (∀ v ∈ given, v.Sound m.heap) →
    Safe (perform st fuel action) m fun v h => v.Sound h
  stmt : ∀ {m : Machine} {env : FrameId} {ls : Layers} {takes : Takes} {s : Stmt},
    m.heap.Sound → m.heap.Fits env ls → s.Scoped ls takes →
    Safe (stmt st fuel s env) m fun signal h => signal.Taken takes h ∧ h.Fits env (s.after ls)
  stmts : ∀ {m : Machine} {env : FrameId} {ls : Layers} {takes : Takes} {ss : List Stmt},
    m.heap.Sound → m.heap.Fits env ls → Stmt.ScopedAll ls takes ss →
    Safe (stmts st fuel ss env) m fun signal h => signal.Taken takes h
  whileLoop : ∀ {m : Machine} {env : FrameId} {ls : Layers} {takes : Takes} {span : Span}
    {c : Expr} {body : Stmt}, m.heap.Sound → m.heap.Fits env ls → c.Scoped ls →
    body.Scoped ls takes.inLoop →
    Safe (whileLoop st fuel span c body env) m fun signal h => signal.Taken takes h
  forLoop : ∀ {m : Machine} {env : FrameId} {ls : Layers} {takes : Takes} {span : Span}
    {c i : Option Expr} {body : Stmt}, m.heap.Sound → m.heap.Fits env ls →
    Expr.ScopedOption ls c → body.Scoped (.empty :: ls) takes.inLoop →
    Expr.ScopedOption (.empty :: ls) i →
    Safe (forLoop st fuel span c i body env) m fun signal h => signal.Taken takes h
  clauseHolds : ∀ {m : Machine} {env : FrameId} {ls : Layers} {c : Option Expr}, m.heap.Sound →
    m.heap.Fits env ls → Expr.ScopedOption ls c →
    Safe (clauseHolds st fuel c env) m fun _ _ => True

private theorem safeAt_zero (st : Settings) : SafeAt st 0 where
  expr hs _ _ := by rw [Eval.expr]; exact .exhaust hs
  exprs hs _ _ := by rw [Eval.exprs]; exact .exhaust hs
  apply hs _ _ _ := by rw [Eval.apply]; exact .exhaust hs
  method hs _ _ _ _ := by rw [Eval.method]; exact .exhaust hs
  function hs _ := by rw [Eval.function]; exact .exhaust hs
  perform hs _ _ := by rw [Eval.perform]; exact .exhaust hs
  stmt hs _ _ := by rw [Eval.stmt]; exact .exhaust hs
  stmts hs _ _ := by rw [Eval.stmts]; exact .exhaust hs
  whileLoop hs _ _ _ := by rw [Eval.whileLoop]; exact .exhaust hs
  forLoop hs _ _ _ _ := by rw [Eval.forLoop]; exact .exhaust hs
  clauseHolds hs _ _ := by rw [Eval.clauseHolds]; exact .exhaust hs

variable {st : Settings} {fuel : Nat} {m : Machine} {env : FrameId} {ls : Layers} {takes : Takes}

private theorem safe_funDecl {d : FunDecl} (hs : m.heap.Sound) (henv : m.heap.Fits env ls)
    (hscoped : (Stmt.funDecl d).Scoped ls takes) :
    Safe (Eval.stmt st (fuel + 1) (.funDecl d) env) m fun signal h =>
      signal.Taken takes h ∧ h.Fits env (declare d.name ls) := by
  obtain ⟨span, name, params, body⟩ := d
  obtain ⟨hname, hparams, hbody⟩ := hscoped
  rw [Eval.stmt]
  refine .bind (safe_newFunction hs) fun f m₁ h₁ hf => ?_
  obtain ⟨rfl, rfl, rfl, hinit⟩ := hf
  -- The code may use the name of its function, which is bound only now.
  have henv₂ := (henv.mono h₁.larger).define hname (.function f)
  have hfunction : (Value.function f).Sound (m₁.heap.define f.closure name (.function f)) :=
    ⟨hinit, _, henv₂, hparams, hbody⟩
  refine .bind (.change (h₁.sound.define_after f.closure hname hfunction)) fun _ m₂ h₂ heap => ?_
  refine .give h₂.sound ⟨trivial, ?_⟩
  rw [heap]
  exact henv₂

private theorem safe_classDecl {span : Span} {name : Text} {sup : Option NameUse}
    {methods statics : List FunDecl} (hs : m.heap.Sound) (henv : m.heap.Fits env ls)
    (hscoped : (Stmt.classDecl span name sup methods statics).Scoped ls takes) :
    Safe (Eval.stmt st (fuel + 1) (.classDecl span name sup methods statics) env) m fun signal h =>
      signal.Taken takes h ∧ h.Fits env (declare name ls) := by
  cases sup with
  | none =>
    rw [Eval.stmt]
    obtain ⟨hname, hmethods, hstatics⟩ := hscoped
    refine .bind (.change (hs.define env hname trivial)) fun _ m₁ h₁ heap => ?_
    have henv₁ := henv.define hname .nil
    rw [← heap] at henv₁
    have hnone : ∀ c, (none : Option Class) = some c → c.Sound m₁.heap := by rintro _ ⟨⟩
    refine .bind (safe_newClass h₁.sound henv₁ (henv.mono h₁.larger) hname hnone hmethods hstatics)
      fun _ m₂ h₂ henv₂ => ?_
    exact .give h₂.sound ⟨trivial, henv₂⟩
  | some sup =>
    rw [Eval.stmt]
    obtain ⟨hname, hsup, hmethods, hstatics⟩ := hscoped
    refine .bind (safe_readName hs henv hsup) fun v m₁ h₁ hv => ?_
    split
    · rename_i c
      have henv₁ := henv.mono h₁.larger
      refine .bind (.change (h₁.sound.define env hname trivial)) fun _ m₂ h₂ heap => ?_
      have henv₂ := henv₁.define hname .nil
      rw [← heap] at henv₂
      have hc : (Value.cls c).Sound m₂.heap := hv.mono h₂.larger
      refine .bind (.newSingle h₂.sound henv₂ hc fun _ => ⟨c, rfl⟩) fun inner m₃ h₃ hinner => ?_
      have hsuper : ∀ c', some c = some c' → c'.Sound m₃.heap := by
        rintro _ ⟨⟩
        exact Class.Sound.mono (h₂.larger.trans h₃.larger) hv
      refine .bind (safe_newClass h₃.sound hinner (henv₁.mono (h₂.larger.trans h₃.larger)) hname
        hsuper hmethods hstatics) fun _ m₄ h₄ henv₄ => ?_
      exact .give h₄.sound ⟨trivial, henv₄⟩
    · exact .error h₁.sound

namespace SafeAt

variable (ih : SafeAt st fuel)
include ih

private theorem call_succ {span : Span} {f : Expr} {args : List Expr} (hs : m.heap.Sound)
    (henv : m.heap.Fits env ls) (hscoped : (Expr.call span f args).Scoped ls) :
    Safe (Eval.expr st (fuel + 1) (.call span f args) env) m fun v h => v.Sound h := by
  rw [Eval.expr]
  refine .bind (ih.expr hs henv hscoped.1) fun callee m₁ h₁ hcallee => ?_
  refine .bind (ih.exprs h₁.sound (henv.mono h₁.larger) hscoped.2) fun vs m₂ h₂ hvs => ?_
  split
  · exact .error h₂.sound
  · rename_i expected harity
    split
    · exact .error h₂.sound
    · rename_i hcount
      have hlength : vs.length = expected := Decidable.not_not.1 hcount
      refine safe_counted h₂.sound fun m₃ hheap => ?_
      have hcallee₂ := hcallee.mono h₂.larger
      rw [← hheap] at hcallee₂ hvs
      exact ih.apply (hheap ▸ h₂.sound) hcallee₂ hvs (hlength ▸ harity)

private theorem expr_succ {e : Expr} (hs : m.heap.Sound) (henv : m.heap.Fits env ls)
    (hscoped : e.Scoped ls) : Safe (Eval.expr st (fuel + 1) e env) m fun v h => v.Sound h := by
  cases e with
  | literal span v =>
    rw [Eval.expr]
    refine .give hs ?_
    cases v <;> trivial
  | grouping span e =>
    rw [Eval.expr]
    exact ih.expr hs henv hscoped
  | unary span op e =>
    rw [Eval.expr]
    refine .bind (ih.expr hs henv hscoped.2) fun v m₁ h₁ hv => ?_
    exact safe_unary h₁.sound hscoped.1
  | binary span op a b =>
    rw [Eval.expr]
    refine .bind (ih.expr hs henv hscoped.2.1) fun v m₁ h₁ hv => ?_
    refine .bind (ih.expr h₁.sound (henv.mono h₁.larger) hscoped.2.2) fun w m₂ h₂ hw => ?_
    exact safe_binary h₂.sound hscoped.1
  | logical span op a b =>
    rw [Eval.expr]
    refine .bind (ih.expr hs henv hscoped.1) fun v m₁ h₁ hv => ?_
    split
    · exact .give h₁.sound hv
    · exact ih.expr h₁.sound (henv.mono h₁.larger) hscoped.2
  | conditional span c a b =>
    rw [Eval.expr]
    refine .bind (ih.expr hs henv hscoped.1) fun v m₁ h₁ hv => ?_
    split
    · exact ih.expr h₁.sound (henv.mono h₁.larger) hscoped.2.1
    · exact ih.expr h₁.sound (henv.mono h₁.larger) hscoped.2.2
  | name use =>
    rw [Eval.expr]
    exact safe_readName hs henv hscoped
  | assign target e =>
    rw [Eval.expr]
    obtain ⟨he, hreaches, hname⟩ := hscoped
    refine .bind (ih.expr hs henv he) fun v m₁ h₁ hv => ?_
    refine .bind (safe_assignName h₁.sound hv (henv.mono h₁.larger) hreaches hname)
      fun _ m₂ h₂ _ => ?_
    exact .give h₂.sound (hv.mono h₂.larger)
  | call span f args => exact ih.call_succ hs henv hscoped
  | get span o name =>
    rw [Eval.expr]
    refine .bind (ih.expr hs henv hscoped) fun v m₁ h₁ hv => ?_
    exact safe_property h₁.sound hv
  | set span o name e =>
    rw [Eval.expr]
    refine .bind (ih.expr hs henv hscoped.1) fun v m₁ h₁ hv => ?_
    split
    · rename_i i c
      refine .bind (ih.expr h₁.sound (henv.mono h₁.larger) hscoped.2) fun w m₂ h₂ hw => ?_
      refine .bind (.change (h₂.sound.setField i name hw)) fun _ m₃ h₃ _ => ?_
      exact .give h₃.sound (hw.mono h₃.larger)
    · exact .error h₁.sound
  | this span hops =>
    rw [Eval.expr]
    exact safe_readName hs henv hscoped
  | super span name hops =>
    rw [Eval.expr]
    exact safe_superMethod hs henv hscoped
  | lambda span params body =>
    rw [Eval.expr]
    refine .bind (safe_newFunction_fits [] hs henv hscoped.1 hscoped.2) fun f m₁ h₁ hf => ?_
    exact .give h₁.sound hf

private theorem exprs_succ {es : List Expr} (hs : m.heap.Sound) (henv : m.heap.Fits env ls)
    (hscoped : Expr.ScopedAll ls es) :
    Safe (Eval.exprs st (fuel + 1) es env) m fun vs h => ∀ v ∈ vs, v.Sound h := by
  cases es with
  | nil =>
    rw [Eval.exprs]
    exact .give hs fun v hv => absurd hv List.not_mem_nil
  | cons e r =>
    rw [Eval.exprs]
    refine .bind (ih.expr hs henv hscoped.1) fun v m₁ h₁ hv => ?_
    refine .bind (ih.exprs h₁.sound (henv.mono h₁.larger) hscoped.2) fun vs m₂ h₂ hvs => ?_
    refine .give h₂.sound fun w hw => ?_
    rcases List.mem_cons.1 hw with rfl | hw
    · exact hv.mono h₂.larger
    · exact hvs w hw

private theorem apply_succ {callee : Value} {args : List Value}
    (hnatives : ∀ n ∈ st.natives, n.Honest) (hs : m.heap.Sound) (hcallee : callee.Sound m.heap)
    (hargs : ∀ v ∈ args, v.Sound m.heap) (harity : arity? st callee = some args.length) :
    Safe (Eval.apply st (fuel + 1) callee args) m fun v h => v.Sound h := by
  cases callee with
  | function f =>
    rw [Eval.apply]
    obtain ⟨hinit, ls, hfits, hparams, hbody⟩ := hcallee
    refine ih.function hs ⟨(Option.some.inj harity).symm, hargs, ls, hfits, hparams, hbody, ?_⟩
    intro h
    rw [hinit] at h
    cases h
  | method i f receiver =>
    rw [Eval.apply]
    exact ih.method hs hcallee.1 hcallee.2 hargs (Option.some.inj harity).symm
  | native i =>
    obtain ⟨n, hn, hlength⟩ := Option.map_eq_some_iff.1 harity
    have hhonest := hnatives n (Array.mem_of_getElem? hn)
    rw [Eval.apply, hn]
    exact ih.perform hs (hhonest args hlength.symm) hargs
  | cls c =>
    rw [Eval.apply]
    refine .bind (.newObject hs hcallee) fun object m₁ h₁ hobject => ?_
    have hcount : c.arity = args.length := Option.some.inj harity
    split
    · rename_i f hf
      rw [Class.arity, hf] at hcount
      refine .bind (ih.method h₁.sound ((Class.Sound.findMethod hcallee hf).mono h₁.larger) hobject
        (fun v hv => (hargs v hv).mono h₁.larger) hcount.symm) fun _ m₂ h₂ _ => ?_
      exact .give h₂.sound (hobject.mono h₂.larger)
    · exact .give h₁.sound hobject
  | _ => cases harity

private theorem method_succ {f : Function} {receiver : Value}
    {args : List Value} (hs : m.heap.Sound)
    (hf : f.Fits m.heap receiverLayers) (hreceiver : receiver.Sound m.heap)
    (hargs : ∀ v ∈ args, v.Sound m.heap) (hlength : args.length = f.arity) :
    Safe (Eval.method st (fuel + 1) f receiver args) m fun v h => v.Sound h := by
  rw [Eval.method]
  obtain ⟨ls, hfits, hparams, hbody⟩ := hf
  refine .bind (.newSingle hs hfits hreceiver fun h => absurd h (by decide))
    fun closure m₁ h₁ hclosure => ?_
  refine ih.function h₁.sound ⟨hlength, fun v hv => (hargs v hv).mono h₁.larger, _, hclosure,
    hparams, hbody, fun _ => ⟨_, rfl, rfl⟩⟩

private theorem function_succ {f : Function} {closure : FrameId}
    {args : List Value} (hs : m.heap.Sound) (hruns : f.Runs m.heap closure args) :
    Safe (Eval.function st (fuel + 1) f closure args) m fun v h => v.Sound h := by
  rw [Eval.function]
  obtain ⟨hlength, hargs, ls, hfits, hparams, hbody, hthis⟩ := hruns
  have henough : ¬ args.length < f.arity := by omega
  rw [if_neg henough]
  refine .bind (.newFrame hs hfits (parameterBindings_sound hargs)
    (heldBy_parameterBindings hlength hparams)) fun env m₁ h₁ henv => ?_
  refine .bind (ih.stmts h₁.sound henv hbody) fun signal m₂ h₂ hsignal => ?_
  refine safe_result h₂.sound ?_ ?_ ?_
  · intro hinit
    obtain ⟨l, hl, hname⟩ := hthis hinit
    obtain ⟨a, ha, hheld⟩ := ((hfits.mono h₁.larger).mono h₂.larger).ancestor hl
    cases ha
    exact hheld.1 _ hname
  · rintro rfl
    cases hsignal
  · rintro v rfl
    exact hsignal.2

private theorem perform_succ {action : Action} {given : List Value} (hs : m.heap.Sound)
    (haction : action.Honest given) (hgiven : ∀ v ∈ given, v.Sound m.heap) :
    Safe (Eval.perform st (fuel + 1) action) m fun v h => v.Sound h := by
  cases action with
  | give v =>
    rw [Eval.perform]
    exact .give hs (haction.sound hgiven)
  | fail f =>
    rw [Eval.perform]
    exact .fail hs haction
  | write line next =>
    rw [Eval.perform]
    refine .bind (.write hs) fun fault m₁ h₁ _ => ?_
    exact ih.perform h₁.sound (haction fault) fun v hv => (hgiven v hv).mono h₁.larger
  | clock next =>
    rw [Eval.perform]
    exact ih.perform hs (haction _) hgiven
  | cancel next =>
    rw [Eval.perform]
    have hafter : Safe (Eval.perform st fuel next) { m with canceled := true } fun v h =>
        v.Sound h :=
      ih.perform hs haction hgiven
    exact ⟨hafter.grows, hafter.done, hafter.failed⟩
  | invoke callee args next =>
    rw [Eval.perform]
    obtain ⟨hcallee, hargs, hrefused, hgave, hfailed⟩ := haction
    by_cases harity : arity? st callee = some args.length
    · have happly :=
        ih.apply hs (hcallee.sound hgiven) (fun v hv => (hargs v hv).sound hgiven) harity
      refine .settle (k := fun r => Eval.perform st fuel (next (some r))) happly
        (fun v m₁ h => (congrFun (if_pos harity) m).trans (by rw [h]))
        (fun f m₁ h => (congrFun (if_pos harity) m).trans (by rw [h]))
        (fun m₁ h => (congrFun (if_pos harity) m).trans (by rw [h])) ?_ ?_
      · intro v m₁ h₁ hv
        refine ih.perform h₁.sound (hgave v) fun w hw => ?_
        rcases List.mem_cons.1 hw with rfl | hw
        · exact hv
        · exact (hgiven w hw).mono h₁.larger
      · intro f m₁ h₁ hf
        exact ih.perform h₁.sound (hfailed f hf) fun w hw => (hgiven w hw).mono h₁.larger
    · exact .congr (congrFun (if_neg harity) m) (ih.perform hs hrefused hgiven)

private theorem varDecl_succ {span : Span} {name : Text} {init : Option Expr} (hs : m.heap.Sound)
    (henv : m.heap.Fits env ls) (hscoped : (Stmt.varDecl span name init).Scoped ls takes) :
    Safe (Eval.stmt st (fuel + 1) (.varDecl span name init) env) m fun signal h =>
      signal.Taken takes h ∧ h.Fits env (declare name ls) := by
  obtain ⟨hname, hinit⟩ := hscoped
  cases init with
  | none =>
    rw [Eval.stmt]
    refine .bind (.change (hs.define env hname trivial)) fun _ m₁ h₁ heap => ?_
    refine .give h₁.sound ⟨trivial, ?_⟩
    rw [heap]
    exact henv.define hname .nil
  | some e =>
    have hdeclared : ∀ m₁, m.heap.Grows m₁.heap → m₁.heap.Fits env (declare name ls) →
        Safe (Eval.expr st fuel e env >>= fun v => Run.change (·.define env name v) >>= fun _ =>
          Run.give Signal.normal) m₁ fun signal h =>
            signal.Taken takes h ∧ h.Fits env (declare name ls) := by
      intro m₁ h₁ henv₁
      refine .bind (ih.expr h₁.sound henv₁ hinit) fun v m₂ h₂ hv => ?_
      refine .bind (.change (h₂.sound.define env hname hv)) fun _ m₃ h₃ heap => ?_
      refine .give h₃.sound ⟨trivial, ?_⟩
      rw [heap]
      exact ((henv.mono h₁.larger).mono h₂.larger).define hname v
    rw [Eval.stmt]
    -- At the top a name is global and needs no binding before its value is known.
    cases ls with
    | nil =>
      have hglobal : env = Heap.globals := henv
      rw [if_neg (Decidable.not_not.2 hglobal)]
      exact hdeclared m (.refl hs) henv
    | cons l r =>
      rw [if_pos (henv.ne_globals hs)]
      refine .bind (.change (hs.declare env hname)) fun _ m₁ h₁ heap => hdeclared m₁ h₁ ?_
      rw [heap]
      exact henv.declare hname

private theorem stmt_succ {s : Stmt} (hs : m.heap.Sound) (henv : m.heap.Fits env ls)
    (hscoped : s.Scoped ls takes) :
    Safe (Eval.stmt st (fuel + 1) s env) m fun signal h =>
      signal.Taken takes h ∧ h.Fits env (s.after ls) := by
  cases s with
  | exprStmt span e =>
    rw [Eval.stmt]
    refine .bind (ih.expr hs henv hscoped) fun _ m₁ h₁ _ => ?_
    exact .give h₁.sound ⟨trivial, henv.mono h₁.larger⟩
  | printStmt span e =>
    rw [Eval.stmt]
    refine .bind (ih.expr hs henv hscoped) fun v m₁ h₁ _ => ?_
    refine .bind (.write h₁.sound) fun _ m₂ h₂ _ => ?_
    exact .give h₂.sound ⟨trivial, (henv.mono h₁.larger).mono h₂.larger⟩
  | varDecl span name init => exact ih.varDecl_succ hs henv hscoped
  | block span body =>
    rw [Eval.stmt]
    refine .bind (.newBlock hs henv) fun inner m₁ h₁ hinner => ?_
    refine (ih.stmts h₁.sound hinner hscoped).imp fun signal m₂ h₂ hsignal => ?_
    exact ⟨hsignal, (henv.mono h₁.larger).mono h₂.larger⟩
  | ifStmt span c a b =>
    unfold Eval.stmt
    obtain ⟨hc, hdecl, ha, hb⟩ := hscoped
    refine .bind (ih.expr hs henv hc) fun v m₁ h₁ _ => ?_
    have henv₁ := henv.mono h₁.larger
    split
    · have hafter := ih.stmt h₁.sound henv₁ ha
      rwa [Stmt.after_eq_self hdecl] at hafter
    · cases b with
      | none => exact .give h₁.sound ⟨trivial, henv₁⟩
      | some b =>
        have hafter := ih.stmt h₁.sound henv₁ hb.2
        rwa [Stmt.after_eq_self hb.1] at hafter
  | whileStmt span c body =>
    rw [Eval.stmt]
    refine (ih.whileLoop hs henv hscoped.1 hscoped.2.2).imp fun signal m₁ h₁ hsignal => ?_
    exact ⟨hsignal, henv.mono h₁.larger⟩
  | forStmt span init c i body =>
    cases init with
    | none =>
      rw [Eval.stmt]
      obtain ⟨hc, -, hbody, hi⟩ := hscoped
      refine (ih.forLoop hs henv hc hbody hi).imp fun signal m₁ h₁ hsignal => ?_
      exact ⟨hsignal, henv.mono h₁.larger⟩
    | some init =>
      rw [Eval.stmt]
      obtain ⟨hinit, hc, -, hbody, hi⟩ := hscoped
      refine .bind (.newBlock hs henv) fun outer m₁ h₁ houter => ?_
      refine .bind (ih.stmt h₁.sound houter hinit) fun _ m₂ h₂ hafter => ?_
      refine (ih.forLoop h₂.sound hafter.2 hc hbody hi).imp fun signal m₃ h₃ hsignal => ?_
      exact ⟨hsignal, ((henv.mono h₁.larger).mono h₂.larger).mono h₃.larger⟩
  | breakStmt span =>
    rw [Eval.stmt]
    exact .give hs ⟨hscoped, henv⟩
  | returnStmt span e =>
    cases e with
    | none =>
      rw [Eval.stmt]
      exact .give hs ⟨⟨hscoped.1, trivial⟩, henv⟩
    | some e =>
      rw [Eval.stmt]
      refine .bind (ih.expr hs henv hscoped.2) fun v m₁ h₁ hv => ?_
      exact .give h₁.sound ⟨⟨hscoped.1, hv⟩, henv.mono h₁.larger⟩
  | funDecl d => exact safe_funDecl hs henv hscoped
  | classDecl span name sup methods statics => exact safe_classDecl hs henv hscoped

private theorem stmts_succ {ss : List Stmt} (hs : m.heap.Sound) (henv : m.heap.Fits env ls)
    (hscoped : Stmt.ScopedAll ls takes ss) :
    Safe (Eval.stmts st (fuel + 1) ss env) m fun signal h => signal.Taken takes h := by
  cases ss with
  | nil =>
    rw [Eval.stmts]
    exact .give hs trivial
  | cons s r =>
    rw [Eval.stmts]
    refine .bind (ih.stmt hs henv hscoped.1) fun signal m₁ h₁ hafter => ?_
    split
    · exact ih.stmts h₁.sound hafter.2 hscoped.2
    · exact .give h₁.sound hafter.1

private theorem whileLoop_succ {span : Span} {c : Expr} {body : Stmt} (hs : m.heap.Sound)
    (henv : m.heap.Fits env ls) (hc : c.Scoped ls) (hbody : body.Scoped ls takes.inLoop) :
    Safe (Eval.whileLoop st (fuel + 1) span c body env) m fun signal h => signal.Taken takes h := by
  rw [Eval.whileLoop]
  refine .bind (.checkCanceled hs) fun _ m₁ h₁ _ => ?_
  refine .bind (ih.expr h₁.sound (henv.mono h₁.larger) hc) fun v m₂ h₂ _ => ?_
  have henv₂ := (henv.mono h₁.larger).mono h₂.larger
  split
  · exact .give h₂.sound trivial
  · refine .bind (ih.stmt h₂.sound henv₂ hbody) fun signal m₃ h₃ hafter => ?_
    cases signal with
    | normal => exact ih.whileLoop h₃.sound (henv₂.mono h₃.larger) hc hbody
    | leaveLoop => exact .give h₃.sound trivial
    | leaveFunction v => exact .give h₃.sound hafter.1

private theorem forLoop_succ {span : Span} {c i : Option Expr} {body : Stmt} (hs : m.heap.Sound)
    (henv : m.heap.Fits env ls) (hc : Expr.ScopedOption ls c)
    (hbody : body.Scoped (.empty :: ls) takes.inLoop) (hi : Expr.ScopedOption (.empty :: ls) i) :
    Safe (Eval.forLoop st (fuel + 1) span c i body env) m fun signal h => signal.Taken takes h := by
  rw [Eval.forLoop]
  refine .bind (.checkCanceled hs) fun _ m₁ h₁ _ => ?_
  refine .bind (ih.clauseHolds h₁.sound (henv.mono h₁.larger) hc) fun goOn m₂ h₂ _ => ?_
  have henv₂ := (henv.mono h₁.larger).mono h₂.larger
  split
  · exact .give h₂.sound trivial
  · refine .bind (.newBlock h₂.sound henv₂) fun inner m₃ h₃ hinner => ?_
    refine .bind (ih.stmt h₃.sound hinner hbody) fun signal m₄ h₄ hafter => ?_
    cases signal with
    | normal =>
      refine .bind (ih.clauseHolds h₄.sound (hinner.mono h₄.larger) hi) fun _ m₅ h₅ _ => ?_
      have hgrown := (h₃.larger.trans h₄.larger).trans h₅.larger
      exact ih.forLoop h₅.sound (henv₂.mono hgrown) hc hbody hi
    | leaveLoop => exact .give h₄.sound trivial
    | leaveFunction v => exact .give h₄.sound hafter.1

private theorem clauseHolds_succ {c : Option Expr} (hs : m.heap.Sound) (henv : m.heap.Fits env ls)
    (hc : Expr.ScopedOption ls c) :
    Safe (Eval.clauseHolds st (fuel + 1) c env) m fun _ _ => True := by
  cases c with
  | none =>
    rw [Eval.clauseHolds]
    exact .give hs trivial
  | some e =>
    rw [Eval.clauseHolds]
    refine .bind (ih.expr hs henv hc) fun v m₁ h₁ _ => ?_
    exact .give h₁.sound trivial

private theorem succ (hnatives : ∀ n ∈ st.natives, n.Honest) : SafeAt st (fuel + 1) where
  expr := ih.expr_succ
  exprs := ih.exprs_succ
  apply := ih.apply_succ hnatives
  method := ih.method_succ
  function := ih.function_succ
  perform := ih.perform_succ
  stmt := ih.stmt_succ
  stmts := ih.stmts_succ
  whileLoop := ih.whileLoop_succ
  forLoop := ih.forLoop_succ
  clauseHolds := ih.clauseHolds_succ

end SafeAt

theorem safeAt (hnatives : ∀ n ∈ st.natives, n.Honest) (fuel : Nat) : SafeAt st fuel := by
  induction fuel with
  | zero => exact safeAt_zero st
  | succ fuel ih => exact ih.succ hnatives

end Eval
end Lox
