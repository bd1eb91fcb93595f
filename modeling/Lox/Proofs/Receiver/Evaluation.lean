import Lox.Proofs.Receiver.Primitive

set_option autoImplicit false
set_option relaxedAutoImplicit false

namespace Lox

open Text (lit)

/-! ### Evaluation -/

namespace Observing

open Noted Eval

/-- Everything that is done within a bound on steps keeps functions with their activations. -/
structure UpholdsAt (st : Settings) (fuel : Nat) : Prop where
  expr : ∀ {ρ : Record} {m : Machine} {env : FrameId} {r : Option Reach} {a : Option Activation}
    {e : Expr}, Upheld ρ m.heap → m.heap.Hosts env r a → e.Hosted r →
    Upholds (observing.expr st fuel a e env) ρ m fun v o h => v.Rooted o h
  exprs : ∀ {ρ : Record} {m : Machine} {env : FrameId} {r : Option Reach} {a : Option Activation}
    {es : List Expr}, Upheld ρ m.heap → m.heap.Hosts env r a → Expr.HostedAll r es →
    Upholds (observing.exprs st fuel a es env) ρ m fun vs o h => ∀ v ∈ vs, v.Rooted o h
  apply : ∀ {ρ : Record} {m : Machine} {callee : Value} {args : List Value}, Upheld ρ m.heap →
    callee.Rooted ρ.origins m.heap → (∀ v ∈ args, v.Rooted ρ.origins m.heap) →
    arity? st callee = some args.length →
    Upholds (observing.apply st fuel callee args) ρ m fun v o h => v.Rooted o h
  method : ∀ {ρ : Record} {m : Machine} {f : Function} {receiver : Value} {args : List Value},
    Upheld ρ m.heap → f.Belongs ρ.origins m.heap → receiver.Rooted ρ.origins m.heap →
    (∀ v ∈ args, v.Rooted ρ.origins m.heap) →
    Upholds (observing.method st fuel f receiver args) ρ m fun v o h => v.Rooted o h
  function : ∀ {ρ : Record} {m : Machine} {f : Function} {closure : FrameId} {r : Option Reach}
    {a : Option Activation} {args : List Value}, Upheld ρ m.heap → m.heap.Hosts closure r a →
    Stmt.HostedAll (r.map .deeper) f.body → (∀ v ∈ args, v.Rooted ρ.origins m.heap) →
    Upholds (observing.function st fuel a f closure args) ρ m fun v o h => v.Rooted o h ∧
      (f.isInit = true → ∀ w, m.heap.getAt? closure 0 (lit "this") = some w → v = w)
  perform : ∀ {ρ : Record} {m : Machine} (told : List Failure)
    {action : Action} {given : List Value},
    Upheld ρ m.heap →
    action.Borrows given → (∀ v ∈ given, v.Rooted ρ.origins m.heap) →
    Upholds (observing.perform st fuel told action) ρ m fun v o h => v.Rooted o h
  stmt : ∀ {ρ : Record} {m : Machine} {env : FrameId} {r : Option Reach} {a : Option Activation}
    {s : Stmt}, Upheld ρ m.heap → m.heap.Hosts env r a → s.Hosted r →
    Upholds (observing.stmt st fuel a s env) ρ m fun signal o h => signal.Rooted o h
  stmts : ∀ {ρ : Record} {m : Machine} {env : FrameId} {r : Option Reach} {a : Option Activation}
    {ss : List Stmt}, Upheld ρ m.heap → m.heap.Hosts env r a → Stmt.HostedAll r ss →
    Upholds (observing.stmts st fuel a ss env) ρ m fun signal o h => signal.Rooted o h
  whileLoop : ∀ {ρ : Record} {m : Machine} {env : FrameId}
    {r : Option Reach} {a : Option Activation}
    {span : Span} {c : Expr} {body : Stmt}, Upheld ρ m.heap → m.heap.Hosts env r a → c.Hosted r →
    body.Hosted r →
    Upholds (observing.whileLoop st fuel a span c body env) ρ m fun signal o h => signal.Rooted o h
  forLoop : ∀ {ρ : Record} {m : Machine} {env : FrameId} {r : Option Reach} {a : Option Activation}
    {span : Span} {c i : Option Expr} {body : Stmt}, Upheld ρ m.heap → m.heap.Hosts env r a →
    Expr.HostedOption r c → body.Hosted (r.map .deeper) → Expr.HostedOption (r.map .deeper) i →
    Upholds (observing.forLoop st fuel a span c i body env) ρ m fun signal o h => signal.Rooted o h
  clauseHolds : ∀ {ρ : Record} {m : Machine} {env : FrameId} {r : Option Reach}
    {a : Option Activation} {c : Option Expr}, Upheld ρ m.heap → m.heap.Hosts env r a →
    Expr.HostedOption r c →
    Upholds (observing.clauseHolds st fuel a c env) ρ m fun _ _ _ => True

private theorem upholdsAt_zero (st : Settings) : UpholdsAt st 0 where
  expr hu _ _ := by simp only [Scribe.expr, Observing.step]; exact .exhaust hu
  exprs hu _ _ := by simp only [Scribe.exprs, Observing.step]; exact .exhaust hu
  apply hu _ _ _ := by simp only [Scribe.apply, Observing.step]; exact .exhaust hu
  method hu _ _ _ := by simp only [Scribe.method, Observing.step]; exact .exhaust hu
  function hu _ _ _ := by simp only [Scribe.function, Observing.step]; exact .exhaust hu
  perform _ _ _ hu _ _ := by simp only [Scribe.perform, Observing.step]; exact .exhaust hu
  stmt hu _ _ := by simp only [Scribe.stmt, Observing.step]; exact .exhaust hu
  stmts hu _ _ := by simp only [Scribe.stmts, Observing.step]; exact .exhaust hu
  whileLoop hu _ _ _ := by simp only [Scribe.whileLoop, Observing.step]; exact .exhaust hu
  forLoop hu _ _ _ _ := by simp only [Scribe.forLoop, Observing.step]; exact .exhaust hu
  clauseHolds hu _ _ := by simp only [Scribe.clauseHolds, Observing.step]; exact .exhaust hu

namespace UpholdsAt

variable {st : Settings} {fuel : Nat} (ih : UpholdsAt st fuel)
include ih

variable {ρ : Record} {m : Machine} {env : FrameId} {r : Option Reach} {a : Option Activation}

private theorem call_succ {span : Span} {f : Expr} {args : List Expr} (hu : Upheld ρ m.heap)
    (hosts : m.heap.Hosts env r a) (hhosted : (Expr.call span f args).Hosted r) :
    Upholds (observing.expr st (fuel + 1) a (.call span f args) env) ρ m
      fun v o h => v.Rooted o h := by
  simp only [Scribe.expr, Observing.step]
  refine .bind (ih.expr hu hosts hhosted.1) fun callee ρ₁ m₁ h₁ hu₁ hcallee => ?_
  refine .bind (ih.exprs hu₁ (hosts.mono h₁.fixes) hhosted.2) fun vs ρ₂ m₂ h₂ hu₂ hvs => ?_
  split
  · exact .error hu₂
  · rename_i expected harity
    split
    · exact .error hu₂
    · rename_i hcount
      have hlength : vs.length = expected := Decidable.not_not.1 hcount
      refine .counted hu₂ fun m₃ hheap => ?_
      have hcallee₂ := hcallee.mono h₂
      rw [← hheap] at hcallee₂ hvs
      exact ih.apply (hheap ▸ hu₂) hcallee₂ hvs (hlength ▸ harity)

private theorem expr_succ {e : Expr} (hu : Upheld ρ m.heap) (hosts : m.heap.Hosts env r a)
    (hhosted : e.Hosted r) :
    Upholds (observing.expr st (fuel + 1) a e env) ρ m fun v o h => v.Rooted o h := by
  cases e with
  | literal span v =>
    simp only [Scribe.expr, Observing.step]
    exact .give hu (Value.rooted_ofLiteral _ _ v)
  | grouping span e =>
    simp only [Scribe.expr]
    exact ih.expr hu hosts hhosted
  | unary span op e =>
    simp only [Scribe.expr, Observing.step]
    exact .bind (ih.expr hu hosts hhosted) fun v ρ₁ m₁ h₁ hu₁ _ => upholds_unary hu₁
  | binary span op e e' =>
    simp only [Scribe.expr, Observing.step]
    refine .bind (ih.expr hu hosts hhosted.1) fun v ρ₁ m₁ h₁ hu₁ _ => ?_
    refine .bind (ih.expr hu₁ (hosts.mono h₁.fixes) hhosted.2) fun w ρ₂ m₂ h₂ hu₂ _ => ?_
    exact upholds_binary hu₂
  | logical span op e e' =>
    simp only [Scribe.expr, Observing.step]
    refine .bind (ih.expr hu hosts hhosted.1) fun v ρ₁ m₁ h₁ hu₁ hv => ?_
    split
    · exact .give hu₁ hv
    · exact ih.expr hu₁ (hosts.mono h₁.fixes) hhosted.2
  | conditional span c e e' =>
    simp only [Scribe.expr]
    refine .bind (ih.expr hu hosts hhosted.1) fun v ρ₁ m₁ h₁ hu₁ _ => ?_
    split
    · exact ih.expr hu₁ (hosts.mono h₁.fixes) hhosted.2.1
    · exact ih.expr hu₁ (hosts.mono h₁.fixes) hhosted.2.2
  | name use =>
    simp only [Scribe.expr, Observing.step]
    exact upholds_readName hu
  | assign target e =>
    simp only [Scribe.expr, Observing.step]
    refine .bind (ih.expr hu hosts hhosted.2) fun v ρ₁ m₁ h₁ hu₁ hv => ?_
    refine .bind (upholds_assignName hu₁ hhosted.1 hv) fun _ ρ₂ m₂ h₂ hu₂ _ => ?_
    exact .give hu₂ (hv.mono h₂)
  | call span f args => exact ih.call_succ hu hosts hhosted
  | get span o name =>
    simp only [Scribe.expr, Observing.step]
    exact .bind (ih.expr hu hosts hhosted) fun v ρ₁ m₁ h₁ hu₁ hv => upholds_property hu₁ hv
  | set span o name e =>
    simp only [Scribe.expr, Observing.step]
    refine .bind (ih.expr hu hosts hhosted.1) fun v ρ₁ m₁ h₁ hu₁ hv => ?_
    split
    · rename_i i c
      refine .bind (ih.expr hu₁ (hosts.mono h₁.fixes) hhosted.2) fun w ρ₂ m₂ h₂ hu₂ hw => ?_
      refine .bind (.setField hu₂ hw) fun _ ρ₃ m₃ h₃ hu₃ _ => ?_
      exact .give hu₃ (hw.mono h₃)
    · exact .error hu₁
  | this span hops =>
    simp only [Scribe.expr, Observing.step]
    exact .see (upholds_readName hu) (right_this hosts hhosted)
  | super span name hops =>
    simp only [Scribe.expr, Observing.step]
    exact .see (upholds_superMethod hu hosts hhosted) (right_super hosts hhosted)
  | lambda span params body =>
    simp only [Scribe.expr, Observing.step]
    exact .bind (.newFunction hu hosts hhosted) fun f ρ₁ m₁ h₁ hu₁ hf => .give hu₁ hf

private theorem exprs_succ {es : List Expr} (hu : Upheld ρ m.heap) (hosts : m.heap.Hosts env r a)
    (hhosted : Expr.HostedAll r es) :
    Upholds (observing.exprs st (fuel + 1) a es env) ρ m fun vs o h => ∀ v ∈ vs, v.Rooted o h := by
  cases es with
  | nil =>
    simp only [Scribe.exprs, Observing.step]
    exact .give hu (List.forall_mem_nil _)
  | cons e es =>
    simp only [Scribe.exprs, Observing.step]
    refine .bind (ih.expr hu hosts hhosted.1) fun v ρ₁ m₁ h₁ hu₁ hv => ?_
    refine .bind (ih.exprs hu₁ (hosts.mono h₁.fixes) hhosted.2) fun vs ρ₂ m₂ h₂ hu₂ hvs => ?_
    exact .give hu₂ (List.forall_mem_cons.2 ⟨hv.mono h₂, hvs⟩)

private theorem apply_succ (hnatives : ∀ n ∈ st.natives, n.Borrows)
    {callee : Value} {args : List Value}
    (hu : Upheld ρ m.heap) (hcallee : callee.Rooted ρ.origins m.heap)
    (hargs : ∀ v ∈ args, v.Rooted ρ.origins m.heap) (harity : arity? st callee = some args.length) :
    Upholds (observing.apply st (fuel + 1) callee args) ρ m fun v o h => v.Rooted o h := by
  cases callee with
  | function f =>
    simp only [Scribe.apply]
    obtain ⟨-, r, hosts, hbody⟩ := hcallee
    exact .consult ((ih.function hu hosts hbody hargs).imp fun _ _ _ h => h.1)
  | method i f receiver =>
    simp only [Scribe.apply]
    exact ih.method hu hcallee.1 hcallee.2 hargs
  | native i =>
    obtain ⟨n, hn, hlength⟩ := Option.map_eq_some_iff.1 harity
    have hborrows := hnatives n (Array.mem_of_getElem? hn)
    simp only [Scribe.apply, hn]
    exact ih.perform [] hu (hborrows args hlength.symm) hargs
  | cls c =>
    simp only [Scribe.apply, Observing.step]
    refine .bind (.newObject hu hcallee) fun object ρ₁ m₁ h₁ hu₁ hobject => ?_
    split
    · rename_i f hf
      have hbelongs := (Class.Every.find hcallee false hf).mono h₁
      have hmaking : Upholds (observing.method st fuel f object args >>= fun _ =>
          quiet (Run.give object)) ρ₁ m₁ fun v o h => v.Rooted o h ∧ v = object := by
        refine .bind (ih.method hu₁ hbelongs hobject fun v hv => (hargs v hv).mono h₁)
          fun _ ρ₂ m₂ h₂ hu₂ _ => ?_
        exact .give hu₂ ⟨hobject.mono h₂, rfl⟩
      exact .see (hmaking.imp fun _ _ _ h => h.1) fun v m' hrun => (hmaking.done v m' hrun).2
    · exact .give hu₁ hobject
  | _ => cases harity

private theorem method_succ {f : Function} {receiver : Value}
    {args : List Value} (hu : Upheld ρ m.heap)
    (hf : f.Belongs ρ.origins m.heap) (hreceiver : receiver.Rooted ρ.origins m.heap)
    (hargs : ∀ v ∈ args, v.Rooted ρ.origins m.heap) :
    Upholds (observing.method st (fuel + 1) f receiver args) ρ m fun v o h => v.Rooted o h := by
  obtain ⟨-, c, hc, hdeclared⟩ := hf
  have hactivation : observing.activation ρ f receiver = some ⟨c, receiver⟩ := by
    show ρ.origins.activation f receiver = _
    unfold Origins.activation
    rw [hc]
    rfl
  simp only [Scribe.method, Observing.step]
  refine .consult ?_
  rw [hactivation]
  -- The frame of the receiver stands right around the frame in which the body runs.
  have hcall : Upholds (quiet (Run.newFrame f.closure [(lit "this", receiver)]) >>= fun closure =>
      observing.function st fuel (some ⟨c, receiver⟩) f closure args) ρ m
        fun v o h => v.Rooted o h ∧ (f.isInit = true → v = receiver) := by
    refine .bind (.newReceiver hu hdeclared hreceiver) fun closure ρ₁ m₁ h₁ hu₁ hclosure => ?_
    refine (ih.function hu₁ hclosure.1 hdeclared.body fun v hv => (hargs v hv).mono h₁).imp ?_
    exact fun v o h hv => ⟨hv.1, fun hinit => hv.2 hinit receiver hclosure.2⟩
  refine .see (hcall.imp fun _ _ _ h => h.1) ⟨c, rfl, hdeclared.own, fun hinit v m' hrun => ?_⟩
  exact (hcall.done v m' hrun).2 (hdeclared.initializer hinit)

private theorem function_succ {f : Function} {closure : FrameId}
    {args : List Value} (hu : Upheld ρ m.heap)
    (hosts : m.heap.Hosts closure r a) (hbody : Stmt.HostedAll (r.map .deeper) f.body)
    (hargs : ∀ v ∈ args, v.Rooted ρ.origins m.heap) :
    Upholds (observing.function st (fuel + 1) a f closure args) ρ m fun v o h => v.Rooted o h ∧
      (f.isInit = true → ∀ w, m.heap.getAt? closure 0 (lit "this") = some w → v = w) := by
  simp only [Scribe.function, Observing.step]
  split
  · exact .fail hu
  · refine .bind (.newInside hu hosts (rooted_parameterBindings f.params hargs))
      fun env ρ₁ m₁ h₁ hu₁ henv => ?_
    refine .bind (ih.stmts hu₁ henv hbody) fun signal ρ₂ m₂ h₂ hu₂ hsignal => ?_
    refine (upholds_result hu₂ hsignal).imp fun v o h hv => ⟨hv.1, fun hinit w hw => ?_⟩
    exact hv.2 hinit w ((h₁.trans h₂).fixes.getAt not_ordinary_this hw)

private theorem perform_succ (told : List Failure) {action : Action}
    {given : List Value} (hu : Upheld ρ m.heap)
    (haction : action.Borrows given) (hgiven : ∀ v ∈ given, v.Rooted ρ.origins m.heap) :
    Upholds (observing.perform st (fuel + 1) told action) ρ m fun v o h => v.Rooted o h := by
  cases action with
  | give v =>
    simp only [Scribe.perform, Observing.step]
    exact .give hu (haction.every hgiven)
  | fail f =>
    simp only [Scribe.perform, Observing.raise]
    exact .fail hu
  | write line next =>
    simp only [Scribe.perform, Observing.write]
    refine .bind (.write hu) fun fault ρ₁ m₁ h₁ hu₁ _ => ?_
    exact ih.perform told hu₁ (haction fault) fun v hv => (hgiven v hv).mono h₁
  | clock next =>
    simp only [Scribe.perform]
    exact ih.perform told hu (haction st.time) hgiven
  | cancel next =>
    simp only [Scribe.perform]
    have hborrows : next.Borrows given := haction
    have hnext := ih.perform told (m := { m with canceled := true }) hu hborrows hgiven
    exact ⟨hnext.later, hnext.upheld, hnext.done⟩
  | invoke callee args next =>
    obtain ⟨hcallee, hargs, hnone, hok, herror⟩ := haction
    simp only [Scribe.perform]
    split
    · rename_i harity
      refine .settle
        (ih.apply hu (hcallee.every hgiven) (fun v hv => (hargs v hv).every hgiven) harity)
        (fun v ρ₁ m₁ h₁ hu₁ hv => ?_) fun f ρ₁ m₁ h₁ hu₁ => ?_
      · exact ih.perform told hu₁ (hok v)
          (List.forall_mem_cons.2 ⟨hv, fun w hw => (hgiven w hw).mono h₁⟩)
      · exact ih.perform (f :: told) hu₁ (herror f trivial) fun w hw => (hgiven w hw).mono h₁
    · exact ih.perform told hu hnone hgiven

private theorem var_succ {span : Span} {name : Text} {init : Option Expr} (hu : Upheld ρ m.heap)
    (hosts : m.heap.Hosts env r a) (hhosted : (Stmt.varDecl span name init).Hosted r) :
    Upholds (observing.stmt st (fuel + 1) a (.varDecl span name init) env) ρ m
      fun signal o h => signal.Rooted o h := by
  obtain ⟨hname, hinit⟩ := hhosted
  cases init with
  | none =>
    simp only [Scribe.stmt, Observing.step]
    exact .bind (.define hu hname trivial) fun _ ρ₁ m₁ h₁ hu₁ _ => .give hu₁ trivial
  | some e =>
    simp only [Scribe.stmt, Observing.step]
    have hrest : ∀ {ρ' : Record} {m' : Machine}, Upheld ρ' m'.heap → m'.heap.Hosts env r a →
        Upholds (observing.expr st fuel a e env >>= fun v =>
          quiet (Run.change (·.define env name v)) >>= fun _ =>
            quiet (Run.give Signal.normal)) ρ' m'
          fun signal o h => signal.Rooted o h := fun hu hosts =>
      .bind (ih.expr hu hosts hinit) fun v ρ₁ m₁ h₁ hu₁ hv =>
        .bind (.define hu₁ hname hv) fun _ ρ₂ m₂ h₂ hu₂ _ => .give hu₂ trivial
    split
    · exact .bind (.declare hu hname) fun _ ρ₁ m₁ h₁ hu₁ _ => hrest hu₁ (hosts.mono h₁.fixes)
    · exact hrest hu hosts

omit ih in
private theorem class_succ {span : Span} {name : Text} {sup : Option NameUse}
    {methods statics : List FunDecl}
    (hu : Upheld ρ m.heap) (hhosted : (Stmt.classDecl span name sup methods statics).Hosted r) :
    Upholds (observing.stmt st (fuel + 1) a (.classDecl span name sup methods statics) env) ρ m
      fun signal o h => signal.Rooted o h := by
  cases sup with
  | none =>
    simp only [Scribe.stmt, Observing.step]
    obtain ⟨hname, hmethods, hstatics⟩ := hhosted
    refine .bind (.define hu hname trivial) fun _ ρ₁ m₁ h₁ hu₁ _ => ?_
    refine .bind (.newClass hu₁ hname (by rintro _ ⟨⟩) hmethods hstatics) fun _ ρ₂ m₂ h₂ hu₂ _ => ?_
    exact .give hu₂ trivial
  | some sup =>
    simp only [Scribe.stmt, Observing.step]
    obtain ⟨hname, hmethods, hstatics⟩ := hhosted
    refine .bind (upholds_readName hu) fun v ρ₁ m₁ h₁ hu₁ hv => ?_
    split
    · rename_i c
      refine .bind (.define hu₁ hname trivial) fun _ ρ₂ m₂ h₂ hu₂ _ => ?_
      have hc : (Value.cls c).Rooted ρ₂.origins m₂.heap := hv.mono h₂
      refine .bind (.newSingle hu₂ hc) fun inner ρ₃ m₃ h₃ hu₃ hinner => ?_
      have hsuper : m₃.heap.getAt? inner 0 (lit "super") = some (.cls c) := by
        rw [hinner.1, hinner.2, Heap.getAt?_child, List.lookup_cons_self]
      refine .bind (.newClass hu₃ hname ?_ hmethods hstatics) fun _ ρ₄ m₄ h₄ hu₄ _ => ?_
      · rintro _ ⟨⟩
        exact ⟨hc.mono h₃, hsuper⟩
      · exact .give hu₄ trivial
    · exact .error hu₁

private theorem stmt_succ {s : Stmt} (hu : Upheld ρ m.heap) (hosts : m.heap.Hosts env r a)
    (hhosted : s.Hosted r) :
    Upholds (observing.stmt st (fuel + 1) a s env) ρ m fun signal o h => signal.Rooted o h := by
  cases s with
  | exprStmt span e =>
    simp only [Scribe.stmt, Observing.step]
    exact .bind (ih.expr hu hosts hhosted) fun _ ρ₁ m₁ h₁ hu₁ _ => .give hu₁ trivial
  | printStmt span e =>
    simp only [Scribe.stmt, Observing.step, Observing.write]
    refine .bind (ih.expr hu hosts hhosted) fun v ρ₁ m₁ h₁ hu₁ _ => ?_
    exact .bind (.write hu₁) fun _ ρ₂ m₂ h₂ hu₂ _ => .give hu₂ trivial
  | varDecl span name init => exact ih.var_succ hu hosts hhosted
  | block span body =>
    simp only [Scribe.stmt, Observing.step]
    exact .bind (.newBlock hu hosts) fun inner ρ₁ m₁ h₁ hu₁ hinner => ih.stmts hu₁ hinner hhosted
  | ifStmt span c yes no =>
    obtain ⟨hc, hyes, hno⟩ := hhosted
    cases no with
    | none =>
      simp only [Scribe.stmt, Observing.step]
      refine .bind (ih.expr hu hosts hc) fun v ρ₁ m₁ h₁ hu₁ _ => ?_
      split
      · exact ih.stmt hu₁ (hosts.mono h₁.fixes) hyes
      · exact .give hu₁ trivial
    | some no =>
      simp only [Scribe.stmt]
      refine .bind (ih.expr hu hosts hc) fun v ρ₁ m₁ h₁ hu₁ _ => ?_
      split
      · exact ih.stmt hu₁ (hosts.mono h₁.fixes) hyes
      · exact ih.stmt hu₁ (hosts.mono h₁.fixes) hno
  | whileStmt span c body =>
    simp only [Scribe.stmt]
    exact ih.whileLoop hu hosts hhosted.1 hhosted.2
  | forStmt span init c i body =>
    cases init with
    | none =>
      simp only [Scribe.stmt]
      exact ih.forLoop hu hosts hhosted.1 hhosted.2.1 hhosted.2.2
    | some init =>
      simp only [Scribe.stmt, Observing.step]
      obtain ⟨hinit, hc, hbody, hi⟩ := hhosted
      refine .bind (.newBlock hu hosts) fun outer ρ₁ m₁ h₁ hu₁ houter => ?_
      refine .bind (ih.stmt hu₁ houter hinit) fun _ ρ₂ m₂ h₂ hu₂ _ => ?_
      exact ih.forLoop hu₂ (houter.mono h₂.fixes) hc hbody hi
  | breakStmt span =>
    simp only [Scribe.stmt, Observing.step]
    exact .give hu trivial
  | returnStmt span e =>
    cases e with
    | none =>
      simp only [Scribe.stmt, Observing.step]
      exact .give hu trivial
    | some e =>
      simp only [Scribe.stmt, Observing.step]
      exact .bind (ih.expr hu hosts hhosted) fun v ρ₁ m₁ h₁ hu₁ hv => .give hu₁ hv
  | funDecl d =>
    obtain ⟨span, name, params, body⟩ := d
    simp only [Scribe.stmt, Observing.step]
    refine .bind (.newFunction hu hosts hhosted.2) fun f ρ₁ m₁ h₁ hu₁ hf => ?_
    exact .bind (.define hu₁ hhosted.1 hf) fun _ ρ₂ m₂ h₂ hu₂ _ => .give hu₂ trivial
  | classDecl span name sup methods statics => exact class_succ hu hhosted

private theorem stmts_succ {ss : List Stmt} (hu : Upheld ρ m.heap) (hosts : m.heap.Hosts env r a)
    (hhosted : Stmt.HostedAll r ss) :
    Upholds (observing.stmts st (fuel + 1) a ss env) ρ m fun signal o h => signal.Rooted o h := by
  cases ss with
  | nil =>
    simp only [Scribe.stmts, Observing.step]
    exact .give hu trivial
  | cons s ss =>
    simp only [Scribe.stmts, Observing.step]
    refine .bind (ih.stmt hu hosts hhosted.1) fun signal ρ₁ m₁ h₁ hu₁ hsignal => ?_
    cases signal with
    | normal => exact ih.stmts hu₁ (hosts.mono h₁.fixes) hhosted.2
    | leaveLoop => exact .give hu₁ trivial
    | leaveFunction v => exact .give hu₁ hsignal

private theorem whileLoop_succ {span : Span} {c : Expr} {body : Stmt} (hu : Upheld ρ m.heap)
    (hosts : m.heap.Hosts env r a) (hc : c.Hosted r) (hbody : body.Hosted r) :
    Upholds (observing.whileLoop st (fuel + 1) a span c body env) ρ m
      fun signal o h => signal.Rooted o h := by
  simp only [Scribe.whileLoop, Observing.step]
  refine .bind (.round hu
    (fun h₁ hu₁ => .bind (ih.expr hu₁ (hosts.mono h₁.fixes) hc) fun v _ _ _ hu₂ _ =>
      .give hu₂ trivial)
    fun h₁ hu₁ => ih.stmt hu₁ (hosts.mono h₁.fixes) hbody) fun turn ρ₁ m₁ h₁ hu₁ hturn => ?_
  cases turn with
  | none => exact .give hu₁ trivial
  | some signal =>
    cases signal with
    | normal => exact ih.whileLoop hu₁ (hosts.mono h₁.fixes) hc hbody
    | leaveLoop => exact .give hu₁ trivial
    | leaveFunction v => exact .give hu₁ (hturn _ rfl)

private theorem forLoop_succ {span : Span} {c i : Option Expr} {body : Stmt} (hu : Upheld ρ m.heap)
    (hosts : m.heap.Hosts env r a) (hc : Expr.HostedOption r c)
    (hbody : body.Hosted (r.map .deeper)) (hi : Expr.HostedOption (r.map .deeper) i) :
    Upholds (observing.forLoop st (fuel + 1) a span c i body env) ρ m
      fun signal o h => signal.Rooted o h := by
  have hround : ∀ {ρ₁ : Record} {m₁ : Machine}, Later ρ.origins m.heap ρ₁.origins m₁.heap →
      Upheld ρ₁ m₁.heap → Upholds (quiet (Run.newFrame env []) >>= fun inner =>
        observing.stmt st fuel a body inner >>= fun signal =>
          quiet (Run.give (signal, inner))) ρ₁ m₁
        fun q o h => q.1.Rooted o h ∧ h.Hosts q.2 (r.map .deeper) a := by
    intro ρ₁ m₁ h₁ hu₁
    refine .bind (.newBlock hu₁ (hosts.mono h₁.fixes)) fun inner ρ₂ m₂ h₂ hu₂ hinner => ?_
    refine .bind (ih.stmt hu₂ hinner hbody) fun signal ρ₃ m₃ h₃ hu₃ hsignal => ?_
    exact .give hu₃ ⟨hsignal, hinner.mono h₃.fixes⟩
  simp only [Scribe.forLoop, Observing.step]
  refine .bind (.round hu (fun h₁ hu₁ => ih.clauseHolds hu₁ (hosts.mono h₁.fixes) hc) hround)
    fun turn ρ₁ m₁ h₁ hu₁ hturn => ?_
  cases turn with
  | none => exact .give hu₁ trivial
  | some q =>
    obtain ⟨signal, inner⟩ := q
    obtain ⟨hsignal, hinner⟩ := hturn _ rfl
    cases signal with
    | normal =>
      refine .bind (ih.clauseHolds hu₁ hinner hi) fun _ ρ₂ m₂ h₂ hu₂ _ => ?_
      exact ih.forLoop hu₂ (hosts.mono (h₁.trans h₂).fixes) hc hbody hi
    | leaveLoop => exact .give hu₁ trivial
    | leaveFunction v => exact .give hu₁ hsignal

private theorem clauseHolds_succ {c : Option Expr} (hu : Upheld ρ m.heap)
    (hosts : m.heap.Hosts env r a) (hc : Expr.HostedOption r c) :
    Upholds (observing.clauseHolds st (fuel + 1) a c env) ρ m fun _ _ _ => True := by
  cases c with
  | none =>
    simp only [Scribe.clauseHolds, Observing.step]
    exact .give hu trivial
  | some e =>
    simp only [Scribe.clauseHolds, Observing.step]
    exact .bind (ih.expr hu hosts hc) fun v ρ₁ m₁ h₁ hu₁ _ => .give hu₁ trivial

private theorem succ (hnatives : ∀ n ∈ st.natives, n.Borrows) : UpholdsAt st (fuel + 1) where
  expr := ih.expr_succ
  exprs := ih.exprs_succ
  apply := ih.apply_succ hnatives
  method := ih.method_succ
  function := ih.function_succ
  perform := ih.perform_succ
  stmt := ih.stmt_succ
  stmts := ih.stmts_succ
  whileLoop := ih.whileLoop_succ
  forLoop := ih.forLoop_succ
  clauseHolds := ih.clauseHolds_succ

end UpholdsAt

/-- With native functions that make up nothing, evaluation keeps functions with their activations,
however many steps it may take. -/
theorem upholdsAt {st : Settings} (hnatives : ∀ n ∈ st.natives, n.Borrows) (fuel : Nat) :
    UpholdsAt st fuel := by
  induction fuel with
  | zero => exact upholdsAt_zero st
  | succ fuel ih => exact ih.succ hnatives

end Observing
end Lox
