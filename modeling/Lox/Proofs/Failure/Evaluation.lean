import Lox.Proofs.Bounds.Roomier
import Lox.Proofs.Failure.Faithful
import Lox.Proofs.Receiver.Evaluation
import Lox.Proofs.Spans.Unique

set_option autoImplicit false
set_option relaxedAutoImplicit false

namespace Lox

open Text (lit)
open Grammar (Tree)

namespace Chronicling

open Noted Eval Grammar

/-- What is known of the code of the programs: the trees among which it stands, with all that they
consist of, and whether native functions hand failures on directly. -/
structure Code where
  trees : Tree → Prop
  closed {t u : Tree} : trees t → u ∈ t.children → trees u
  direct : Prop

abbrev Code.running (c : Code) : Premises := ⟨c.trees, c.direct, False, []⟩

abbrev Code.inCall (c : Code) (told : List Failure) : Premises := ⟨c.trees, c.direct, True, told⟩

structure FaithfulAt (st : Settings) (c : Code) (fuel : Nat) : Prop where
  expr {e : Expr} (env : FrameId) : c.trees (.expr e) →
    Faithful c.running (chronicling.expr st fuel () e env) (Value.From c.trees)
  exprs {es : List Expr} (env : FrameId) : (∀ e ∈ es, c.trees (.expr e)) →
    Faithful c.running (chronicling.exprs st fuel () es env)
      fun vs => ∀ v ∈ vs, v.From c.trees
  apply {callee : Value} {args : List Value} : callee.From c.trees → (∀ v ∈ args, v.From c.trees) →
    arity? st callee = some args.length →
    Faithful (c.inCall []) (chronicling.apply st fuel callee args)
      (Value.From c.trees)
  method {f : Function} {receiver : Value} {args : List Value} : f.From c.trees →
    receiver.From c.trees → (∀ v ∈ args, v.From c.trees) →
    Faithful (c.inCall []) (chronicling.method st fuel f receiver args) (Value.From c.trees)
  function {f : Function} {args : List Value} (closure : FrameId) : f.From c.trees →
    (∀ v ∈ args, v.From c.trees) →
    Faithful (c.inCall []) (chronicling.function st fuel () f closure args) (Value.From c.trees)
  perform {action : Action} {given : List Value} {told : List Failure} : action.Borrows given →
    (∀ v ∈ given, v.From c.trees) → (c.direct → action.HandsOn (fun _ => True) ∧ told = []) →
    Faithful (c.inCall told) (chronicling.perform st fuel told action)
      (Value.From c.trees)
  stmt {s : Stmt} (env : FrameId) : c.trees (.stmt s) →
    Faithful c.running (chronicling.stmt st fuel () s env) (Signal.From c.trees)
  stmts {ss : List Stmt} (env : FrameId) : (∀ s ∈ ss, c.trees (.stmt s)) →
    Faithful c.running (chronicling.stmts st fuel () ss env)
      (Signal.From c.trees)
  whileLoop {span : Span} {p : Expr} {body : Stmt} (env : FrameId) : Spanned c.trees span →
    c.trees (.expr p) → c.trees (.stmt body) →
    Faithful c.running (chronicling.whileLoop st fuel () span p body env) (Signal.From c.trees)
  forLoop {span : Span} {p i : Option Expr} {body : Stmt} (env : FrameId) : Spanned c.trees span →
    (∀ e, p = some e → c.trees (.expr e)) → (∀ e, i = some e → c.trees (.expr e)) →
    c.trees (.stmt body) →
    Faithful c.running (chronicling.forLoop st fuel () span p i body env) (Signal.From c.trees)
  clauseHolds {p : Option Expr} (env : FrameId) : (∀ e, p = some e → c.trees (.expr e)) →
    Faithful c.running (chronicling.clauseHolds st fuel () p env)
      fun _ => True

private theorem faithfulAt_zero (st : Settings) (c : Code) : FaithfulAt st c 0 where
  expr _ _ := by rw [Scribe.expr]; exact .step .exhaust
  exprs _ _ := by rw [Scribe.exprs]; exact .step .exhaust
  apply _ _ _ := by rw [Scribe.apply]; exact .step .exhaust
  method _ _ _ := by rw [Scribe.method]; exact .step .exhaust
  function _ _ _ := by rw [Scribe.function]; exact .step .exhaust
  perform _ _ _ := by rw [Scribe.perform]; exact .step .exhaust
  stmt _ _ := by rw [Scribe.stmt]; exact .step .exhaust
  stmts _ _ := by rw [Scribe.stmts]; exact .step .exhaust
  whileLoop _ _ _ _ := by rw [Scribe.whileLoop]; exact .step .exhaust
  forLoop _ _ _ _ _ := by rw [Scribe.forLoop]; exact .step .exhaust
  clauseHolds _ _ := by rw [Scribe.clauseHolds]; exact .step .exhaust

private theorem stmt_mem_children {d : FunDecl} {s : Stmt} (hs : s ∈ d.body) :
    .stmt s ∈ (Tree.method d).children ∧ .stmt s ∈ (Tree.static d).children := by
  obtain ⟨span, name, params, body⟩ := d
  have hbody : s ∈ body := hs
  constructor <;> simp [Tree.children, Tree.parts, Piece.function, hbody]

private theorem Code.members (c : Code) {span : Span} {name : Text} {sup : Option NameUse}
    {methods statics : List FunDecl}
    (hs : c.trees (.stmt (.classDecl span name sup methods statics))) :
    (∀ d ∈ methods, ∀ s ∈ d.body, c.trees (.stmt s)) ∧
      ∀ d ∈ statics, ∀ s ∈ d.body, c.trees (.stmt s) := by
  refine ⟨fun d hd s hmem => ?_, fun d hd s hmem => ?_⟩
  · have hmethod : c.trees (.method d) := c.closed hs (by simp [Tree.children, Tree.parts, hd])
    exact c.closed hmethod (stmt_mem_children hmem).1
  · have hstatic : c.trees (.static d) := c.closed hs (by simp [Tree.children, Tree.parts, hd])
    exact c.closed hstatic (stmt_mem_children hmem).2

namespace FaithfulAt

variable {st : Settings} {c : Code} {fuel : Nat} (ih : FaithfulAt st c fuel)
include ih

private theorem call_succ {span : Span} {f : Expr} {args : List Expr} (env : FrameId)
    (he : c.trees (.expr (.call span f args))) :
    Faithful c.running (chronicling.expr st (fuel + 1) () (.call span f args) env)
      (Value.From c.trees) := by
  have hspan : Spanned c.trees span := ⟨_, he, rfl⟩
  have hf : c.trees (.expr f) := c.closed he (by simp [Tree.children, Tree.parts])
  have hargs : ∀ e ∈ args, c.trees (.expr e) :=
    fun e hmem => c.closed he (by simp [Tree.children, Tree.parts, hmem])
  simp only [Scribe.expr]
  refine .bind (ih.expr env hf) fun callee hcallee => .bind (ih.exprs env hargs) fun vs hvs => ?_
  cases harity : arity? st callee with
  | none => exact .step (.error rfl hspan)
  | some expected =>
    dsimp only
    split
    · exact .step (.error rfl hspan)
    · rename_i hcount
      have hlength : vs.length = expected := Decidable.not_not.1 hcount
      exact .counted (ih.apply hcallee hvs (hlength ▸ harity)) ⟨f, args, he⟩

private theorem expr_succ {e : Expr} (env : FrameId) (he : c.trees (.expr e)) :
    Faithful c.running (chronicling.expr st (fuel + 1) () e env)
      (Value.From c.trees) := by
  have hspan : Spanned c.trees e.span := ⟨_, he, rfl⟩
  have part {u : Expr} (hu : .expr u ∈ (Tree.expr e).children) : c.trees (.expr u) := c.closed he hu
  cases e with
  | literal span v =>
    simp only [Scribe.expr]
    exact .give (Value.from_ofLiteral _ v)
  | grouping span e =>
    simp only [Scribe.expr]
    exact ih.expr env (part (by simp [Tree.children, Tree.parts]))
  | unary span op e =>
    simp only [Scribe.expr]
    exact .bind (ih.expr env (part (by simp [Tree.children, Tree.parts]))) fun v _ =>
      .step (calm_unary hspan op v)
  | binary span op a b =>
    simp only [Scribe.expr]
    exact .bind (ih.expr env (part (by simp [Tree.children, Tree.parts]))) fun v _ =>
      .bind (ih.expr env (part (by simp [Tree.children, Tree.parts]))) fun w _ =>
        .step (calm_binary hspan op v w)
  | logical span op a b =>
    simp only [Scribe.expr]
    refine .bind (ih.expr env (part (by simp [Tree.children, Tree.parts]))) fun v hv => ?_
    split
    · exact .give hv
    · exact ih.expr env (part (by simp [Tree.children, Tree.parts]))
  | conditional span p a b =>
    simp only [Scribe.expr]
    refine .bind (ih.expr env (part (by simp [Tree.children, Tree.parts]))) fun v _ => ?_
    split
    · exact ih.expr env (part (by simp [Tree.children, Tree.parts]))
    · exact ih.expr env (part (by simp [Tree.children, Tree.parts]))
  | name use =>
    simp only [Scribe.expr]
    exact .step (calm_readName hspan _ _ env)
  | assign target e =>
    simp only [Scribe.expr]
    exact .bind (ih.expr env (part (by simp [Tree.children, Tree.parts]))) fun v hv =>
      .bind (.step (calm_assignName hspan hv env)) fun _ _ => .give hv
  | call span f args => exact ih.call_succ env he
  | get span o name =>
    simp only [Scribe.expr]
    exact .bind (ih.expr env (part (by simp [Tree.children, Tree.parts]))) fun v hv =>
      .step (calm_property hspan hv name)
  | set span o name e =>
    simp only [Scribe.expr]
    refine .bind (ih.expr env (part (by simp [Tree.children, Tree.parts]))) fun v _ => ?_
    cases v with
    | object i d =>
      refine .bind (ih.expr env (part (by simp [Tree.children, Tree.parts]))) fun w hw => ?_
      exact .bind (.step (.change fun _ hh => hh.setField i name hw)) fun _ _ => .give hw
    | _ => exact .step (.error rfl hspan)
  | this span hops =>
    simp only [Scribe.expr, Chronicling.see]
    exact .step (calm_readName hspan _ _ env)
  | super span name hops =>
    simp only [Scribe.expr, Chronicling.see]
    exact .step (calm_superMethod hspan name hops env)
  | lambda span params body =>
    have hbody : ∀ s ∈ body, c.trees (.stmt s) :=
      fun s hmem => c.closed he (by simp [Tree.children, Tree.parts, hmem])
    simp only [Scribe.expr, Chronicling.newFunction]
    exact .bind (.step (calm_newFunction [] params hbody env false)) fun f hf => .give hf

private theorem exprs_succ {es : List Expr} (env : FrameId) (hes : ∀ e ∈ es, c.trees (.expr e)) :
    Faithful c.running (chronicling.exprs st (fuel + 1) () es env)
      fun vs => ∀ v ∈ vs, v.From c.trees := by
  cases es with
  | nil =>
    simp only [Scribe.exprs]
    exact .give (List.forall_mem_nil _)
  | cons e r =>
    obtain ⟨he, hr⟩ := List.forall_mem_cons.1 hes
    simp only [Scribe.exprs]
    exact .bind (ih.expr env he) fun v hv => .bind (ih.exprs env hr) fun vs hvs =>
      .give (List.forall_mem_cons.2 ⟨hv, hvs⟩)

private theorem apply_succ (hnatives : ∀ n ∈ st.natives, n.Borrows)
    (hdirect : c.direct → ∀ n ∈ st.natives, n.HandsOn fun _ => True) {callee : Value}
    {args : List Value} (hcallee : callee.From c.trees) (hargs : ∀ v ∈ args, v.From c.trees)
    (harity : arity? st callee = some args.length) :
    Faithful (c.inCall []) (chronicling.apply st (fuel + 1) callee args) (Value.From c.trees) := by
  cases callee with
  | function f =>
    simp only [Scribe.apply, consult_unit_bind]
    exact ih.function f.closure hcallee hargs
  | method i f receiver =>
    simp only [Scribe.apply]
    exact ih.method hcallee.1 hcallee.2 hargs
  | native i =>
    obtain ⟨n, hn, hlength⟩ := Option.map_eq_some_iff.1 harity
    have hmem := Array.mem_of_getElem? hn
    simp only [Scribe.apply, hn]
    exact ih.perform (hnatives n hmem args hlength.symm) hargs fun hd =>
      ⟨hdirect hd n hmem args, rfl⟩
  | cls d =>
    simp only [Scribe.apply, Chronicling.see]
    refine .bind (.step (.newObject hcallee)) fun object hobject => ?_
    cases hf : d.initializer with
    | none => exact .give hobject
    | some f =>
      have hfrom : f.From c.trees := Class.Every.find hcallee false hf
      exact .bind (ih.method hfrom hobject hargs) fun _ _ => .give hobject
  | _ => cases harity

private theorem method_succ {f : Function} {receiver : Value}
    {args : List Value} (hf : f.From c.trees)
    (hreceiver : receiver.From c.trees) (hargs : ∀ v ∈ args, v.From c.trees) :
    Faithful (c.inCall []) (chronicling.method st (fuel + 1) f receiver args)
      (Value.From c.trees) := by
  simp only [Scribe.method, consult_unit_bind, Chronicling.see]
  exact .bind (.step (.newSingle _ _ hreceiver)) fun closure _ => ih.function closure hf hargs

private theorem function_succ {f : Function} {args : List Value}
    (closure : FrameId) (hf : f.From c.trees) (hargs : ∀ v ∈ args, v.From c.trees) :
    Faithful (c.inCall []) (chronicling.function st (fuel + 1) () f closure args)
      (Value.From c.trees) := by
  simp only [Scribe.function]
  split
  · exact .step (.fail trivial)
  · exact .bind (.step (.newFrame _ (from_parameterBindings f.params hargs))) fun env _ =>
      .bind (.inside (ih.stmts env hf)) fun signal hsignal => .step (calm_result f closure hsignal)

private theorem perform_succ {action : Action} {given : List Value} {told : List Failure}
    (haction : action.Borrows given) (hgiven : ∀ v ∈ given, v.From c.trees)
    (hdirect : c.direct → action.HandsOn (fun _ => True) ∧ told = []) :
    Faithful (c.inCall told) (chronicling.perform st (fuel + 1) told action)
      (Value.From c.trees) := by
  cases action with
  | give v =>
    simp only [Scribe.perform]
    exact .give (haction.every hgiven)
  | fail f =>
    simp only [Scribe.perform]
    exact .raise f
  | write line next =>
    simp only [Scribe.perform]
    exact .bind (.write st line) fun fault _ =>
      ih.perform (haction fault) hgiven fun hd => ⟨(hdirect hd).1 fault, (hdirect hd).2⟩
  | clock next =>
    simp only [Scribe.perform]
    exact ih.perform (haction st.time) hgiven fun hd => ⟨(hdirect hd).1 st.time, (hdirect hd).2⟩
  | cancel next =>
    have hborrows : next.Borrows given := haction
    have hnext := ih.perform hborrows hgiven fun hd => ⟨(hdirect hd).1, (hdirect hd).2⟩
    simp only [Scribe.perform]
    exact fun past m hm => (hnext past { m with canceled := true } hm).of_canceled
  | invoke callee args next =>
    obtain ⟨hcallee, hargs, hnone, hok, herror⟩ := haction
    by_cases harity : arity? st callee = some args.length
    · simp only [Scribe.perform, if_pos harity]
      refine .callback
        (ih.apply (hcallee.every hgiven) (fun v hv => (hargs v hv).every hgiven) harity)
        (fun v hv => ?_) (fun hnot f => ?_) fun hd f => ?_
      · exact ih.perform (hok v) (List.forall_mem_cons.2 ⟨hv, hgiven⟩)
          fun hd => ⟨(hdirect hd).1.2 _, (hdirect hd).2⟩
      · exact ih.perform (herror f trivial) hgiven fun hd => absurd hd hnot
      · have hon : next (some (.error f)) = .fail f := (hdirect hd).1.1 f trivial
        dsimp only
        rw [hon]
        cases fuel with
        | zero => exact .inr (by rw [Scribe.perform]; rfl)
        | succ fuel => exact .inl (by rw [Scribe.perform, raise_of_mem List.mem_cons_self])
    · simp only [Scribe.perform, if_neg harity]
      exact ih.perform hnone hgiven fun hd => ⟨(hdirect hd).1.2 none, (hdirect hd).2⟩

private theorem var_succ {span : Span} {name : Text} {init : Option Expr} (env : FrameId)
    (hs : c.trees (.stmt (.varDecl span name init))) :
    Faithful c.running (chronicling.stmt st (fuel + 1) () (.varDecl span name init) env)
      (Signal.From c.trees) := by
  cases init with
  | none =>
    simp only [Scribe.stmt]
    exact .bind (.step (.define env name (v := .nil) trivial)) fun _ _ => .give trivial
  | some e =>
    have he : c.trees (.expr e) := c.closed hs (by simp [Tree.children, Tree.parts])
    have hrest : Faithful c.running (chronicling.expr st fuel () e env >>= fun v =>
        chronicling.step (Run.change (·.define env name v)) >>= fun _ =>
          chronicling.step (Run.give Signal.normal)) (Signal.From c.trees) :=
      .bind (ih.expr env he) fun v hv =>
        .bind (.step (.define env name hv)) fun _ _ => .give trivial
    simp only [Scribe.stmt]
    split
    · exact .bind (.step (.change fun _ hh => hh.declare env name trivial)) fun _ _ => hrest
    · exact hrest

omit ih in
private theorem class_succ {span : Span} {name : Text} {sup : Option NameUse}
    {methods statics : List FunDecl}
    (env : FrameId) (hs : c.trees (.stmt (.classDecl span name sup methods statics))) :
    Faithful c.running
      (chronicling.stmt st (fuel + 1) () (.classDecl span name sup methods statics) env)
      (Signal.From c.trees) := by
  obtain ⟨hmethods, hstatics⟩ := c.members hs
  cases sup with
  | none =>
    simp only [Scribe.stmt, Chronicling.newClass]
    exact .bind (.step (.define env name (v := .nil) trivial)) fun _ _ =>
      .bind (.step (calm_newClass name (by rintro _ ⟨⟩) hmethods hstatics env env)) fun _ _ =>
        .give trivial
  | some sup =>
    have hspan : Spanned c.trees sup.span :=
      ⟨.superclass sup, c.closed hs (by simp [Tree.children, Tree.parts]), rfl⟩
    simp only [Scribe.stmt, Chronicling.newClass]
    refine .bind (.step (calm_readName hspan sup.name sup.hops env)) fun v hv => ?_
    cases v with
    | cls d =>
      have hsup : ∀ d', some d = some d' → (Value.cls d').From c.trees := by
        rintro _ ⟨⟩
        exact hv
      exact .bind (.step (.define env name (v := .nil) trivial)) fun _ _ =>
        .bind (.step (.newSingle env _ hv)) fun inner _ =>
          .bind (.step (calm_newClass name hsup hmethods hstatics inner env)) fun _ _ =>
            .give trivial
    | _ => exact .step (.error rfl hspan)

private theorem stmt_succ {s : Stmt} (env : FrameId) (hs : c.trees (.stmt s)) :
    Faithful c.running (chronicling.stmt st (fuel + 1) () s env)
      (Signal.From c.trees) := by
  have hspan : Spanned c.trees s.span := ⟨_, hs, rfl⟩
  have part {u : Tree} (hu : u ∈ (Tree.stmt s).children) : c.trees u := c.closed hs hu
  cases s with
  | exprStmt span e =>
    simp only [Scribe.stmt]
    exact .bind (ih.expr env (part (by simp [Tree.children, Tree.parts]))) fun _ _ => .give trivial
  | printStmt span e =>
    simp only [Scribe.stmt]
    exact .bind (ih.expr env (part (by simp [Tree.children, Tree.parts]))) fun v _ =>
      .bind (.write st v.print) fun _ _ => .give trivial
  | varDecl span name init => exact ih.var_succ env hs
  | block span body =>
    simp only [Scribe.stmt]
    exact .bind (.step (.newBlock env)) fun inner _ =>
      ih.stmts inner fun s hmem => part (by simp [Tree.children, Tree.parts, hmem])
  | ifStmt span p a b =>
    have hp : c.trees (.expr p) := part (by simp [Tree.children, Tree.parts])
    have ha : c.trees (.stmt a) := part (by simp [Tree.children, Tree.parts])
    cases b with
    | none =>
      simp only [Scribe.stmt]
      refine .bind (ih.expr env hp) fun v _ => ?_
      split
      · exact ih.stmt env ha
      · exact .give trivial
    | some b =>
      simp only [Scribe.stmt]
      refine .bind (ih.expr env hp) fun v _ => ?_
      split
      · exact ih.stmt env ha
      · exact ih.stmt env (part (by simp [Tree.children, Tree.parts]))
  | whileStmt span p body =>
    simp only [Scribe.stmt]
    exact ih.whileLoop env hspan (part (by simp [Tree.children, Tree.parts]))
      (part (by simp [Tree.children, Tree.parts]))
  | forStmt span init p i body =>
    have hp : ∀ e, p = some e → c.trees (.expr e) := by
      rintro e rfl
      exact part (by simp [Tree.children, Tree.parts])
    have hi : ∀ e, i = some e → c.trees (.expr e) := by
      rintro e rfl
      exact part (by simp [Tree.children, Tree.parts])
    have hbody : c.trees (.stmt body) := part (by simp [Tree.children, Tree.parts])
    cases init with
    | none =>
      simp only [Scribe.stmt]
      exact ih.forLoop env hspan hp hi hbody
    | some init =>
      simp only [Scribe.stmt]
      exact .bind (.step (.newBlock env)) fun outer _ =>
        .bind (ih.stmt outer (part (by simp [Tree.children, Tree.parts]))) fun _ _ =>
          ih.forLoop outer hspan hp hi hbody
  | breakStmt span =>
    simp only [Scribe.stmt]
    exact .give trivial
  | returnStmt span e =>
    cases e with
    | none =>
      simp only [Scribe.stmt]
      exact .give trivial
    | some e =>
      simp only [Scribe.stmt]
      exact .bind (ih.expr env (part (by simp [Tree.children, Tree.parts]))) fun v hv => .give hv
  | funDecl d =>
    obtain ⟨span, name, params, body⟩ := d
    have hbody : ∀ s ∈ body, c.trees (.stmt s) :=
      fun s hmem => part (by simp [Tree.children, Tree.parts, Piece.function, hmem])
    simp only [Scribe.stmt, Chronicling.newFunction]
    exact .bind (.step (calm_newFunction name params hbody env false)) fun f hf =>
      .bind (.step (.define env name (v := .function f) hf)) fun _ _ => .give trivial
  | classDecl span name sup methods statics => exact class_succ env hs

private theorem stmts_succ {ss : List Stmt} (env : FrameId) (hss : ∀ s ∈ ss, c.trees (.stmt s)) :
    Faithful c.running (chronicling.stmts st (fuel + 1) () ss env)
      (Signal.From c.trees) := by
  cases ss with
  | nil =>
    simp only [Scribe.stmts]
    exact .give trivial
  | cons s r =>
    obtain ⟨hs, hr⟩ := List.forall_mem_cons.1 hss
    simp only [Scribe.stmts]
    refine .bind (ih.stmt env hs) fun signal hsignal => ?_
    cases signal with
    | normal => exact ih.stmts env hr
    | leaveLoop => exact .give trivial
    | leaveFunction v => exact .give hsignal

private theorem whileLoop_succ {span : Span} {p : Expr} {body : Stmt} (env : FrameId)
    (hspan : Spanned c.trees span) (hp : c.trees (.expr p)) (hbody : c.trees (.stmt body)) :
    Faithful c.running (chronicling.whileLoop st (fuel + 1) () span p body env)
      (Signal.From c.trees) := by
  simp only [Scribe.whileLoop]
  refine .bind (.round hspan (.bind (ih.expr env hp) fun _ _ => .give trivial) (ih.stmt env hbody))
    fun turn hturn => ?_
  cases turn with
  | none => exact .give trivial
  | some signal =>
    cases signal with
    | normal => exact ih.whileLoop env hspan hp hbody
    | leaveLoop => exact .give trivial
    | leaveFunction v => exact .give (hturn _ rfl)

private theorem forLoop_succ {span : Span} {p i : Option Expr} {body : Stmt} (env : FrameId)
    (hspan : Spanned c.trees span) (hp : ∀ e, p = some e → c.trees (.expr e))
    (hi : ∀ e, i = some e → c.trees (.expr e)) (hbody : c.trees (.stmt body)) :
    Faithful c.running (chronicling.forLoop st (fuel + 1) () span p i body env)
      (Signal.From c.trees) := by
  simp only [Scribe.forLoop]
  have hround : Faithful c.running (chronicling.step (Run.newFrame env []) >>= fun inner =>
      chronicling.stmt st fuel () body inner >>= fun signal =>
        chronicling.step (Run.give (signal, inner)))
        fun q => Signal.From c.trees q.1 :=
    .bind (.step (.newBlock env)) fun inner _ =>
      .bind (ih.stmt inner hbody) fun _ hsignal => .give hsignal
  refine .bind (.round hspan (ih.clauseHolds env hp) hround) fun turn hturn => ?_
  cases turn with
  | none => exact .give trivial
  | some q =>
    obtain ⟨signal, inner⟩ := q
    have hsignal := hturn _ rfl
    cases signal with
    | normal => exact .bind (ih.clauseHolds inner hi) fun _ _ => ih.forLoop env hspan hp hi hbody
    | leaveLoop => exact .give trivial
    | leaveFunction v => exact .give hsignal

private theorem clauseHolds_succ {p : Option Expr} (env : FrameId)
    (hp : ∀ e, p = some e → c.trees (.expr e)) :
    Faithful c.running (chronicling.clauseHolds st (fuel + 1) () p env) fun _ => True := by
  cases p with
  | none =>
    simp only [Scribe.clauseHolds]
    exact .give trivial
  | some e =>
    simp only [Scribe.clauseHolds]
    exact .bind (ih.expr env (hp e rfl)) fun v _ => .give trivial

private theorem succ (hnatives : ∀ n ∈ st.natives, n.Borrows)
    (hdirect : c.direct → ∀ n ∈ st.natives, n.HandsOn fun _ => True) :
    FaithfulAt st c (fuel + 1) where
  expr := ih.expr_succ
  exprs := ih.exprs_succ
  apply := ih.apply_succ hnatives hdirect
  method := ih.method_succ
  function := ih.function_succ
  perform := ih.perform_succ
  stmt := ih.stmt_succ
  stmts := ih.stmts_succ
  whileLoop := ih.whileLoop_succ
  forLoop := ih.forLoop_succ
  clauseHolds := ih.clauseHolds_succ

end FaithfulAt

/-- With native functions that make up nothing, evaluation is told faithfully, however many steps it
may take. -/
theorem faithfulAt {st : Settings} {c : Code} (hnatives : ∀ n ∈ st.natives, n.Borrows)
    (hdirect : c.direct → ∀ n ∈ st.natives, n.HandsOn fun _ => True) (fuel : Nat) :
    FaithfulAt st c fuel := by
  induction fuel with
  | zero => exact faithfulAt_zero st c
  | succ fuel ih => exact ih.succ hnatives hdirect

private theorem faithful_script {st : Settings} {c : Code} (hnatives : ∀ n ∈ st.natives, n.Borrows)
    (hdirect : c.direct → ∀ n ∈ st.natives, n.HandsOn fun _ => True) (fuel : Nat) {ss : List Stmt}
    (hss : ∀ s ∈ ss, c.trees (.stmt s)) :
    Faithful c.running (chronicling.script st fuel ss) fun _ => True := by
  induction ss with
  | nil => exact .give trivial
  | cons s r ih =>
    obtain ⟨hs, hr⟩ := List.forall_mem_cons.1 hss
    simp only [Scribe.script]
    refine .bind ((faithfulAt hnatives hdirect fuel).stmt Heap.globals hs) fun signal _ => ?_
    cases signal with
    | normal => exact ih hr
    | _ => exact .step (.broken _ _)

theorem faithful_program {st : Settings} {c : Code} (hnatives : ∀ n ∈ st.natives, n.Borrows)
    (hdirect : c.direct → ∀ n ∈ st.natives, n.HandsOn fun _ => True) (fuel : Nat) {p : Program}
    (hp : ∀ s ∈ p.body, c.trees (.stmt s)) :
    Faithful c.running (chronicling.program st fuel p) fun _ => True := by
  intro past m hm
  have hopening := Run.machine_emit st .runStart p.span [] m
  have hstart : (opening st p m).heap.All (Value.From c.trees) := by
    unfold opening
    rw [hopening]
    exact hm
  have hends := faithful_script hnatives hdirect fuel hp past _ hstart
  have hbefore : Note.Tell c.trees m (opening st p m) [] := by
    refine .silent hstart ?_ rfl (List.forall_mem_nil _)
    unfold opening
    rw [hopening]
  have hafter : ∀ m', m'.heap.All (Value.From c.trees) →
      Note.Tell c.trees m' (Run.emit st .runEnd p.span [] m').machine [] := by
    intro m' hm'
    rw [Run.machine_emit]
    exact .silent hm' rfl rfl (List.forall_mem_nil _)
  unfold Scribe.program
  dsimp only
  generalize chronicling.script st fuel p.body past (opening st p m) = r at hends
  cases hends with
  | done h hl ha => exact .done (hbefore.trans (h.unnoted (hafter _ h.heap))) hl ha
  | failed h hl hf hplace =>
    exact .failed (hbefore.trans (h.unnoted (hafter _ h.heap))) hl hf hplace
  | passed h hl hf => cases hf
  | exhausted h => exact .exhausted (hbefore.trans h)

end Chronicling
end Lox
