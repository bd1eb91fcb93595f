import Lox.Proofs.Natives.Held
import Lox.Proofs.Run.Keeps

set_option autoImplicit false
set_option relaxedAutoImplicit false

namespace Lox

open Text (lit)

/-- Settings that may differ in all but some native functions, and those are confined. -/
structure Settings.Guards (ok : Nat → Prop) (st st' : Settings) : Prop where
  limit : st'.limit = st.limit
  traced : st'.traced = st.traced
  outputFault : st'.outputFault = st.outputFault
  time : st'.time = st.time
  natives {i : Nat} : ok i → st'.natives[i]? = st.natives[i]?
  confined {i : Nat} {n : Native} : ok i → st.natives[i]? = some n → n.Confined

/-- A computation has come to a heap within some native functions, and to a value of some kind if to
any. -/
inductive Outcome.Stays (ok : Nat → Prop) {α : Type} (Q : α → Prop) : Outcome α → Prop
  | done {a : α} {m : Machine} : m.heap.All (Value.Within ok) → Q a → Outcome.Stays ok Q (.done a m)
  | failed {f : Failure} {m : Machine} : m.heap.All (Value.Within ok) →
      Outcome.Stays ok Q (.failed f m)
  | exhausted {m : Machine} : m.heap.All (Value.Within ok) → Outcome.Stays ok Q (.exhausted m)

/-- Two computations do the same from every heap within some native functions, and stay within them.
-/
structure Run.Same (ok : Nat → Prop) {α : Type} (x x' : Run α) (Q : α → Prop) : Prop where
  same {m : Machine} : m.heap.All (Value.Within ok) → x' m = x m
  stays {m : Machine} : m.heap.All (Value.Within ok) → (x m).Stays ok Q

namespace Run.Same

variable {ok : Nat → Prop} {α β : Type} {Q : α → Prop} {R : β → Prop}

private theorem give {a : α} (ha : Q a) : Run.Same ok (Run.give a) (Run.give a) Q where
  same _ := rfl
  stays hm := .done hm ha

private theorem exhaust : Run.Same ok (Run.exhaust : Run α) Run.exhaust Q where
  same _ := rfl
  stays hm := .exhausted hm

private theorem fail (f : Failure) : Run.Same ok (Run.fail f : Run α) (Run.fail f) Q where
  same _ := rfl
  stays hm := .failed hm

private theorem error (e : RuntimeError) (span : Span) :
    Run.Same ok (Run.error e span : Run α) (Run.error e span) Q := fail _

private theorem broken (e : InternalError) (span : Span) :
    Run.Same ok (Run.broken e span : Run α) (Run.broken e span) Q := fail _

private theorem bind {x x' : Run α} {k k' : α → Run β} (hx : Run.Same ok x x' Q)
    (hk : ∀ a, Q a → Run.Same ok (k a) (k' a) R) : Run.Same ok (x >>= k) (x' >>= k') R where
  same {m} hm := by
    have hfirst := hx.stays hm
    change x'.andThen k' m = x.andThen k m
    unfold Run.andThen
    rw [hx.same hm]
    generalize x m = o at hfirst
    cases hfirst with
    | done hheap ha => exact (hk _ ha).same hheap
    | failed _ | exhausted _ => rfl
  stays {m} hm := by
    have hfirst := hx.stays hm
    change (x.andThen k m).Stays ok R
    unfold Run.andThen
    generalize x m = o at hfirst
    cases hfirst with
    | done hheap ha => exact (hk _ ha).stays hheap
    | failed hheap => exact .failed hheap
    | exhausted hheap => exact .exhausted hheap

private theorem look {f : Heap → α} (hf : ∀ h : Heap, h.All (Value.Within ok) → Q (f h)) :
    Run.Same ok (Run.look f) (Run.look f) Q where
  same _ := rfl
  stays hm := .done hm (hf _ hm)

private theorem change {f : Heap → Heap}
    (hf : ∀ h : Heap, h.All (Value.Within ok) → (f h).All (Value.Within ok)) :
    Run.Same ok (Run.change f) (Run.change f) fun _ => True where
  same _ := rfl
  stays hm := .done (hf _ hm) trivial

private theorem define (env : FrameId) (name : Text) {v : Value} (hv : v.Within ok) :
    Run.Same ok (Run.change (·.define env name v))
      (Run.change (·.define env name v)) fun _ => True :=
  change fun _ hh => hh.define env name hv

private theorem declare (env : FrameId) (name : Text) :
    Run.Same ok (Run.change (·.declare env name)) (Run.change (·.declare env name)) fun _ => True :=
  change fun _ hh => hh.declare env name (Value.within_of_none rfl)

private theorem newFrame (parent : FrameId) {bs : Bindings}
    (hbs : ∀ n v, bs.lookup n = some v → v.Within ok) :
    Run.Same ok (Run.newFrame parent bs) (Run.newFrame parent bs) fun _ => True where
  same _ := rfl
  stays hm := .done (hm.child parent hbs) trivial

private theorem freshId : Run.Same ok Run.freshId Run.freshId fun _ => True where
  same _ := rfl
  stays hm := .done hm.freshId trivial

private theorem newObject (c : Class) :
    Run.Same ok (Run.newObject c) (Run.newObject c) (Value.Within ok) where
  same _ := rfl
  stays hm := .done hm.newObject (Value.within_of_none rfl)

private theorem bound (f : Function) {receiver : Value} (hr : receiver.Within ok) :
    Run.Same ok (Run.bound f receiver) (Run.bound f receiver) (Value.Within ok) :=
  bind freshId fun _ _ => give hr

private theorem checkCanceled (span : Span) :
    Run.Same ok (Run.checkCanceled span) (Run.checkCanceled span) fun _ => True where
  same _ := rfl
  stays hm := by
    unfold Run.checkCanceled
    split
    · exact .failed hm
    · exact .done hm trivial

private theorem write {st st' : Settings} (h : st.Guards ok st') (line : Text) :
    Run.Same ok (Run.write st line) (Run.write st' line) fun _ => True where
  same _ := by
    unfold Run.write
    rw [h.outputFault]
  stays hm := by
    unfold Run.write
    split <;> exact .done hm trivial

private theorem cancel {x x' : Run α} (hx : Run.Same ok x x' Q) :
    Run.Same ok (fun m => x { m with canceled := true })
      (fun m => x' { m with canceled := true }) Q where
  same hm := hx.same hm
  stays hm := hx.stays hm

private theorem settle {x x' : Run α} {k k' : Except Failure α → Run β} (hx : Run.Same ok x x' Q)
    (hok : ∀ a, Q a → Run.Same ok (k (.ok a)) (k' (.ok a)) R)
    (herror : ∀ f, Run.Same ok (k (.error f)) (k' (.error f)) R) :
    Run.Same ok (x.settle k) (x'.settle k') R where
  same {m} hm := by
    have hfirst := hx.stays hm
    unfold Run.settle
    rw [hx.same hm]
    generalize x m = o at hfirst
    cases hfirst with
    | done hheap ha => exact (hok _ ha).same hheap
    | failed hheap => exact (herror _).same hheap
    | exhausted _ => rfl
  stays {m} hm := by
    have hfirst := hx.stays hm
    unfold Run.settle
    generalize x m = o at hfirst
    cases hfirst with
    | done hheap ha => exact (hok _ ha).stays hheap
    | failed hheap => exact (herror _).stays hheap
    | exhausted hheap => exact .exhausted hheap

end Run.Same

namespace Eval

variable {ok : Nat → Prop} {st st' : Settings}

theorem heap_entry (st : Settings) (callee : Value) (span : Span) (m : Machine) :
    (entry st callee span m).heap = m.heap := by
  unfold entry Run.emit
  cases st.traced <;> rfl

theorem heap_exit (st : Settings) (callee : Value) (span : Span) (m : Machine) :
    (exit st callee span m).heap = m.heap := by
  unfold exit Run.emit
  cases st.traced <;> rfl

theorem heap_afterBody (st : Settings) (callee : Value) (span : Span) (o : Outcome Value) :
    (afterBody st callee span o).machine.heap = o.machine.heap := by
  cases o with
  | done v m | failed f m => exact heap_exit ..
  | exhausted m => rfl

theorem done_of_afterBody {callee : Value} {span : Span} {o : Outcome Value}
    {v : Value} {m' : Machine} (h : afterBody st callee span o = .done v m') :
    ∃ m, o = .done v m ∧ m'.heap = m.heap := by
  cases o with
  | done w m =>
    cases h
    exact ⟨m, rfl, heap_exit ..⟩
  | failed f m => cases h
  | exhausted m => cases h

private theorem stays_afterBody {callee : Value} {span : Span}
    {Q : Value → Prop} {o : Outcome Value}
    (h : o.Stays ok Q) : (afterBody st callee span o).Stays ok Q := by
  cases h with
  | done hheap ha => exact .done ((heap_exit st callee span _).symm ▸ hheap) ha
  | failed hheap => exact .failed ((heap_exit st callee span _).symm ▸ hheap)
  | exhausted hheap => exact .exhausted hheap

private theorem same_counted (h : st.Guards ok st') (callee : Value)
    (span : Span) {x x' : Run Value} (hx : Run.Same ok x x' (Value.Within ok)) :
    Run.Same ok (counted st callee span x) (counted st' callee span x') (Value.Within ok) := by
  have hentry : entry st' callee span = entry st callee span := by
    funext m
    unfold entry Run.emit
    rw [h.traced]
  have hafter : afterBody st' callee span = afterBody st callee span := by
    funext o
    unfold afterBody exit Run.emit
    rw [h.traced]
  constructor
  · intro m hm
    cases hcanceled : m.canceled with
    | true => rw [counted_of_canceled hcanceled, counted_of_canceled hcanceled]
    | false =>
      rcases Nat.lt_or_ge m.depth st.limit with hroom | hover
      · rw [counted_of_room hcanceled hroom,
          counted_of_room hcanceled (h.limit ▸ hroom), hentry, hafter,
          hx.same ((heap_entry st callee span m).symm ▸ hm)]
      · rw [counted_of_overflow hcanceled hover, counted_of_overflow hcanceled (h.limit ▸ hover)]
  · intro m hm
    cases hcanceled : m.canceled with
    | true =>
      rw [counted_of_canceled hcanceled]
      exact .failed hm
    | false =>
      rcases Nat.lt_or_ge m.depth st.limit with hroom | hover
      · rw [counted_of_room hcanceled hroom]
        exact stays_afterBody (hx.stays ((heap_entry st callee span m).symm ▸ hm))
      · rw [counted_of_overflow hcanceled hover]
        exact .failed hm

/-! ### Steps that run no code of the program -/

private theorem same_unary (span : Span) (op : UnaryOp) (v : Value) :
    Run.Same ok (unary span op v) (unary span op v) (Value.Within ok) := by
  unfold unary
  split
  · split
    · exact .give (Value.within_of_none rfl)
    · exact .error _ _
  · exact .give (Value.within_of_none rfl)
  · exact .broken _ _

private theorem same_binary (span : Span) (op : BinaryOp) (v w : Value) :
    Run.Same ok (binary span op v w) (binary span op v w) (Value.Within ok) := by
  have hadd : Run.Same ok (add span v w) (add span v w) (Value.Within ok) := by
    unfold add
    split
    case h_5 => exact .error _ _
    all_goals exact .give (Value.within_of_none rfl)
  have harithmetic : ∀ x y, Run.Same ok (arithmetic span op x y) (arithmetic span op x y)
      (Value.Within ok) := by
    intro x y
    unfold arithmetic
    split
    case h_3 =>
      split
      · exact .error _ _
      · exact .give (Value.within_of_none rfl)
    all_goals first | exact .give (Value.within_of_none rfl) | exact .broken _ _
  unfold binary
  split
  · exact .give (Value.within_of_none rfl)
  · exact .give (Value.within_of_none rfl)
  · exact hadd
  · split
    · exact harithmetic _ _
    · exact .error _ _

abbrev FoundWithin (ok : Nat → Prop) (r : Option Value) : Prop := ∀ v, r = some v → v.Within ok

private theorem same_readName (name : Text) (span : Span) (hops : Option Int) (env : FrameId) :
    Run.Same ok (readName name span hops env) (readName name span hops env) (Value.Within ok) := by
  unfold readName
  cases hops with
  | some d =>
    refine .bind (.look (Q := FoundWithin ok) fun h hh v hv => hh.getAt hv) fun r hr => ?_
    split
    · exact .give (hr _ rfl)
    · exact .broken _ _
  | none =>
    refine .bind (.look (Q := FoundWithin ok) fun h hh v hv => hh.bindings hv) fun r hr => ?_
    split
    · exact .give (hr _ rfl)
    · exact .error _ _

private theorem same_assignName (target : NameUse) {v : Value} (hv : v.Within ok) (env : FrameId) :
    Run.Same ok (assignName target v env) (assignName target v env) fun _ => True := by
  unfold assignName
  split
  · refine .bind (.look (Q := fun _ => True) fun _ _ => trivial) fun holder _ => ?_
    split
    · exact .define _ _ hv
    · exact .broken _ _
  · refine .bind (.look (Q := fun _ => True) fun _ _ => trivial) fun holder _ => ?_
    split
    · exact .define _ _ hv
    · exact .error _ _

private theorem same_property {v : Value} (hv : v.Within ok) (name : Text) (span : Span) :
    Run.Same ok (property v name span) (property v name span) (Value.Within ok) := by
  unfold property
  split
  · refine .bind (.look (Q := FoundWithin ok) fun h hh v hv => hh.field hv) fun r hr => ?_
    split
    · exact .give (hr _ rfl)
    · split
      · exact .bound _ hv
      · exact .error _ _
  · split
    · exact .bound _ hv
    · exact .error _ _
  · exact .error _ _

private theorem same_superMethod (span : Span) (name : Text) (hops : Option Int) (env : FrameId) :
    Run.Same ok (superMethod span name hops env)
      (superMethod span name hops env) (Value.Within ok) := by
  unfold superMethod
  split
  · exact .broken _ _
  · refine .bind (.look (Q := fun _ => True) fun _ _ => trivial) fun sup _ => ?_
    split
    · refine .bind (.look (Q := FoundWithin ok) fun h hh v hv => hh.getAt hv) fun receiver hr => ?_
      split
      · split
        · exact .bound _ (hr _ rfl)
        · exact .error _ _
      · exact .broken _ _
    · exact .broken _ _

private theorem same_newFunction (name : Text) (params : List Param)
    (body : List Stmt) (closure : FrameId)
    (isInit : Bool) : Run.Same ok (newFunction name params body closure isInit)
      (newFunction name params body closure isInit) fun _ => True :=
  .bind .freshId fun _ _ => .give trivial

private theorem same_methodTable (closure : FrameId) (ofInstances : Bool)
    (table : List (Text × Function))
    (decls : List FunDecl) : Run.Same ok (methodTable closure ofInstances table decls)
      (methodTable closure ofInstances table decls) fun _ => True := by
  induction decls generalizing table with
  | nil => exact .give trivial
  | cons d r ih =>
    obtain ⟨span, name, params, body⟩ := d
    exact .bind (same_newFunction _ _ _ _ _) fun f _ => ih _

private theorem same_newClass (name : Text) (superclass : Option Class)
    (methods statics : List FunDecl)
    (closure env : FrameId) : Run.Same ok (newClass name superclass methods statics closure env)
      (newClass name superclass methods statics closure env) fun _ => True :=
  .bind (same_methodTable _ _ _ _) fun _ _ => .bind (same_methodTable _ _ _ _) fun _ _ =>
    .bind .freshId fun _ _ => .define _ _ (Value.within_of_none rfl)

def SignalWithin (ok : Nat → Prop) : Signal → Prop
  | .leaveFunction v => v.Within ok
  | _ => True

private theorem same_result (f : Function) (closure : FrameId) {signal : Signal}
    (hs : SignalWithin ok signal) :
    Run.Same ok (result f closure signal) (result f closure signal) (Value.Within ok) := by
  unfold result
  split
  · exact .fail _
  · split
    · refine .bind (.look (Q := FoundWithin ok) fun h hh v hv => hh.bindings hv) fun receiver hr =>
        ?_
      split
      · exact .give (hr _ rfl)
      · exact .fail _
    · split
      · exact .give hs
      · exact .give (Value.within_of_none rfl)

private theorem within_single {name : Text} {v : Value} (hv : v.Within ok) :
    ∀ n w, List.lookup n [(name, v)] = some w → w.Within ok := by
  intro n w hw
  rw [List.lookup_cons] at hw
  split at hw
  · cases hw
    exact hv
  · cases hw

private theorem within_parameterBindings (params : List Param) {args : List Value}
    (hargs : ∀ v ∈ args, v.Within ok) :
    ∀ n v, (parameterBindings params args).lookup n = some v → v.Within ok := by
  have hempty : ∀ n v, List.lookup n ([] : Bindings) = some v → v.Within ok := nofun
  exact Bindings.foldl_all (fun (q : Param × Value) => q.1.name) Prod.snd (fun _ _ => rfl)
    (fun q hq => hargs q.2 (List.of_mem_zip hq).2) hempty

/-! ### Whole evaluations -/

private theorem arity_of_guards (h : st.Guards ok st') {v : Value} (hv : v.Within ok) :
    arity? st' v = arity? st v := by
  cases v with
  | native i => rw [arity?, arity?, h.natives (hv i rfl)]
  | _ => rfl

/-- Everything that evaluation does within a bound on steps is the same, and stays within some
native functions. -/
structure SameAt (ok : Nat → Prop) (st st' : Settings) (fuel : Nat) : Prop where
  expr (e : Expr) (env : FrameId) :
    Run.Same ok (expr st fuel e env) (expr st' fuel e env) (Value.Within ok)
  exprs (es : List Expr) (env : FrameId) :
    Run.Same ok (exprs st fuel es env) (exprs st' fuel es env) fun vs => ∀ v ∈ vs, v.Within ok
  apply {callee : Value} {args : List Value} : callee.Within ok → (∀ v ∈ args, v.Within ok) →
    arity? st callee = some args.length →
    Run.Same ok (apply st fuel callee args) (apply st' fuel callee args) (Value.Within ok)
  method (f : Function) {receiver : Value} {args : List Value} : receiver.Within ok →
    (∀ v ∈ args, v.Within ok) →
    Run.Same ok (method st fuel f receiver args) (method st' fuel f receiver args) (Value.Within ok)
  function (f : Function) (closure : FrameId) {args : List Value} : (∀ v ∈ args, v.Within ok) →
    Run.Same ok (function st fuel f closure args)
      (function st' fuel f closure args) (Value.Within ok)
  perform {action : Action} : action.Confined ok →
    Run.Same ok (perform st fuel action) (perform st' fuel action) (Value.Within ok)
  stmt (s : Stmt) (env : FrameId) :
    Run.Same ok (stmt st fuel s env) (stmt st' fuel s env) (SignalWithin ok)
  stmts (ss : List Stmt) (env : FrameId) :
    Run.Same ok (stmts st fuel ss env) (stmts st' fuel ss env) (SignalWithin ok)
  whileLoop (span : Span) (c : Expr) (body : Stmt) (env : FrameId) :
    Run.Same ok (whileLoop st fuel span c body env) (whileLoop st' fuel span c body env)
      (SignalWithin ok)
  forLoop (span : Span) (c i : Option Expr) (body : Stmt) (env : FrameId) :
    Run.Same ok (forLoop st fuel span c i body env) (forLoop st' fuel span c i body env)
      (SignalWithin ok)
  clauseHolds (c : Option Expr) (env : FrameId) :
    Run.Same ok (clauseHolds st fuel c env) (clauseHolds st' fuel c env) fun _ => True

private theorem sameAt_zero (ok : Nat → Prop) (st st' : Settings) : SameAt ok st st' 0 where
  expr _ _ := by rw [Eval.expr, Eval.expr]; exact .exhaust
  exprs _ _ := by rw [Eval.exprs, Eval.exprs]; exact .exhaust
  apply _ _ _ := by rw [Eval.apply, Eval.apply]; exact .exhaust
  method _ _ _ _ _ := by rw [Eval.method, Eval.method]; exact .exhaust
  function _ _ _ _ := by rw [Eval.function, Eval.function]; exact .exhaust
  perform _ := by rw [Eval.perform, Eval.perform]; exact .exhaust
  stmt _ _ := by rw [Eval.stmt, Eval.stmt]; exact .exhaust
  stmts _ _ := by rw [Eval.stmts, Eval.stmts]; exact .exhaust
  whileLoop _ _ _ _ := by rw [Eval.whileLoop, Eval.whileLoop]; exact .exhaust
  forLoop _ _ _ _ _ := by rw [Eval.forLoop, Eval.forLoop]; exact .exhaust
  clauseHolds _ _ := by rw [Eval.clauseHolds, Eval.clauseHolds]; exact .exhaust

namespace SameAt

variable (h : st.Guards ok st') {fuel : Nat} (ih : SameAt ok st st' fuel)
include h ih

private theorem expr_succ (e : Expr) (env : FrameId) :
    Run.Same ok (Eval.expr st (fuel + 1) e env)
      (Eval.expr st' (fuel + 1) e env) (Value.Within ok) := by
  rw [Eval.expr.eq_def, Eval.expr.eq_def]
  cases e with
  | literal span v => exact .give (Value.within_ofLiteral ok v)
  | grouping span e => exact ih.expr e env
  | unary span op e => exact .bind (ih.expr e env) fun v _ => same_unary span op v
  | binary span op a b =>
    exact .bind (ih.expr a env) fun v _ => .bind (ih.expr b env) fun w _ => same_binary span op v w
  | logical span op a b =>
    refine .bind (ih.expr a env) fun v hv => ?_
    split
    · exact .give hv
    · exact ih.expr b env
  | conditional span c a b =>
    refine .bind (ih.expr c env) fun v _ => ?_
    split
    · exact ih.expr a env
    · exact ih.expr b env
  | name use => exact same_readName _ _ _ env
  | assign target e =>
    exact .bind (ih.expr e env) fun v hv =>
      .bind (same_assignName target hv env) fun _ _ => .give hv
  | call span f args =>
    refine .bind (ih.expr f env) fun callee hcallee => .bind (ih.exprs args env) fun vs hvs => ?_
    rw [arity_of_guards h hcallee]
    cases harity : arity? st callee with
    | none => exact .error _ _
    | some expected =>
      dsimp only
      by_cases hlength : vs.length = expected
      · rw [if_neg (not_not_intro hlength), if_neg (not_not_intro hlength)]
        exact same_counted h callee span (ih.apply hcallee hvs (hlength ▸ harity))
      · rw [if_pos hlength, if_pos hlength]
        exact .error _ _
  | get span o name => exact .bind (ih.expr o env) fun v hv => same_property hv name span
  | set span o name e =>
    refine .bind (ih.expr o env) fun v _ => ?_
    split
    · exact .bind (ih.expr e env) fun w hw =>
        .bind (.change fun _ hh => hh.setField _ name hw) fun _ _ => .give hw
    · exact .error _ _
  | this span hops => exact same_readName _ _ _ env
  | super span name hops => exact same_superMethod span name hops env
  | lambda span params body =>
    exact .bind (same_newFunction _ _ _ _ _) fun f _ => .give (Value.within_of_none rfl)

omit h in
private theorem exprs_succ (es : List Expr) (env : FrameId) :
    Run.Same ok (Eval.exprs st (fuel + 1) es env) (Eval.exprs st' (fuel + 1) es env)
      fun vs => ∀ v ∈ vs, v.Within ok := by
  cases es with
  | nil =>
    rw [Eval.exprs, Eval.exprs]
    exact .give (List.forall_mem_nil _)
  | cons e r =>
    rw [Eval.exprs, Eval.exprs]
    exact .bind (ih.expr e env) fun v hv => .bind (ih.exprs r env) fun vs hvs =>
      .give (List.forall_mem_cons.2 ⟨hv, hvs⟩)

private theorem apply_succ {callee : Value} {args : List Value} (hcallee : callee.Within ok)
    (hargs : ∀ v ∈ args, v.Within ok) (harity : arity? st callee = some args.length) :
    Run.Same ok (Eval.apply st (fuel + 1) callee args) (Eval.apply st' (fuel + 1) callee args)
      (Value.Within ok) := by
  rw [Eval.apply.eq_def, Eval.apply.eq_def]
  cases callee with
  | function f => exact ih.function f f.closure hargs
  | method i f receiver => exact ih.method f hcallee hargs
  | native i =>
    have hok := hcallee i rfl
    dsimp only
    rw [h.natives hok]
    obtain ⟨n, hn, hlength⟩ := Option.map_eq_some_iff.1 harity
    rw [hn]
    refine ih.perform ((h.confined hok hn args hlength.symm).mono ?_)
    rintro j ⟨v, hv, hj⟩
    exact hargs v hv j hj
  | cls c =>
    refine .bind (.newObject c) fun object hobject => ?_
    split
    · exact .bind (ih.method _ hobject hargs) fun _ _ => .give hobject
    · exact .give hobject
  | _ => exact .fail _

omit h in
private theorem method_succ (f : Function) {receiver : Value} {args : List Value}
    (hreceiver : receiver.Within ok) (hargs : ∀ v ∈ args, v.Within ok) :
    Run.Same ok (Eval.method st (fuel + 1) f receiver args)
      (Eval.method st' (fuel + 1) f receiver args) (Value.Within ok) := by
  rw [Eval.method, Eval.method]
  exact .bind (.newFrame _ (within_single hreceiver)) fun closure _ => ih.function f closure hargs

omit h in
private theorem function_succ (f : Function) (closure : FrameId) {args : List Value}
    (hargs : ∀ v ∈ args, v.Within ok) :
    Run.Same ok (Eval.function st (fuel + 1) f closure args)
      (Eval.function st' (fuel + 1) f closure args) (Value.Within ok) := by
  rw [Eval.function, Eval.function]
  split
  · exact .fail _
  · exact .bind (.newFrame _ (within_parameterBindings f.params hargs)) fun env _ =>
      .bind (ih.stmts f.body env) fun signal hsignal => same_result f closure hsignal

private theorem perform_succ {action : Action} (haction : action.Confined ok) :
    Run.Same ok (Eval.perform st (fuel + 1) action) (Eval.perform st' (fuel + 1) action)
      (Value.Within ok) := by
  cases action with
  | give v =>
    rw [Eval.perform, Eval.perform]
    exact .give haction
  | fail f =>
    rw [Eval.perform, Eval.perform]
    exact .fail f
  | write line next =>
    rw [Eval.perform, Eval.perform]
    exact .bind (.write h line) fun fault _ => ih.perform (haction fault)
  | clock next =>
    rw [Eval.perform, Eval.perform, h.time]
    exact ih.perform (haction st.time)
  | cancel next =>
    rw [Eval.perform, Eval.perform]
    exact .cancel (ih.perform haction)
  | invoke callee args next =>
    obtain ⟨hcallee, hargs, hnone, hok, herror⟩ := haction
    have hsame := arity_of_guards h hcallee
    by_cases harity : arity? st callee = some args.length
    · rw [perform_invoke fuel next harity, perform_invoke fuel next (hsame.trans harity)]
      refine .settle (ih.apply hcallee hargs harity) (fun v hv => ih.perform ?_) fun f =>
        ih.perform (herror f trivial)
      exact Action.Confined.mono (hok v) fun i hi => hi.elim id (hv i)
    · rw [perform_refused fuel next harity, perform_refused fuel next (hsame.symm ▸ harity)]
      exact ih.perform hnone

private theorem stmt_succ (s : Stmt) (env : FrameId) :
    Run.Same ok (Eval.stmt st (fuel + 1) s env)
      (Eval.stmt st' (fuel + 1) s env) (SignalWithin ok) := by
  have hnil : Value.nil.Within ok := Value.within_of_none rfl
  rw [Eval.stmt.eq_def, Eval.stmt.eq_def]
  cases s with
  | exprStmt span e => exact .bind (ih.expr e env) fun _ _ => .give trivial
  | printStmt span e =>
    exact .bind (ih.expr e env) fun v _ => .bind (.write h _) fun _ _ => .give trivial
  | varDecl span name init =>
    cases init with
    | none => exact .bind (.define _ _ hnil) fun _ _ => .give trivial
    | some e =>
      have hrest : Run.Same ok
          (Eval.expr st fuel e env >>= fun v => Run.change (·.define env name v) >>= fun _ =>
            Run.give Signal.normal)
          (Eval.expr st' fuel e env >>= fun v => Run.change (·.define env name v) >>= fun _ =>
            Run.give Signal.normal) (SignalWithin ok) :=
        .bind (ih.expr e env) fun v hv => .bind (.define _ _ hv) fun _ _ => .give trivial
      dsimp only
      split
      · exact .bind (.declare _ _) fun _ _ => hrest
      · exact hrest
  | block span body =>
    exact .bind (.newFrame _ nofun) fun inner _ => ih.stmts body inner
  | ifStmt span c a b =>
    refine .bind (ih.expr c env) fun v _ => ?_
    split
    · exact ih.stmt a env
    · cases b with
      | none => exact .give trivial
      | some b => exact ih.stmt b env
  | whileStmt span c body => exact ih.whileLoop span c body env
  | forStmt span init c i body =>
    cases init with
    | none => exact ih.forLoop span c i body env
    | some init =>
      exact .bind (.newFrame _ nofun) fun outer _ => .bind (ih.stmt init outer) fun _ _ =>
        ih.forLoop span c i body outer
  | breakStmt span => exact .give trivial
  | returnStmt span e =>
    cases e with
    | none => exact .give hnil
    | some e => exact .bind (ih.expr e env) fun v hv => .give hv
  | funDecl d =>
    obtain ⟨span, name, params, body⟩ := d
    exact .bind (same_newFunction _ _ _ _ _) fun f _ =>
      .bind (.define _ _ (Value.within_of_none rfl)) fun _ _ => .give trivial
  | classDecl span name sup methods statics =>
    cases sup with
    | none =>
      exact .bind (.define _ _ hnil) fun _ _ => .bind (same_newClass _ _ _ _ _ _) fun _ _ =>
        .give trivial
    | some sup =>
      refine .bind (same_readName _ _ _ env) fun v hv => ?_
      split
      · exact .bind (.define _ _ hnil) fun _ _ =>
          .bind (.newFrame _ (within_single hv)) fun inner _ =>
          .bind (same_newClass _ _ _ _ _ _) fun _ _ => .give trivial
      · exact .error _ _

omit h in
private theorem stmts_succ (ss : List Stmt) (env : FrameId) :
    Run.Same ok (Eval.stmts st (fuel + 1) ss env) (Eval.stmts st' (fuel + 1) ss env)
      (SignalWithin ok) := by
  cases ss with
  | nil =>
    rw [Eval.stmts, Eval.stmts]
    exact .give trivial
  | cons s r =>
    rw [Eval.stmts, Eval.stmts]
    refine .bind (ih.stmt s env) fun signal hsignal => ?_
    split
    · exact ih.stmts r env
    · exact .give hsignal

omit h in
private theorem whileLoop_succ (span : Span) (c : Expr) (body : Stmt) (env : FrameId) :
    Run.Same ok (Eval.whileLoop st (fuel + 1) span c body env)
      (Eval.whileLoop st' (fuel + 1) span c body env) (SignalWithin ok) := by
  rw [Eval.whileLoop, Eval.whileLoop]
  refine .bind (.checkCanceled span) fun _ _ => .bind (ih.expr c env) fun v _ => ?_
  split
  · exact .give trivial
  · refine .bind (ih.stmt body env) fun signal hsignal => ?_
    split
    · exact ih.whileLoop span c body env
    · exact .give trivial
    · exact .give hsignal

omit h in
private theorem forLoop_succ (span : Span) (c i : Option Expr) (body : Stmt) (env : FrameId) :
    Run.Same ok (Eval.forLoop st (fuel + 1) span c i body env)
      (Eval.forLoop st' (fuel + 1) span c i body env) (SignalWithin ok) := by
  rw [Eval.forLoop, Eval.forLoop]
  refine .bind (.checkCanceled span) fun _ _ => .bind (ih.clauseHolds c env) fun goOn _ => ?_
  split
  · exact .give trivial
  · refine .bind (.newFrame _ fun _ _ h => by cases h) fun inner _ =>
      .bind (ih.stmt body inner) fun signal hsignal => ?_
    split
    · exact .bind (ih.clauseHolds i inner) fun _ _ => ih.forLoop span c i body env
    · exact .give trivial
    · exact .give hsignal

omit h in
private theorem clauseHolds_succ (c : Option Expr) (env : FrameId) :
    Run.Same ok (Eval.clauseHolds st (fuel + 1) c env) (Eval.clauseHolds st' (fuel + 1) c env)
      fun _ => True := by
  cases c with
  | none =>
    rw [Eval.clauseHolds, Eval.clauseHolds]
    exact .give trivial
  | some e =>
    rw [Eval.clauseHolds, Eval.clauseHolds]
    exact .bind (ih.expr e env) fun v _ => .give trivial

private theorem succ : SameAt ok st st' (fuel + 1) where
  expr := ih.expr_succ h
  exprs := ih.exprs_succ
  apply := ih.apply_succ h
  method := ih.method_succ
  function := ih.function_succ
  perform := ih.perform_succ h
  stmt := ih.stmt_succ h
  stmts := ih.stmts_succ
  whileLoop := ih.whileLoop_succ
  forLoop := ih.forLoop_succ
  clauseHolds := ih.clauseHolds_succ

end SameAt

/-- Evaluation is the same, however many steps it takes, and stays within some native functions. -/
theorem sameAt (h : st.Guards ok st') (fuel : Nat) : SameAt ok st st' fuel := by
  induction fuel with
  | zero => exact sameAt_zero ok st st'
  | succ fuel ih => exact ih.succ h

private theorem same_script (h : st.Guards ok st') (fuel : Nat) (ss : List Stmt) :
    Run.Same ok (script st fuel ss) (script st' fuel ss) fun _ => True := by
  induction ss with
  | nil => exact .give trivial
  | cons s r ih =>
    rw [script, script]
    refine .bind ((sameAt h fuel).stmt s Heap.globals) fun signal _ => ?_
    split
    · exact ih
    · exact .broken _ _

theorem same_program (h : st.Guards ok st') (fuel : Nat) (p : Program) :
    Run.Same ok (program st fuel p) (program st' fuel p) fun _ => True := by
  have hopening : opening st' p = opening st p := by
    funext m
    unfold opening Run.emit
    rw [h.traced]
  have hclosing : closing st' p = closing st p := by
    funext o
    unfold closing Run.emit
    rw [h.traced]
  have hemit : ∀ kind m, (Run.emit st kind p.span [] m).machine.heap = m.heap := by
    intro kind m
    rw [Run.machine_emit]
  constructor
  · intro m hm
    rw [program_eq_closing, program_eq_closing, hopening, hclosing]
    exact congrArg _ ((same_script h fuel p.body).same (hemit .runStart m ▸ hm))
  · intro m hm
    have hbody := (same_script h fuel p.body).stays (m := opening st p m) (hemit .runStart m ▸ hm)
    rw [program_eq_closing]
    generalize script st fuel p.body (opening st p m) = o at hbody
    cases hbody with
    | done hheap hq => exact .done ((hemit .runEnd _).symm ▸ hheap) hq
    | failed hheap => exact .failed ((hemit .runEnd _).symm ▸ hheap)
    | exhausted hheap => exact .exhausted hheap

end Eval
end Lox
