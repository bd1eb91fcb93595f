import Lox.Proofs.Scope.Scoped
import Lox.Run.Eval

set_option autoImplicit false
set_option relaxedAutoImplicit false

namespace Lox

open Text (lit)

/-- A computation that is told how another one ended, unless the steps were used up. -/
def Run.settle {α β : Type} (x : Run α) (k : Except Failure α → Run β) : Run β := fun m =>
  match x m with
  | .done a m' => k (.ok a) m'
  | .failed f m' => k (.error f) m'
  | .exhausted m' => .exhausted m'

def Outcome.ofResult {α : Type} (r : Except Failure α) (m : Machine) : Outcome α :=
  match r with
  | .ok a => .done a m
  | .error f => .failed f m

@[simp] theorem Outcome.machine_ofResult {α : Type} (r : Except Failure α) (m : Machine) :
    (Outcome.ofResult r m).machine = m := by
  cases r <;> rfl

theorem Outcome.eq_ofResult_or_exhausted {α : Type} (o : Outcome α) :
    (∃ r m, o = .ofResult r m) ∨ ∃ m, o = .exhausted m := by
  cases o with
  | done a m => exact .inl ⟨.ok a, m, rfl⟩
  | failed f m => exact .inl ⟨.error f, m, rfl⟩
  | exhausted m => exact .inr ⟨m, rfl⟩

theorem Run.settle_ofResult {α β : Type} {x : Run α} {k : Except Failure α → Run β}
    {r : Except Failure α} {m m' : Machine} (h : x m = .ofResult r m') : x.settle k m = k r m' := by
  unfold settle
  rw [h]
  cases r <;> rfl

theorem Run.settle_exhausted {α β : Type} {x : Run α}
    {k : Except Failure α → Run β} {m m' : Machine}
    (h : x m = .exhausted m') : x.settle k m = .exhausted m' := by
  unfold settle
  rw [h]

theorem Run.look_bind {α β : Type} (f : Heap → α) (k : α → Run β) (m : Machine) :
    (Run.look f >>= k) m = k (f m.heap) m := rfl

theorem Run.bind_eq_settle {α β : Type} (x : Run α) (k : α → Run β) :
    (x >>= k) = x.settle fun r => match r with
      | .ok a => k a
      | .error f => Run.fail f := by
  funext m
  show Run.andThen x k m = _
  unfold Run.andThen Run.settle
  cases x m <;> rfl

theorem Run.bind_of_done {α β : Type} {x : Run α} {k : α → Run β} {a : α} {m m' : Machine}
    (h : x m = .done a m') : (x >>= k) m = k a m' := by
  rw [bind_eq_settle]
  exact settle_ofResult (r := .ok a) h

theorem Run.bind_of_exhausted {α β : Type} {x : Run α} {k : α → Run β} {m m' : Machine}
    (h : x m = .exhausted m') : (x >>= k) m = .exhausted m' := by
  rw [bind_eq_settle]
  exact settle_exhausted h

theorem Run.bind_assoc {α β γ : Type} (x : Run α) (k : α → Run β) (l : β → Run γ) :
    ((x >>= k) >>= l) = x >>= fun a => k a >>= l := by
  funext m
  show andThen (andThen x k) l m = andThen x _ m
  unfold andThen
  cases x m <;> rfl

theorem Run.give_bind {α β : Type} (a : α) (k : α → Run β) : (Run.give a >>= k) = k a := rfl

/-- A property that every step has and that is kept by one computation after another. Names are
declared only where that is told. -/
structure Steps (st : Settings) (may : FrameId → Text → Prop) (P : {α : Type} → Run α → Prop) :
    Prop where
  give {α : Type} (a : α) : P (Run.give a)
  exhaust {α : Type} : P (Run.exhaust : Run α)
  fail {α : Type} (f : Failure) : P (Run.fail f : Run α)
  settle {α β : Type} {x : Run α} {k : Except Failure α → Run β} :
    P x → (∀ r, P (k r)) → P (x.settle k)
  look {α : Type} (f : Heap → α) : P (Run.look f)
  newFrame {β : Type} {k : FrameId → Run β} (parent : FrameId) (bs : Bindings) :
    (∀ e, (∀ n, may e n) → P (k e)) → P (Run.newFrame parent bs >>= k)
  define {e : FrameId} (name : Text) (v : Value) : may e name → P (Run.change (·.define e name v))
  declare {e : FrameId} (name : Text) : may e name → P (Run.change (·.declare e name))
  /-- A name that is bound in some frame already gets another value. -/
  reassign {find : Heap → Option FrameId} {name : Text} {otherwise : Run Unit} (v : Value) :
    (∀ h a, find h = some a → ((h.bindings a).lookup name).isSome = true) → P otherwise →
    P (Run.look find >>= fun holder => match holder with
      | some a => Run.change (·.define a name v)
      | none => otherwise)
  setField (object : Nat) (name : Text) (v : Value) : P (Run.change (·.setField object name v))
  freshId : P Run.freshId
  newObject (c : Class) : P (Run.newObject c)
  write (line : Text) : P (Run.write st line)
  checkCanceled (span : Span) : P (Run.checkCanceled span)
  cancel {α : Type} {x : Run α} : P x → P fun m => x { m with canceled := true }
  counted {body : Run Value} (callee : Value) (span : Span) :
    P body → P (Eval.counted st callee span body)

namespace Steps

variable {st : Settings} {may : FrameId → Text → Prop} {P : {α : Type} → Run α → Prop}
  (hP : Steps st may P) {α β : Type}
include hP

theorem bind {x : Run α} {k : α → Run β} (hx : P x) (hk : ∀ a, P (k a)) : P (x >>= k) := by
  rw [Run.bind_eq_settle]
  refine hP.settle hx fun r => ?_
  cases r with
  | ok a => exact hk a
  | error f => exact hP.fail f

theorem error (e : RuntimeError) (span : Span) : P (Run.error e span : Run α) := hP.fail _

private theorem broken (e : InternalError) (span : Span) : P (Run.broken e span : Run α) :=
  hP.fail _

private theorem bound (f : Function) (receiver : Value) : P (Run.bound f receiver) :=
  hP.bind hP.freshId fun _ => hP.give _

end Steps

private theorem Heap.isSome_of_holderAt? {h : Heap} {e a : FrameId} {d : Int} {name : Text}
    (ha : h.holderAt? e d name = some a) : ((h.bindings a).lookup name).isSome = true := by
  unfold Heap.holderAt? at ha
  split at ha
  · split at ha
    · rename_i hsome
      cases ha
      exact hsome
    · cases ha
  · cases ha

/-! ### Steps that run no code of the program -/

namespace Steps

variable {st : Settings} {may : FrameId → Text → Prop} {P : {α : Type} → Run α → Prop}
  (hP : Steps st may P)
include hP

theorem unary (span : Span) (op : UnaryOp) (v : Value) : P (Eval.unary span op v) := by
  unfold Eval.unary
  split
  · split
    · exact hP.give _
    · exact hP.error _ _
  · exact hP.give _
  · exact hP.broken _ _

private theorem add (span : Span) (v w : Value) : P (Eval.add span v w) := by
  unfold Eval.add
  split
  case h_5 => exact hP.error _ _
  all_goals exact hP.give _

private theorem arithmetic (span : Span) (op : BinaryOp) (x y : Float) :
    P (Eval.arithmetic span op x y) := by
  unfold Eval.arithmetic
  split
  case h_3 =>
    split
    · exact hP.error _ _
    · exact hP.give _
  all_goals first | exact hP.give _ | exact hP.broken _ _

theorem binary (span : Span) (op : BinaryOp) (v w : Value) : P (Eval.binary span op v w) := by
  unfold Eval.binary
  split
  · exact hP.give _
  · exact hP.give _
  · exact hP.add span v w
  · split
    · exact hP.arithmetic span op _ _
    · exact hP.error _ _

theorem readName (name : Text) (span : Span) (hops : Option Int) (env : FrameId) :
    P (Eval.readName name span hops env) := by
  unfold Eval.readName
  cases hops with
  | some d =>
    refine hP.bind (hP.look _) fun v => ?_
    split
    · exact hP.give _
    · exact hP.broken _ _
  | none =>
    refine hP.bind (hP.look _) fun v => ?_
    split
    · exact hP.give _
    · exact hP.error _ _

theorem assignName (target : NameUse) (v : Value) (env : FrameId) :
    P (Eval.assignName target v env) := by
  unfold Eval.assignName
  split
  · exact hP.reassign v (fun _ _ => Heap.isSome_of_holderAt?) (hP.broken _ _)
  · exact hP.reassign v (fun _ _ => Heap.isSome_of_holderAt?) (hP.error _ _)

theorem property (v : Value) (name : Text) (span : Span) : P (Eval.property v name span) := by
  unfold Eval.property
  split
  · refine hP.bind (hP.look _) fun w => ?_
    split
    · exact hP.give _
    · split
      · exact hP.bound _ _
      · exact hP.error _ _
  · split
    · exact hP.bound _ _
    · exact hP.error _ _
  · exact hP.error _ _

private theorem superMethod (span : Span) (name : Text) (hops : Option Int) (env : FrameId) :
    P (Eval.superMethod span name hops env) := by
  unfold Eval.superMethod
  split
  · exact hP.broken _ _
  · refine hP.bind (hP.look _) fun sup => ?_
    split
    · refine hP.bind (hP.look _) fun receiver => ?_
      split
      · split
        · exact hP.bound _ _
        · exact hP.error _ _
      · exact hP.broken _ _
    · exact hP.broken _ _

private theorem newFunction (name : Text) (params : List Param)
    (body : List Stmt) (closure : FrameId)
    (isInit : Bool) : P (Eval.newFunction name params body closure isInit) :=
  hP.bind hP.freshId fun _ => hP.give _

private theorem methodTable (closure : FrameId) (ofInstances : Bool)
    (table : List (Text × Function))
    (decls : List FunDecl) : P (Eval.methodTable closure ofInstances table decls) := by
  induction decls generalizing table with
  | nil => exact hP.give _
  | cons d r ih =>
    obtain ⟨span, name, params, body⟩ := d
    exact hP.bind (hP.newFunction _ _ _ _ _) fun f => ih _

theorem newClass {env : FrameId} {name : Text} (hname : may env name) (superclass : Option Class)
    (methods statics : List FunDecl) (closure : FrameId) :
    P (Eval.newClass name superclass methods statics closure env) :=
  hP.bind (hP.methodTable _ _ _ _) fun _ => hP.bind (hP.methodTable _ _ _ _) fun _ =>
    hP.bind hP.freshId fun _ => hP.define _ _ hname

theorem result (f : Function) (closure : FrameId) (signal : Signal) :
    P (Eval.result f closure signal) := by
  unfold Eval.result
  split
  · exact hP.fail _
  · split
    · refine hP.bind (hP.look _) fun v => ?_
      split
      · exact hP.give _
      · exact hP.fail _
    · split
      · exact hP.give _
      · exact hP.give _

end Steps

namespace Eval

/-! ### Evaluation -/

theorem perform_invoke {st : Settings} {callee : Value} {args : List Value} (fuel : Nat)
    (next : Option (Except Failure Value) → Action) (h : arity? st callee = some args.length) :
    perform st (fuel + 1) (.invoke callee args next) =
      (apply st fuel callee args).settle fun r => perform st fuel (next (some r)) := by
  funext m
  rw [perform]
  refine (congrFun (if_pos h) m).trans ?_
  unfold Run.settle
  cases apply st fuel callee args m <;> rfl

theorem perform_refused {st : Settings} {callee : Value} {args : List Value} (fuel : Nat)
    (next : Option (Except Failure Value) → Action) (h : ¬ arity? st callee = some args.length) :
    perform st (fuel + 1) (.invoke callee args next) = perform st fuel (next none) := by
  funext m
  rw [perform]
  exact congrFun (if_neg h) m

/-! ### Calls -/

def entry (st : Settings) (callee : Value) (span : Span) (m : Machine) : Machine :=
  (Run.emit st .callStart span (if st.traced then callee.print else []) m.enter).machine

def exit (st : Settings) (callee : Value) (span : Span) (m : Machine) : Machine :=
  (Run.emit st .callEnd span (if st.traced then callee.print else []) m).machine.leave

def afterBody (st : Settings) (callee : Value) (span : Span) : Outcome Value → Outcome Value
  | .done v m => .done v (exit st callee span m)
  | .failed f m => .failed (f.attach span) (exit st callee span m)
  | .exhausted m => .exhausted m

theorem canceled_entry (st : Settings) (callee : Value) (span : Span) (m : Machine) :
    (entry st callee span m).canceled = m.canceled := by
  unfold entry Run.emit
  cases st.traced <;> rfl

theorem canceled_afterBody (st : Settings) (callee : Value) (span : Span) (o : Outcome Value) :
    (afterBody st callee span o).machine.canceled = o.machine.canceled := by
  cases o with
  | done v m | failed f m =>
    show (exit st callee span m).canceled = m.canceled
    unfold exit Run.emit
    cases st.traced <;> rfl
  | exhausted m => rfl

section

open Run

variable {st : Settings} {callee : Value} {span : Span} {x : Run Value} {m : Machine}

theorem counted_of_canceled (h : m.canceled = true) :
    counted st callee span x m = .failed (.runtime .canceled (some span)) m := by
  simp only [counted, bind, andThen, checkCanceled, if_pos h]

theorem counted_of_overflow (h : m.canceled = false) (hlimit : st.limit ≤ m.depth) :
    counted st callee span x m = .failed (.runtime .stackOverflow (some span)) m := by
  simp [counted, bind, andThen, checkCanceled, h, hlimit]

theorem counted_of_room (h : m.canceled = false) (hlimit : m.depth < st.limit) :
    counted st callee span x m = afterBody st callee span (x (entry st callee span m)) := by
  simp [counted, bind, andThen, checkCanceled, h, Nat.not_le.2 hlimit, entry]
  rfl

end

/-! ### Whole evaluations -/

/-- Everything that evaluation does within a bound on steps has a property. -/
structure HoldsAt (st : Settings) (may : FrameId → Text → Prop) (P : {α : Type} → Run α → Prop)
    (fuel : Nat) : Prop where
  expr (e : Expr) (env : FrameId) : P (expr st fuel e env)
  exprs (es : List Expr) (env : FrameId) : P (exprs st fuel es env)
  apply (callee : Value) (args : List Value) : P (apply st fuel callee args)
  method (f : Function) (receiver : Value) (args : List Value) :
    P (method st fuel f receiver args)
  function (f : Function) (closure : FrameId) (args : List Value) :
    P (function st fuel f closure args)
  perform (action : Action) : P (perform st fuel action)
  stmt {s : Stmt} {env : FrameId} : (∀ n ∈ s.declared, may env n) → P (stmt st fuel s env)
  stmts {env : FrameId} (ss : List Stmt) : (∀ n, may env n) → P (stmts st fuel ss env)
  whileLoop {body : Stmt} {env : FrameId} (span : Span) (c : Expr) :
    (∀ n ∈ body.declared, may env n) → P (whileLoop st fuel span c body env)
  forLoop (span : Span) (c i : Option Expr) (body : Stmt) (env : FrameId) :
    P (forLoop st fuel span c i body env)
  clauseHolds (c : Option Expr) (env : FrameId) : P (clauseHolds st fuel c env)

section

variable {st : Settings} {may : FrameId → Text → Prop} {P : {α : Type} → Run α → Prop}
  (hP : Steps st may P)
include hP

private theorem holdsAt_zero : HoldsAt st may P 0 where
  expr _ _ := by rw [Eval.expr]; exact hP.exhaust
  exprs _ _ := by rw [Eval.exprs]; exact hP.exhaust
  apply _ _ := by rw [Eval.apply]; exact hP.exhaust
  method _ _ _ := by rw [Eval.method]; exact hP.exhaust
  function _ _ _ := by rw [Eval.function]; exact hP.exhaust
  perform _ := by rw [Eval.perform]; exact hP.exhaust
  stmt _ := by rw [Eval.stmt]; exact hP.exhaust
  stmts _ _ := by rw [Eval.stmts]; exact hP.exhaust
  whileLoop _ _ _ := by rw [Eval.whileLoop]; exact hP.exhaust
  forLoop _ _ _ _ _ := by rw [Eval.forLoop]; exact hP.exhaust
  clauseHolds _ _ := by rw [Eval.clauseHolds]; exact hP.exhaust

namespace HoldsAt

variable {fuel : Nat} (ih : HoldsAt st may P fuel)
include ih

private theorem expr_succ (e : Expr) (env : FrameId) : P (Eval.expr st (fuel + 1) e env) := by
  rw [Eval.expr.eq_def]
  cases e with
  | literal span v => exact hP.give _
  | grouping span e => exact ih.expr e env
  | unary span op e => exact hP.bind (ih.expr e env) fun v => hP.unary span op v
  | binary span op a b =>
    exact hP.bind (ih.expr a env) fun v => hP.bind (ih.expr b env) fun w => hP.binary span op v w
  | logical span op a b =>
    refine hP.bind (ih.expr a env) fun v => ?_
    split
    · exact hP.give _
    · exact ih.expr b env
  | conditional span c a b =>
    refine hP.bind (ih.expr c env) fun v => ?_
    split
    · exact ih.expr a env
    · exact ih.expr b env
  | name use => exact hP.readName _ _ _ env
  | assign target e =>
    exact hP.bind (ih.expr e env) fun v => hP.bind (hP.assignName target v env) fun _ => hP.give v
  | call span f args =>
    refine hP.bind (ih.expr f env) fun callee => hP.bind (ih.exprs args env) fun vs => ?_
    split
    · exact hP.error _ _
    · split
      · exact hP.error _ _
      · exact hP.counted callee span (ih.apply callee vs)
  | get span o name => exact hP.bind (ih.expr o env) fun v => hP.property v name span
  | set span o name e =>
    refine hP.bind (ih.expr o env) fun v => ?_
    split
    · exact hP.bind (ih.expr e env) fun w => hP.bind (hP.setField _ _ _) fun _ => hP.give w
    · exact hP.error _ _
  | this span hops => exact hP.readName _ _ _ env
  | super span name hops => exact hP.superMethod span name hops env
  | lambda span params body => exact hP.bind (hP.newFunction _ _ _ _ _) fun f => hP.give _

private theorem exprs_succ (es : List Expr) (env : FrameId) :
    P (Eval.exprs st (fuel + 1) es env) := by
  cases es with
  | nil =>
    rw [Eval.exprs]
    exact hP.give _
  | cons e r =>
    rw [Eval.exprs]
    exact hP.bind (ih.expr e env) fun v => hP.bind (ih.exprs r env) fun vs => hP.give _

private theorem apply_succ (callee : Value) (args : List Value) :
    P (Eval.apply st (fuel + 1) callee args) := by
  rw [Eval.apply.eq_def]
  cases callee with
  | function f => exact ih.function f f.closure args
  | method i f receiver => exact ih.method f receiver args
  | native i =>
    dsimp only
    split
    · exact ih.perform _
    · exact hP.fail _
  | cls c =>
    refine hP.bind (hP.newObject c) fun object => ?_
    split
    · exact hP.bind (ih.method _ object args) fun _ => hP.give object
    · exact hP.give object
  | _ => exact hP.fail _

private theorem method_succ (f : Function) (receiver : Value) (args : List Value) :
    P (Eval.method st (fuel + 1) f receiver args) := by
  rw [Eval.method]
  exact hP.newFrame _ _ fun closure _ => ih.function f closure args

private theorem function_succ (f : Function) (closure : FrameId) (args : List Value) :
    P (Eval.function st (fuel + 1) f closure args) := by
  rw [Eval.function]
  split
  · exact hP.fail _
  · exact hP.newFrame _ _ fun env henv => hP.bind (ih.stmts f.body henv) fun signal =>
      hP.result f closure signal

private theorem perform_succ (action : Action) : P (Eval.perform st (fuel + 1) action) := by
  cases action with
  | give v =>
    rw [Eval.perform]
    exact hP.give v
  | fail f =>
    rw [Eval.perform]
    exact hP.fail f
  | write line next =>
    rw [Eval.perform]
    exact hP.bind (hP.write line) fun fault => ih.perform (next fault)
  | clock next =>
    rw [Eval.perform]
    exact ih.perform (next st.time)
  | cancel next =>
    rw [Eval.perform]
    exact hP.cancel (ih.perform next)
  | invoke callee args next =>
    by_cases harity : arity? st callee = some args.length
    · rw [perform_invoke fuel next harity]
      exact hP.settle (ih.apply callee args) fun r => ih.perform _
    · rw [perform_refused fuel next harity]
      exact ih.perform (next none)

private theorem stmt_succ {s : Stmt} {env : FrameId} (hs : ∀ n ∈ s.declared, may env n) :
    P (Eval.stmt st (fuel + 1) s env) := by
  rw [Eval.stmt.eq_def]
  cases s with
  | exprStmt span e => exact hP.bind (ih.expr e env) fun _ => hP.give _
  | printStmt span e =>
    exact hP.bind (ih.expr e env) fun v => hP.bind (hP.write _) fun _ => hP.give _
  | varDecl span name init =>
    cases init with
    | none => exact hP.bind (hP.define _ _ (hs name (.head _))) fun _ => hP.give _
    | some e =>
      have hrest : P (Eval.expr st fuel e env >>= fun v =>
          Run.change (·.define env name v) >>= fun _ => Run.give Signal.normal) :=
        hP.bind (ih.expr e env) fun v =>
          hP.bind (hP.define _ _ (hs name (.head _))) fun _ => hP.give _
      dsimp only
      split
      · exact hP.bind (hP.declare _ (hs name (.head _))) fun _ => hrest
      · exact hrest
  | block span body => exact hP.newFrame _ _ fun inner hinner => ih.stmts body hinner
  | ifStmt span c a b =>
    refine hP.bind (ih.expr c env) fun v => ?_
    cases b with
    | none =>
      split
      · exact ih.stmt hs
      · exact hP.give _
    | some b =>
      split
      · exact ih.stmt fun n hn => hs n (List.mem_append_left _ hn)
      · exact ih.stmt fun n hn => hs n (List.mem_append_right _ hn)
  | whileStmt span c body => exact ih.whileLoop span c hs
  | forStmt span init c i body =>
    cases init with
    | none => exact ih.forLoop span c i body env
    | some init =>
      exact hP.newFrame _ _ fun outer houter => hP.bind (ih.stmt fun n _ => houter n) fun _ =>
        ih.forLoop span c i body outer
  | breakStmt span => exact hP.give _
  | returnStmt span e =>
    cases e with
    | none => exact hP.give _
    | some e => exact hP.bind (ih.expr e env) fun v => hP.give _
  | funDecl d =>
    obtain ⟨span, name, params, body⟩ := d
    exact hP.bind (hP.newFunction _ _ _ _ _) fun f =>
      hP.bind (hP.define _ _ (hs name (.head _))) fun _ => hP.give _
  | classDecl span name sup methods statics =>
    cases sup with
    | none =>
      exact hP.bind (hP.define _ _ (hs name (.head _))) fun _ =>
        hP.bind (hP.newClass (hs name (.head _)) _ _ _ _) fun _ =>
        hP.give _
    | some sup =>
      refine hP.bind (hP.readName _ _ _ env) fun v => ?_
      split
      · exact hP.bind (hP.define _ _ (hs name (.head _))) fun _ => hP.newFrame _ _ fun inner _ =>
          hP.bind (hP.newClass (hs name (.head _)) _ _ _ _) fun _ => hP.give _
      · exact hP.error _ _

private theorem stmts_succ {env : FrameId} (ss : List Stmt) (henv : ∀ n, may env n) :
    P (Eval.stmts st (fuel + 1) ss env) := by
  cases ss with
  | nil =>
    rw [Eval.stmts]
    exact hP.give _
  | cons s r =>
    rw [Eval.stmts]
    refine hP.bind (ih.stmt fun n _ => henv n) fun signal => ?_
    split
    · exact ih.stmts r henv
    · exact hP.give _

private theorem whileLoop_succ {body : Stmt} {env : FrameId} (span : Span) (c : Expr)
    (hbody : ∀ n ∈ body.declared, may env n) :
    P (Eval.whileLoop st (fuel + 1) span c body env) := by
  rw [Eval.whileLoop]
  refine hP.bind (hP.checkCanceled span) fun _ => hP.bind (ih.expr c env) fun v => ?_
  split
  · exact hP.give _
  · refine hP.bind (ih.stmt hbody) fun signal => ?_
    split
    · exact ih.whileLoop span c hbody
    · exact hP.give _
    · exact hP.give _

private theorem forLoop_succ (span : Span) (c i : Option Expr) (body : Stmt) (env : FrameId) :
    P (Eval.forLoop st (fuel + 1) span c i body env) := by
  rw [Eval.forLoop]
  refine hP.bind (hP.checkCanceled span) fun _ => hP.bind (ih.clauseHolds c env) fun goOn => ?_
  split
  · exact hP.give _
  · refine hP.newFrame _ _ fun inner hinner =>
      hP.bind (ih.stmt fun n _ => hinner n) fun signal => ?_
    split
    · exact hP.bind (ih.clauseHolds i inner) fun _ => ih.forLoop span c i body env
    · exact hP.give _
    · exact hP.give _

private theorem clauseHolds_succ (c : Option Expr) (env : FrameId) :
    P (Eval.clauseHolds st (fuel + 1) c env) := by
  cases c with
  | none =>
    rw [Eval.clauseHolds]
    exact hP.give _
  | some e =>
    rw [Eval.clauseHolds]
    exact hP.bind (ih.expr e env) fun v => hP.give _

private theorem succ : HoldsAt st may P (fuel + 1) where
  expr := ih.expr_succ hP
  exprs := ih.exprs_succ hP
  apply := ih.apply_succ hP
  method := ih.method_succ hP
  function := ih.function_succ hP
  perform := ih.perform_succ hP
  stmt := ih.stmt_succ hP
  stmts := ih.stmts_succ hP
  whileLoop := ih.whileLoop_succ hP
  forLoop := ih.forLoop_succ hP
  clauseHolds := ih.clauseHolds_succ hP

end HoldsAt

theorem holdsAt (fuel : Nat) : HoldsAt st may P fuel := by
  induction fuel with
  | zero => exact holdsAt_zero hP
  | succ fuel ih => exact ih.succ hP

end

end Eval
end Lox
