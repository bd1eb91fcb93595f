import Lox.Proofs.Notes.Noted

set_option autoImplicit false
set_option relaxedAutoImplicit false

namespace Lox

open Text (lit)

namespace Scribe

variable {A N : Type} (S : Scribe A N)

/-! ### Evaluation with notes -/

mutual

def expr (st : Settings) : Nat → A → Expr → FrameId → Noted N Value
  | 0, _, _, _ => S.step Run.exhaust
  | fuel + 1, a, e, env =>
    match e with
    | .literal _ v => S.step (Run.give (.ofLiteral v))
    | .grouping _ e => expr st fuel a e env
    | .unary span op e => do
      let v ← expr st fuel a e env
      S.step (Eval.unary span op v)
    | .binary span op e e' => do
      let v ← expr st fuel a e env
      let w ← expr st fuel a e' env
      S.step (Eval.binary span op v w)
    | .logical _ op e e' => do
      let v ← expr st fuel a e env
      if Eval.decides op v then S.step (Run.give v) else expr st fuel a e' env
    | .conditional _ c e e' => do
      let v ← expr st fuel a c env
      if v.truthy then expr st fuel a e env else expr st fuel a e' env
    | .name use => S.step (Eval.readName use.name use.span use.hops env)
    | .assign target e => do
      let v ← expr st fuel a e env
      S.step (Eval.assignName target v env)
      S.step (Run.give v)
    | .call span f args => do
      let callee ← expr st fuel a f env
      let args ← exprs st fuel a args env
      match Eval.arity? st callee with
      | none => S.step (Run.error .notCallable span)
      | some expected =>
        if args.length ≠ expected then S.step (Run.error (.wrongArity expected args.length) span)
        else S.counted st callee span (apply st fuel callee args)
    | .get span o name => do
      let v ← expr st fuel a o env
      S.step (Eval.property v name span)
    | .set span o name e => do
      match ← expr st fuel a o env with
      | .object i _ => do
        let v ← expr st fuel a e env
        S.step (Run.change (·.setField i name v))
        S.step (Run.give v)
      | _ => S.step (Run.error .noFields span)
    | .this span hops => S.see (S.step (Eval.readName (lit "this") span hops env)) (.this a)
    | .super span name hops =>
      S.see (S.step (Eval.superMethod span name hops env)) (.super a name span)
    | .lambda _ params body => do
      let f ← S.newFunction a [] params body env
      S.step (Run.give (.function f))

def exprs (st : Settings) : Nat → A → List Expr → FrameId → Noted N (List Value)
  | 0, _, _, _ => S.step Run.exhaust
  | _ + 1, _, [], _ => S.step (Run.give [])
  | fuel + 1, a, e :: r, env => do
    let v ← expr st fuel a e env
    let vs ← exprs st fuel a r env
    S.step (Run.give (v :: vs))

def apply (st : Settings) : Nat → Value → List Value → Noted N Value
  | 0, _, _ => S.step Run.exhaust
  | fuel + 1, callee, args =>
    match callee with
    | .function f => do
      let a ← Noted.consult (S.home · f)
      function st fuel a f f.closure args
    | .method _ f receiver => method st fuel f receiver args
    | .native i =>
      match st.natives[i]? with
      | some n => perform st fuel [] (n.act args)
      | none => S.step (Run.fail (.internal (.reported (lit "unknown native")) none))
    | .cls c => do
      let object ← S.step (Run.newObject c)
      match c.initializer with
      | some f =>
        let making : Noted N Value := do
          let _ ← method st fuel f object args
          S.step (Run.give object)
        S.see making fun _ => .construction object
      | none => S.step (Run.give object)
    | _ => S.step (Run.fail (.internal (.reported (lit "not callable")) none))

def method (st : Settings) : Nat → Function → Value → List Value → Noted N Value
  | 0, _, _, _ => S.step Run.exhaust
  | fuel + 1, f, receiver, args => do
    let a ← Noted.consult (S.activation · f receiver)
    let call : Noted N Value := do
      let closure ← S.step (Run.newFrame f.closure [(lit "this", receiver)])
      function st fuel a f closure args
    S.see call fun _ => .call f receiver a

def function (st : Settings) : Nat → A → Function → FrameId → List Value → Noted N Value
  | 0, _, _, _, _ => S.step Run.exhaust
  | fuel + 1, a, f, closure, args =>
    if args.length < f.arity then S.step (Run.fail (.internal (.missingArgument args.length) none))
    else do
      let env ← S.step (Run.newFrame closure (Eval.parameterBindings f.params args))
      let signal ← stmts st fuel a f.body env
      S.step (Eval.result f closure signal)

/-- Takes the steps of a native function, which has been told the failures of its calls. -/
def perform (st : Settings) : Nat → List Failure → Action → Noted N Value
  | 0, _, _ => S.step Run.exhaust
  | fuel + 1, told, action =>
    match action with
    | .give v => S.step (Run.give v)
    | .fail f => S.raise told f
    | .write line next => do
      let fault ← S.write st line
      perform st fuel told (next fault)
    | .clock next => perform st fuel told (next st.time)
    | .cancel next => fun past m => perform st fuel told next past { m with canceled := true }
    | .invoke callee args next =>
      if Eval.arity? st callee = some args.length then
        (apply st fuel callee args).settle fun
          | .ok v => perform st fuel told (next (some (.ok v)))
          | .error f => perform st fuel (f :: told) (next (some (.error f)))
      else perform st fuel told (next none)

def stmt (st : Settings) : Nat → A → Stmt → FrameId → Noted N Signal
  | 0, _, _, _ => S.step Run.exhaust
  | fuel + 1, a, s, env =>
    match s with
    | .exprStmt _ e => do
      let _ ← expr st fuel a e env
      S.step (Run.give .normal)
    | .printStmt _ e => do
      let v ← expr st fuel a e env
      let _ ← S.write st v.print
      S.step (Run.give .normal)
    | .varDecl _ name none => do
      S.step (Run.change (·.define env name .nil))
      S.step (Run.give .normal)
    | .varDecl _ name (some e) => do
      if env ≠ Heap.globals then S.step (Run.change (·.declare env name))
      let v ← expr st fuel a e env
      S.step (Run.change (·.define env name v))
      S.step (Run.give .normal)
    | .block _ body => do
      let inner ← S.step (Run.newFrame env [])
      stmts st fuel a body inner
    | .ifStmt _ c yes no => do
      let v ← expr st fuel a c env
      if v.truthy then stmt st fuel a yes env
      else match no with
        | some no => stmt st fuel a no env
        | none => S.step (Run.give .normal)
    | .whileStmt span c body => whileLoop st fuel a span c body env
    | .forStmt span none c i body => forLoop st fuel a span c i body env
    | .forStmt span (some init) c i body => do
      let outer ← S.step (Run.newFrame env [])
      let _ ← stmt st fuel a init outer
      forLoop st fuel a span c i body outer
    | .breakStmt _ => S.step (Run.give .leaveLoop)
    | .returnStmt _ none => S.step (Run.give (.leaveFunction .nil))
    | .returnStmt _ (some e) => do
      let v ← expr st fuel a e env
      S.step (Run.give (.leaveFunction v))
    | .funDecl (.mk _ name params body) => do
      let f ← S.newFunction a name params body env
      S.step (Run.change (·.define env name (.function f)))
      S.step (Run.give .normal)
    | .classDecl _ name none methods statics => do
      S.step (Run.change (·.define env name .nil))
      S.newClass name none methods statics env env
      S.step (Run.give .normal)
    | .classDecl _ name (some sup) methods statics => do
      match ← S.step (Eval.readName sup.name sup.span sup.hops env) with
      | .cls c => do
        S.step (Run.change (·.define env name .nil))
        let inner ← S.step (Run.newFrame env [(lit "super", .cls c)])
        S.newClass name (some c) methods statics inner env
        S.step (Run.give .normal)
      | _ => S.step (Run.error .badSuperclass sup.span)

/-- Carries out statements in order until one leaves the loop or the function around. -/
def stmts (st : Settings) : Nat → A → List Stmt → FrameId → Noted N Signal
  | 0, _, _, _ => S.step Run.exhaust
  | _ + 1, _, [], _ => S.step (Run.give .normal)
  | fuel + 1, a, s :: r, env => do
    match ← stmt st fuel a s env with
    | .normal => stmts st fuel a r env
    | signal => S.step (Run.give signal)

def whileLoop (st : Settings) : Nat → A → Span → Expr → Stmt → FrameId → Noted N Signal
  | 0, _, _, _, _, _ => S.step Run.exhaust
  | fuel + 1, a, span, c, body, env => do
    let condition : Noted N Bool := do
      let v ← expr st fuel a c env
      S.step (Run.give v.truthy)
    match ← S.round span condition (stmt st fuel a body env) with
    | none => S.step (Run.give .normal)
    | some .normal => whileLoop st fuel a span c body env
    | some .leaveLoop => S.step (Run.give .normal)
    | some signal => S.step (Run.give signal)

/-- Repeats a body and a last clause, in a new frame each time, while a condition holds. -/
def forLoop (st : Settings) :
    Nat → A → Span → Option Expr → Option Expr → Stmt → FrameId → Noted N Signal
  | 0, _, _, _, _, _, _ => S.step Run.exhaust
  | fuel + 1, a, span, c, i, body, env => do
    let inFrame : Noted N (Signal × FrameId) := do
      let inner ← S.step (Run.newFrame env [])
      let signal ← stmt st fuel a body inner
      S.step (Run.give (signal, inner))
    match ← S.round span (clauseHolds st fuel a c env) inFrame with
    | none => S.step (Run.give .normal)
    | some (.normal, inner) => do
      let _ ← clauseHolds st fuel a i inner
      forLoop st fuel a span c i body env
    | some (.leaveLoop, _) => S.step (Run.give .normal)
    | some (signal, _) => S.step (Run.give signal)

def clauseHolds (st : Settings) : Nat → A → Option Expr → FrameId → Noted N Bool
  | 0, _, _, _ => S.step Run.exhaust
  | _ + 1, _, none, _ => S.step (Run.give true)
  | fuel + 1, a, some e, env => do
    let v ← expr st fuel a e env
    S.step (Run.give v.truthy)

end

def script (st : Settings) (fuel : Nat) : List Stmt → Noted N Unit
  | [] => S.step (Run.give ())
  | s :: r => do
    match ← stmt S st fuel S.outside s Heap.globals with
    | .normal => script st fuel r
    | _ => S.step (Run.broken .escapedSignal s.span)

def program (st : Settings) (fuel : Nat) (p : Program) : Noted N Unit := fun past m =>
  let told := S.script st fuel p.body past (Eval.opening st p m)
  (Eval.closing st p told.1, told.2)

end Scribe

/-! ### Loops, round by round -/

namespace Eval

variable {st : Settings}

theorem whileLoop_by_rounds (fuel : Nat) (span : Span) (c : Expr) (body : Stmt) (env : FrameId) :
    whileLoop st (fuel + 1) span c body env =
      Run.round span (do let v ← expr st fuel c env; Run.give v.truthy)
        (stmt st fuel body env) >>= fun
        | none => Run.give .normal
        | some .normal => whileLoop st fuel span c body env
        | some .leaveLoop => Run.give .normal
        | some signal => Run.give signal := by
  rw [whileLoop, Run.round, Run.bind_assoc]
  refine congrArg _ (funext fun _ => ?_)
  rw [Run.bind_assoc, Run.bind_assoc]
  refine congrArg _ (funext fun v => ?_)
  rw [Run.give_bind]
  cases v.truthy with
  | false => rfl
  | true =>
    show stmt st fuel body env >>= _ = (stmt st fuel body env >>= _) >>= _
    rw [Run.bind_assoc]
    refine congrArg _ (funext fun signal => ?_)
    cases signal <;> rfl

theorem forLoop_by_rounds (fuel : Nat) (span : Span) (c i : Option Expr)
    (body : Stmt) (env : FrameId) :
    forLoop st (fuel + 1) span c i body env =
      Run.round span (clauseHolds st fuel c env)
        (do
          let inner ← Run.newFrame env []
          let signal ← stmt st fuel body inner
          Run.give (signal, inner)) >>= fun
        | none => Run.give .normal
        | some (.normal, inner) => do
          let _ ← clauseHolds st fuel i inner
          forLoop st fuel span c i body env
        | some (.leaveLoop, _) => Run.give .normal
        | some (signal, _) => Run.give signal := by
  rw [forLoop, Run.round, Run.bind_assoc]
  refine congrArg _ (funext fun _ => ?_)
  rw [Run.bind_assoc]
  refine congrArg _ (funext fun goOn => ?_)
  cases goOn with
  | false => rfl
  | true =>
    show Run.newFrame env [] >>= _ = ((Run.newFrame env [] >>= _) >>= _) >>= _
    rw [Run.bind_assoc, Run.bind_assoc]
    refine congrArg _ (funext fun inner => ?_)
    rw [Run.bind_assoc]
    refine congrArg _ (funext fun signal => ?_)
    cases signal <;> rfl

end Eval

/-! ### Erasure -/

namespace Scribe

open Noted

variable {A N : Type} (S : Scribe A N)

structure ErasesAt (S : Scribe A N) (st : Settings) (fuel : Nat) : Prop where
  expr (a : A) (e : Expr) (env : FrameId) :
    (S.expr st fuel a e env).Erases (Eval.expr st fuel e env)
  exprs (a : A) (es : List Expr) (env : FrameId) :
    (S.exprs st fuel a es env).Erases (Eval.exprs st fuel es env)
  apply (callee : Value) (args : List Value) :
    (S.apply st fuel callee args).Erases (Eval.apply st fuel callee args)
  method (f : Function) (receiver : Value) (args : List Value) :
    (S.method st fuel f receiver args).Erases (Eval.method st fuel f receiver args)
  function (a : A) (f : Function) (closure : FrameId) (args : List Value) :
    (S.function st fuel a f closure args).Erases (Eval.function st fuel f closure args)
  perform (told : List Failure) (action : Action) :
    (S.perform st fuel told action).Erases (Eval.perform st fuel action)
  stmt (a : A) (s : Stmt) (env : FrameId) :
    (S.stmt st fuel a s env).Erases (Eval.stmt st fuel s env)
  stmts (a : A) (ss : List Stmt) (env : FrameId) :
    (S.stmts st fuel a ss env).Erases (Eval.stmts st fuel ss env)
  whileLoop (a : A) (span : Span) (c : Expr) (body : Stmt) (env : FrameId) :
    (S.whileLoop st fuel a span c body env).Erases (Eval.whileLoop st fuel span c body env)
  forLoop (a : A) (span : Span) (c i : Option Expr) (body : Stmt) (env : FrameId) :
    (S.forLoop st fuel a span c i body env).Erases (Eval.forLoop st fuel span c i body env)
  clauseHolds (a : A) (c : Option Expr) (env : FrameId) :
    (S.clauseHolds st fuel a c env).Erases (Eval.clauseHolds st fuel c env)

private theorem erasesAt_zero (st : Settings) : S.ErasesAt st 0 where
  expr _ _ _ := by rw [Scribe.expr, Eval.expr]; exact .step _
  exprs _ _ _ := by rw [Scribe.exprs, Eval.exprs]; exact .step _
  apply _ _ := by rw [Scribe.apply, Eval.apply]; exact .step _
  method _ _ _ := by rw [Scribe.method, Eval.method]; exact .step _
  function _ _ _ _ := by rw [Scribe.function, Eval.function]; exact .step _
  perform _ _ := by rw [Scribe.perform, Eval.perform]; exact .step _
  stmt _ _ _ := by rw [Scribe.stmt, Eval.stmt]; exact .step _
  stmts _ _ _ := by rw [Scribe.stmts, Eval.stmts]; exact .step _
  whileLoop _ _ _ _ _ := by rw [Scribe.whileLoop, Eval.whileLoop]; exact .step _
  forLoop _ _ _ _ _ _ := by rw [Scribe.forLoop, Eval.forLoop]; exact .step _
  clauseHolds _ _ _ := by rw [Scribe.clauseHolds, Eval.clauseHolds]; exact .step _

namespace ErasesAt

variable {st : Settings} {fuel : Nat} (ih : S.ErasesAt st fuel) (a : A)
include ih

private theorem expr_succ (e : Expr) (env : FrameId) :
    (S.expr st (fuel + 1) a e env).Erases (Eval.expr st (fuel + 1) e env) := by
  cases e with
  | literal span v =>
    simp only [Scribe.expr, Eval.expr]
    exact .step _
  | grouping span e =>
    simp only [Scribe.expr, Eval.expr]
    exact ih.expr a e env
  | unary span op e =>
    simp only [Scribe.expr, Eval.expr]
    exact .bind (ih.expr a e env) fun v => .step _
  | binary span op e e' =>
    simp only [Scribe.expr, Eval.expr]
    exact .bind (ih.expr a e env) fun v => .bind (ih.expr a e' env) fun w => .step _
  | logical span op e e' =>
    simp only [Scribe.expr, Eval.expr]
    refine .bind (ih.expr a e env) fun v => ?_
    split
    · exact .step _
    · exact ih.expr a e' env
  | conditional span c e e' =>
    simp only [Scribe.expr, Eval.expr]
    refine .bind (ih.expr a c env) fun v => ?_
    split
    · exact ih.expr a e env
    · exact ih.expr a e' env
  | name use =>
    simp only [Scribe.expr, Eval.expr]
    exact .step _
  | assign target e =>
    simp only [Scribe.expr, Eval.expr]
    exact .bind (ih.expr a e env) fun v => .bind (.step _) fun _ => .step _
  | call span f args =>
    simp only [Scribe.expr, Eval.expr]
    refine .bind (ih.expr a f env) fun callee => .bind (ih.exprs a args env) fun vs => ?_
    cases Eval.arity? st callee with
    | none => exact .step _
    | some expected =>
      dsimp only
      split
      · exact .step _
      · exact .counted (ih.apply callee vs) st callee span
  | get span o name =>
    simp only [Scribe.expr, Eval.expr]
    exact .bind (ih.expr a o env) fun v => .step _
  | set span o name e =>
    simp only [Scribe.expr, Eval.expr]
    refine .bind (ih.expr a o env) fun v => ?_
    cases v with
    | object i c => exact .bind (ih.expr a e env) fun w => .bind (.step _) fun _ => .step _
    | _ => exact .step _
  | this span hops =>
    simp only [Scribe.expr, Eval.expr]
    exact .see (.step _) _
  | super span name hops =>
    simp only [Scribe.expr, Eval.expr]
    exact .see (.step _) _
  | lambda span params body =>
    simp only [Scribe.expr, Eval.expr]
    exact .bind (.newFunction a [] params body env) fun f => .step _

private theorem exprs_succ (es : List Expr) (env : FrameId) :
    (S.exprs st (fuel + 1) a es env).Erases (Eval.exprs st (fuel + 1) es env) := by
  cases es with
  | nil =>
    simp only [Scribe.exprs, Eval.exprs]
    exact .step _
  | cons e r =>
    simp only [Scribe.exprs, Eval.exprs]
    exact .bind (ih.expr a e env) fun v => .bind (ih.exprs a r env) fun vs => .step _

private theorem apply_succ (callee : Value) (args : List Value) :
    (S.apply st (fuel + 1) callee args).Erases (Eval.apply st (fuel + 1) callee args) := by
  cases callee with
  | function f =>
    simp only [Scribe.apply, Eval.apply]
    exact .consult fun a => ih.function a f f.closure args
  | method i f receiver =>
    simp only [Scribe.apply, Eval.apply]
    exact ih.method f receiver args
  | native i =>
    simp only [Scribe.apply, Eval.apply]
    cases st.natives[i]? with
    | some n => exact ih.perform [] _
    | none => exact .step _
  | cls c =>
    simp only [Scribe.apply, Eval.apply]
    refine .bind (.step _) fun object => ?_
    cases c.initializer with
    | some f => exact .see (.bind (ih.method f object args) fun _ => .step _) _
    | none => exact .step _
  | _ =>
    simp only [Scribe.apply, Eval.apply]
    exact .step _

private theorem method_succ (f : Function) (receiver : Value) (args : List Value) :
    (S.method st (fuel + 1) f receiver args).Erases
      (Eval.method st (fuel + 1) f receiver args) := by
  simp only [Scribe.method, Eval.method]
  exact .consult fun a => .see (.bind (.step _) fun closure => ih.function a f closure args) _

private theorem function_succ (f : Function) (closure : FrameId) (args : List Value) :
    (S.function st (fuel + 1) a f closure args).Erases
      (Eval.function st (fuel + 1) f closure args) := by
  simp only [Scribe.function, Eval.function]
  split
  · exact .step _
  · exact .bind (.step _) fun env => .bind (ih.stmts a f.body env) fun signal => .step _

private theorem perform_succ (told : List Failure) (action : Action) :
    (S.perform st (fuel + 1) told action).Erases (Eval.perform st (fuel + 1) action) := by
  cases action with
  | give v =>
    simp only [Scribe.perform, Eval.perform]
    exact .step _
  | fail f =>
    simp only [Scribe.perform, Eval.perform]
    exact .raise told f
  | write line next =>
    simp only [Scribe.perform, Eval.perform]
    exact .bind (.write st line) fun fault => ih.perform told (next fault)
  | clock next =>
    simp only [Scribe.perform, Eval.perform]
    exact ih.perform told (next st.time)
  | cancel next =>
    simp only [Scribe.perform, Eval.perform]
    exact fun past => funext fun m => (ih.perform told next).fst past { m with canceled := true }
  | invoke callee args next =>
    by_cases harity : Eval.arity? st callee = some args.length
    · simp only [Scribe.perform, Eval.perform_invoke fuel next harity, if_pos harity]
      refine .settle (ih.apply callee args) fun r => ?_
      cases r with
      | ok v => exact ih.perform told (next (some (.ok v)))
      | error f => exact ih.perform (f :: told) (next (some (.error f)))
    · simp only [Scribe.perform, Eval.perform_refused fuel next harity, if_neg harity]
      exact ih.perform told (next none)

private theorem stmt_succ (s : Stmt) (env : FrameId) :
    (S.stmt st (fuel + 1) a s env).Erases (Eval.stmt st (fuel + 1) s env) := by
  cases s with
  | exprStmt span e =>
    simp only [Scribe.stmt, Eval.stmt]
    exact .bind (ih.expr a e env) fun _ => .step _
  | printStmt span e =>
    simp only [Scribe.stmt, Eval.stmt]
    exact .bind (ih.expr a e env) fun v => .bind (.write st _) fun _ => .step _
  | varDecl span name init =>
    cases init with
    | none =>
      simp only [Scribe.stmt, Eval.stmt]
      exact .bind (.step _) fun _ => .step _
    | some e =>
      simp only [Scribe.stmt, Eval.stmt]
      split
      · exact .bind (.step _) fun _ => .bind (ih.expr a e env) fun v =>
          .bind (.step _) fun _ => .step _
      · exact .bind (ih.expr a e env) fun v => .bind (.step _) fun _ => .step _
  | block span body =>
    simp only [Scribe.stmt, Eval.stmt]
    exact .bind (.step _) fun inner => ih.stmts a body inner
  | ifStmt span c yes no =>
    cases no with
    | none =>
      simp only [Scribe.stmt, Eval.stmt]
      refine .bind (ih.expr a c env) fun v => ?_
      split
      · exact ih.stmt a yes env
      · exact .step _
    | some no =>
      simp only [Scribe.stmt, Eval.stmt]
      refine .bind (ih.expr a c env) fun v => ?_
      split
      · exact ih.stmt a yes env
      · exact ih.stmt a no env
  | whileStmt span c body =>
    simp only [Scribe.stmt, Eval.stmt]
    exact ih.whileLoop a span c body env
  | forStmt span init c i body =>
    cases init with
    | none =>
      simp only [Scribe.stmt, Eval.stmt]
      exact ih.forLoop a span c i body env
    | some init =>
      simp only [Scribe.stmt, Eval.stmt]
      exact .bind (.step _) fun outer => .bind (ih.stmt a init outer) fun _ =>
        ih.forLoop a span c i body outer
  | breakStmt span =>
    simp only [Scribe.stmt, Eval.stmt]
    exact .step _
  | returnStmt span e =>
    cases e with
    | none =>
      simp only [Scribe.stmt, Eval.stmt]
      exact .step _
    | some e =>
      simp only [Scribe.stmt, Eval.stmt]
      exact .bind (ih.expr a e env) fun v => .step _
  | funDecl d =>
    obtain ⟨span, name, params, body⟩ := d
    simp only [Scribe.stmt, Eval.stmt]
    exact .bind (.newFunction a name params body env) fun f => .bind (.step _) fun _ => .step _
  | classDecl span name sup methods statics =>
    cases sup with
    | none =>
      simp only [Scribe.stmt, Eval.stmt]
      exact .bind (.step _) fun _ => .bind (.newClass _ _ _ _ _ _) fun _ => .step _
    | some sup =>
      simp only [Scribe.stmt, Eval.stmt]
      refine .bind (.step _) fun v => ?_
      cases v with
      | cls c =>
        exact .bind (.step _) fun _ => .bind (.step _) fun inner =>
          .bind (.newClass _ _ _ _ _ _) fun _ => .step _
      | _ => exact .step _

private theorem stmts_succ (ss : List Stmt) (env : FrameId) :
    (S.stmts st (fuel + 1) a ss env).Erases (Eval.stmts st (fuel + 1) ss env) := by
  cases ss with
  | nil =>
    simp only [Scribe.stmts, Eval.stmts]
    exact .step _
  | cons s r =>
    simp only [Scribe.stmts, Eval.stmts]
    refine .bind (ih.stmt a s env) fun signal => ?_
    cases signal with
    | normal => exact ih.stmts a r env
    | _ => exact .step _

private theorem whileLoop_succ (span : Span) (c : Expr) (body : Stmt) (env : FrameId) :
    (S.whileLoop st (fuel + 1) a span c body env).Erases
      (Eval.whileLoop st (fuel + 1) span c body env) := by
  simp only [Scribe.whileLoop, Eval.whileLoop_by_rounds]
  refine .bind (.round span (.bind (ih.expr a c env) fun v => .step _) (ih.stmt a body env))
    fun r => ?_
  cases r with
  | none => exact .step _
  | some signal =>
    cases signal with
    | normal => exact ih.whileLoop a span c body env
    | _ => exact .step _

private theorem forLoop_succ (span : Span) (c i : Option Expr) (body : Stmt) (env : FrameId) :
    (S.forLoop st (fuel + 1) a span c i body env).Erases
      (Eval.forLoop st (fuel + 1) span c i body env) := by
  simp only [Scribe.forLoop, Eval.forLoop_by_rounds]
  refine .bind (.round span (ih.clauseHolds a c env) (.bind (.step _) fun inner =>
    .bind (ih.stmt a body inner) fun signal => .step _)) fun r => ?_
  cases r with
  | none => exact .step _
  | some r =>
    obtain ⟨signal, inner⟩ := r
    cases signal with
    | normal => exact .bind (ih.clauseHolds a i inner) fun _ => ih.forLoop a span c i body env
    | _ => exact .step _

private theorem clauseHolds_succ (c : Option Expr) (env : FrameId) :
    (S.clauseHolds st (fuel + 1) a c env).Erases (Eval.clauseHolds st (fuel + 1) c env) := by
  cases c with
  | none =>
    simp only [Scribe.clauseHolds, Eval.clauseHolds]
    exact .step _
  | some e =>
    simp only [Scribe.clauseHolds, Eval.clauseHolds]
    exact .bind (ih.expr a e env) fun v => .step _

private theorem succ : S.ErasesAt st (fuel + 1) where
  expr := ih.expr_succ
  exprs := ih.exprs_succ
  apply := ih.apply_succ
  method := ih.method_succ
  function := ih.function_succ
  perform := ih.perform_succ
  stmt := ih.stmt_succ
  stmts := ih.stmts_succ
  whileLoop := ih.whileLoop_succ
  forLoop := ih.forLoop_succ
  clauseHolds := ih.clauseHolds_succ

end ErasesAt

theorem erasesAt (st : Settings) (fuel : Nat) : S.ErasesAt st fuel := by
  induction fuel with
  | zero => exact S.erasesAt_zero st
  | succ fuel ih => exact ih.succ

theorem erases_script (st : Settings) (fuel : Nat) (ss : List Stmt) :
    (S.script st fuel ss).Erases (Eval.script st fuel ss) := by
  induction ss with
  | nil => exact .step _
  | cons s r ih =>
    simp only [script, Eval.script]
    refine .bind ((S.erasesAt st fuel).stmt S.outside s _) fun signal => ?_
    cases signal with
    | normal => exact ih
    | _ => exact .step _

theorem erases_program (st : Settings) (fuel : Nat) (p : Program) :
    (S.program st fuel p).Erases (Eval.program st fuel p) := by
  intro past
  funext m
  rw [Eval.program_eq_closing]
  exact congrArg (Eval.closing st p) ((S.erases_script st fuel p.body).fst past _)

end Scribe
end Lox
