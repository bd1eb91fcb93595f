import Lox.Run.Machine

/-!
The meaning of programs. Every step takes one from a bound on steps, so evaluation is total; a run
that ends with a value or a failure ends the same way under any larger bound.
-/

set_option autoImplicit false
set_option relaxedAutoImplicit false

namespace Lox

open Text (lit)

/-- What a statement leaves to do: nothing, to leave the loop, or to leave the function. -/
inductive Signal
  | normal
  | leaveLoop
  | leaveFunction (v : Value)

namespace Eval

open Run

def unary (span : Span) (op : UnaryOp) (v : Value) : Run Value :=
  match op with
  | .negate =>
    match v with
    | .number x => give (.number (-x))
    | _ => error .operandNotNumber span
  | .not => give (.bool (!v.truthy))
  | .other spelling => broken (.unknownUnary spelling) span

/-- A sum of numbers, or a joined string if one operand is a string and the other a string or a
number. -/
def add (span : Span) : Value → Value → Run Value
  | .number a, .number b => give (.number (a + b))
  | .number a, .string b => give (.string (Decimal.print a ++ b))
  | .string a, .string b => give (.string (a ++ b))
  | .string a, .number b => give (.string (a ++ Decimal.print b))
  | _, _ => error .operandsNotAddable span

def arithmetic (span : Span) (op : BinaryOp) (a b : Float) : Run Value :=
  match op with
  | .sub => give (.number (a - b))
  | .mul => give (.number (a * b))
  | .div => if b == 0 then error .divisionByZero span else give (.number (a / b))
  | .greater => give (.bool (a > b))
  | .greaterEqual => give (.bool (a ≥ b))
  | .less => give (.bool (a < b))
  | .lessEqual => give (.bool (a ≤ b))
  | .add | .equal | .notEqual => broken (.unknownBinary op.spelling) span
  | .other spelling => broken (.unknownBinary spelling) span

def binary (span : Span) (op : BinaryOp) (a b : Value) : Run Value :=
  match op with
  | .equal => give (.bool (a.equal b))
  | .notEqual => give (.bool (!a.equal b))
  | .add => add span a b
  | _ =>
    match a, b with
    | .number x, .number y => arithmetic span op x y
    | _, _ => error .operandsNotNumbers span

def decides (op : LogicalOp) (v : Value) : Bool :=
  match op with
  | .or => v.truthy
  | _ => !v.truthy

/-- The value of a name: in the frame that its hops lead to, or among the globals. -/
def readName (name : Text) (span : Span) (hops : Option Int) (env : FrameId) : Run Value := do
  match hops with
  | some d =>
    match ← look (·.getAt? env d name) with
    | some v => give v
    | none => broken (.missingBinding name d) span
  | none =>
    match ← look fun h => (h.bindings Heap.globals).lookup name with
    | some v => give v
    | none => error (.undefinedVariable name) span

def assignName (target : NameUse) (v : Value) (env : FrameId) : Run Unit := do
  match target.hops with
  | some d =>
    match ← look (·.holderAt? env d target.name) with
    | some a => change (·.define a target.name v)
    | none => broken (.missingBinding target.name d) target.span
  | none =>
    match ← look (·.holderAt? Heap.globals 0 target.name) with
    | some a => change (·.define a target.name v)
    | none => error (.undefinedVariable target.name) target.span

/-- The value of a property: a field of an object, or a method bound to it, or a static method bound
to its class. -/
def property (v : Value) (name : Text) (span : Span) : Run Value := do
  match v with
  | .object i c =>
    match ← look (·.field? i name) with
    | some w => give w
    | none =>
      match c.findMethod name with
      | some f => bound f v
      | none => error (.undefinedProperty name) span
  | .cls c =>
    match c.findStatic name with
    | some f => bound f v
    | none => error (.undefinedProperty name) span
  | _ => error .noProperties span

/-- A method of the superclass, bound to the receiver of the method around. -/
def superMethod (span : Span) (name : Text) (hops : Option Int) (env : FrameId) : Run Value := do
  match hops with
  | none => broken .unresolvedSuper span
  | some d =>
    match ← look (·.getAt? env d (lit "super")) with
    | some (.cls sup) =>
      match ← look (·.getAt? env (d - 1) (lit "this")) with
      | some receiver =>
        match if receiver.isClass then sup.findStatic name else sup.findMethod name with
        | some f => bound f receiver
        | none => error (.undefinedProperty name) span
      | none => broken .thisMissing span
    | _ => broken .superNotClass span

def newFunction (name : Text) (params : List Param) (body : List Stmt) (closure : FrameId)
    (isInit : Bool) : Run Function := do
  return { id := ← freshId, name, params, body, closure, isInit }

/-- The functions of methods by name; of two with one name the later counts. -/
def methodTable (closure : FrameId) (ofInstances : Bool) :
    List (Text × Function) → List FunDecl → Run (List (Text × Function))
  | table, [] => give table
  | table, .mk _ name params body :: r => do
    let f ← newFunction name params body closure (ofInstances && name == lit "init")
    methodTable closure ofInstances ((name, f) :: table) r

/-- Makes a class whose methods are declared in a frame, and binds it in another. -/
def newClass (name : Text) (superclass : Option Class) (methods statics : List FunDecl)
    (closure env : FrameId) : Run Unit := do
  let methods ← methodTable closure true [] methods
  let statics ← methodTable closure false [] statics
  let id ← freshId
  change (·.define env name (.cls (.mk id name superclass methods statics)))

/-- How many arguments a value takes when it is called, if it can be called. -/
def arity? (st : Settings) : Value → Option Nat
  | .function f => some f.arity
  | .method _ f _ => some f.arity
  | .native i => (st.natives[i]?).map Native.arity
  | .cls c => some c.arity
  | _ => none

/-- The first statement of a body, where a signal that got out of it is reported. -/
def firstSpan (body : List Stmt) : Option Span := body.head?.map Stmt.span

def result (f : Function) (closure : FrameId) (signal : Signal) : Run Value := do
  match signal with
  | .leaveLoop => fail (.internal (.escapedBreak f.print) (firstSpan f.body))
  | signal =>
    if f.isInit then
      match ← look fun h => (h.bindings closure).lookup (lit "this") with
      | some receiver => give receiver
      | none => fail (.internal .noReceiver none)
    else
      match signal with
      | .leaveFunction v => give v
      | _ => give .nil

def parameterBindings (params : List Param) (args : List Value) : Bindings :=
  (params.zip args).foldl (fun bs (p, v) => Bindings.bind bs p.name v) []

@[inline]
def counted (st : Settings) (callee : Value) (span : Span) (body : Run Value) : Run Value := do
  checkCanceled span
  fun m =>
    if st.limit ≤ m.depth then .failed (.runtime .stackOverflow (some span)) m
    else
      let name := if st.traced then callee.print else []
      let leave (m : Machine) : Machine := ((emit st .callEnd span name) m).machine.leave
      match body ((emit st .callStart span name) m.enter).machine with
      | .done v m => .done v (leave m)
      | .failed f m => .failed (f.attach span) (leave m)
      | .exhausted m => .exhausted m

mutual

def expr (st : Settings) : Nat → Expr → FrameId → Run Value
  | 0, _, _ => exhaust
  | fuel + 1, e, env =>
    match e with
    | .literal _ v => give (.ofLiteral v)
    | .grouping _ e => expr st fuel e env
    | .unary span op e => do
      let v ← expr st fuel e env
      unary span op v
    | .binary span op a b => do
      let v ← expr st fuel a env
      let w ← expr st fuel b env
      binary span op v w
    | .logical _ op a b => do
      let v ← expr st fuel a env
      if decides op v then give v else expr st fuel b env
    | .conditional _ c a b => do
      let v ← expr st fuel c env
      if v.truthy then expr st fuel a env else expr st fuel b env
    | .name use => readName use.name use.span use.hops env
    | .assign target e => do
      let v ← expr st fuel e env
      assignName target v env
      give v
    | .call span f args => do
      let callee ← expr st fuel f env
      let args ← exprs st fuel args env
      match arity? st callee with
      | none => error .notCallable span
      | some expected =>
        if args.length ≠ expected then error (.wrongArity expected args.length) span
        else counted st callee span (apply st fuel callee args)
    | .get span o name => do
      let v ← expr st fuel o env
      property v name span
    | .set span o name e => do
      match ← expr st fuel o env with
      | .object i _ => do
        let v ← expr st fuel e env
        change (·.setField i name v)
        give v
      | _ => error .noFields span
    | .this span hops => readName (lit "this") span hops env
    | .super span name hops => superMethod span name hops env
    | .lambda _ params body => do
      return .function (← newFunction [] params body env false)

def exprs (st : Settings) : Nat → List Expr → FrameId → Run (List Value)
  | 0, _, _ => exhaust
  | _ + 1, [], _ => give []
  | fuel + 1, e :: r, env => do
    let v ← expr st fuel e env
    let vs ← exprs st fuel r env
    give (v :: vs)

/-- Calls a value that takes so many arguments, without counting the call. -/
def apply (st : Settings) : Nat → Value → List Value → Run Value
  | 0, _, _ => exhaust
  | fuel + 1, callee, args =>
    match callee with
    | .function f => function st fuel f f.closure args
    | .method _ f receiver => method st fuel f receiver args
    | .native i =>
      match st.natives[i]? with
      | some n => perform st fuel (n.act args)
      | none => fail (.internal (.reported (lit "unknown native")) none)
    | .cls c => do
      let object ← newObject c
      match c.initializer with
      | some f => do
        let _ ← method st fuel f object args
        give object
      | none => give object
    | _ => fail (.internal (.reported (lit "not callable")) none)

def method (st : Settings) : Nat → Function → Value → List Value → Run Value
  | 0, _, _, _ => exhaust
  | fuel + 1, f, receiver, args => do
    let closure ← newFrame f.closure [(lit "this", receiver)]
    function st fuel f closure args

/-- Runs the body of a function in a new frame that holds its arguments, one for each parameter. -/
def function (st : Settings) : Nat → Function → FrameId → List Value → Run Value
  | 0, _, _, _ => exhaust
  | fuel + 1, f, closure, args =>
    if args.length < f.arity then fail (.internal (.missingArgument args.length) none)
    else do
      let env ← newFrame closure (parameterBindings f.params args)
      let signal ← stmts st fuel f.body env
      result f closure signal

def perform (st : Settings) : Nat → Action → Run Value
  | 0, _ => exhaust
  | fuel + 1, action =>
    match action with
    | .give v => give v
    | .fail f => fail f
    | .write line next => do
      let fault ← write st line
      perform st fuel (next fault)
    | .clock next => perform st fuel (next st.time)
    | .cancel next => fun m => perform st fuel next { m with canceled := true }
    | .invoke callee args next =>
      if arity? st callee = some args.length then fun m =>
        match apply st fuel callee args m with
        | .done v m => perform st fuel (next (some (.ok v))) m
        | .failed f m => perform st fuel (next (some (.error f))) m
        | .exhausted m => .exhausted m
      else perform st fuel (next none)

def stmt (st : Settings) : Nat → Stmt → FrameId → Run Signal
  | 0, _, _ => exhaust
  | fuel + 1, s, env =>
    match s with
    | .exprStmt _ e => do
      let _ ← expr st fuel e env
      give .normal
    | .printStmt _ e => do
      let v ← expr st fuel e env
      let _ ← write st v.print
      give .normal
    | .varDecl _ name none => do
      change (·.define env name .nil)
      give .normal
    | .varDecl _ name (some e) => do
      if env ≠ Heap.globals then change (·.declare env name)
      let v ← expr st fuel e env
      change (·.define env name v)
      give .normal
    | .block _ body => do
      let inner ← newFrame env []
      stmts st fuel body inner
    | .ifStmt _ c a b => do
      let v ← expr st fuel c env
      if v.truthy then stmt st fuel a env
      else match b with
        | some b => stmt st fuel b env
        | none => give .normal
    | .whileStmt span c body => whileLoop st fuel span c body env
    | .forStmt span none c i body => forLoop st fuel span c i body env
    | .forStmt span (some init) c i body => do
      let outer ← newFrame env []
      let _ ← stmt st fuel init outer
      forLoop st fuel span c i body outer
    | .breakStmt _ => give .leaveLoop
    | .returnStmt _ none => give (.leaveFunction .nil)
    | .returnStmt _ (some e) => do
      let v ← expr st fuel e env
      give (.leaveFunction v)
    | .funDecl (.mk _ name params body) => do
      let f ← newFunction name params body env false
      change (·.define env name (.function f))
      give .normal
    | .classDecl _ name none methods statics => do
      change (·.define env name .nil)
      newClass name none methods statics env env
      give .normal
    | .classDecl _ name (some sup) methods statics => do
      match ← readName sup.name sup.span sup.hops env with
      | .cls c => do
        change (·.define env name .nil)
        let inner ← newFrame env [(lit "super", .cls c)]
        newClass name (some c) methods statics inner env
        give .normal
      | _ => error .badSuperclass sup.span

/-- Carries out statements in order until one leaves the loop or the function around. -/
def stmts (st : Settings) : Nat → List Stmt → FrameId → Run Signal
  | 0, _, _ => exhaust
  | _ + 1, [], _ => give .normal
  | fuel + 1, s :: r, env => do
    match ← stmt st fuel s env with
    | .normal => stmts st fuel r env
    | signal => give signal

def whileLoop (st : Settings) : Nat → Span → Expr → Stmt → FrameId → Run Signal
  | 0, _, _, _, _ => exhaust
  | fuel + 1, span, c, body, env => do
    checkCanceled span
    let v ← expr st fuel c env
    if !v.truthy then give .normal
    else match ← stmt st fuel body env with
      | .normal => whileLoop st fuel span c body env
      | .leaveLoop => give .normal
      | signal => give signal

/-- Repeats a body and a last clause, in a new frame each time, while a condition holds. -/
def forLoop (st : Settings) :
    Nat → Span → Option Expr → Option Expr → Stmt → FrameId → Run Signal
  | 0, _, _, _, _, _ => exhaust
  | fuel + 1, span, c, i, body, env => do
    checkCanceled span
    let goOn ← clauseHolds st fuel c env
    if !goOn then give .normal
    else
      let inner ← newFrame env []
      match ← stmt st fuel body inner with
      | .normal => do
        let _ ← clauseHolds st fuel i inner
        forLoop st fuel span c i body env
      | .leaveLoop => give .normal
      | signal => give signal

def clauseHolds (st : Settings) : Nat → Option Expr → FrameId → Run Bool
  | 0, _, _ => exhaust
  | _ + 1, none, _ => give true
  | fuel + 1, some e, env => do
    let v ← expr st fuel e env
    give v.truthy

end

end Eval
end Lox
