import Lox.Proofs.Bounds.Brief
import Lox.Proofs.Run.Keeps

set_option autoImplicit false
set_option relaxedAutoImplicit false

namespace Lox

open Text (lit)

/-- A computation ends in a way under every bound on steps that is large enough. -/
def Budgeted.Comes {α : Type} (x : Budgeted α) (m : Machine) (o : Outcome α) : Prop :=
  ∃ n, ∀ N, n ≤ N → x N m = o

/-- A computation has ended, on a machine and with a value or a failure as told. -/
inductive Outcome.Lands {α : Type} (I : Machine → Prop) (F : Failure → Prop) (Q : α → Prop) :
    Outcome α → Prop
  | done {a : α} {m : Machine} : I m → Q a → Outcome.Lands I F Q (.done a m)
  | failed {f : Failure} {m : Machine} : I m → F f → Outcome.Lands I F Q (.failed f m)

theorem Budgeted.Comes.later {α : Type} {x : Budgeted α} {m : Machine} {o : Outcome α}
    (h : Comes (fun n => x (n + 1)) m o) : x.Comes m o := by
  obtain ⟨n, hn⟩ := h
  refine ⟨n + 1, fun N hN => ?_⟩
  obtain ⟨k, rfl⟩ := Nat.exists_eq_add_of_le' hN
  exact hn (k + n) (Nat.le_add_left n k)

theorem Budgeted.Comes.settle {α β : Type} {x : Budgeted α} {k : Nat → Except Failure α → Run β}
    {r : Except Failure α} {m m' : Machine} {o : Outcome β} (hx : x.Comes m (.ofResult r m'))
    (hk : Comes (fun n => k n r) m' o) : Comes (fun n => (x n).settle (k n)) m o := by
  obtain ⟨n, hn⟩ := hx
  obtain ⟨n', hn'⟩ := hk
  refine ⟨max n n', fun N hN => ?_⟩
  have hfirst := hn N (Nat.le_trans (Nat.le_max_left ..) hN)
  have hsecond : k N r m' = o := hn' N (Nat.le_trans (Nat.le_max_right ..) hN)
  exact (Run.settle_ofResult hfirst).trans hsecond

/-- From every machine that is as told, a computation ends as told if it may take enough steps. -/
def Halts (I : Machine → Prop) (F : Failure → Prop) {α : Type} (x : Budgeted α) (Q : α → Prop) :
    Prop :=
  ∀ m, I m → ∃ o, Budgeted.Comes x m o ∧ o.Lands I F Q

namespace Halts

variable {I : Machine → Prop} {F : Failure → Prop} {α β : Type} {Q : α → Prop} {R : β → Prop}

private theorem at_once {x : Run α} (hx : ∀ m, I m → (x m).Lands I F Q) :
    Halts I F (fun _ => x) Q :=
  fun m hm => ⟨x m, ⟨0, fun _ _ => rfl⟩, hx m hm⟩

private theorem give {a : α} (ha : Q a) : Halts I F (fun _ => Run.give a) Q :=
  at_once fun _ hm => .done hm ha

private theorem fail {f : Failure} (hf : F f) : Halts I F (fun _ => (Run.fail f : Run α)) Q :=
  at_once fun _ hm => .failed hm hf

private theorem later {x : Budgeted α} (hx : Halts I F (fun n => x (n + 1)) Q) : Halts I F x Q := by
  intro m hm
  obtain ⟨o, hcomes, ho⟩ := hx m hm
  exact ⟨o, hcomes.later, ho⟩

private theorem imp {F' : Failure → Prop} {Q' : α → Prop} {x : Budgeted α} (hx : Halts I F x Q)
    (hF : ∀ f, F f → F' f) (hQ : ∀ a, Q a → Q' a) : Halts I F' x Q' := by
  intro m hm
  obtain ⟨o, hcomes, ho⟩ := hx m hm
  refine ⟨o, hcomes, ?_⟩
  cases ho with
  | done hm' ha => exact .done hm' (hQ _ ha)
  | failed hm' hf => exact .failed hm' (hF _ hf)

private theorem settle {F' : Failure → Prop} {x : Budgeted α} {k : Nat → Except Failure α → Run β}
    (hx : Halts I F x Q) (hok : ∀ a, Q a → Halts I F' (fun n => k n (.ok a)) R)
    (herror : ∀ f, F f → Halts I F' (fun n => k n (.error f)) R) :
    Halts I F' (fun n => (x n).settle (k n)) R := by
  intro m hm
  obtain ⟨o, hcomes, ho⟩ := hx m hm
  cases ho with
  | @done a m' hm' ha =>
    obtain ⟨o', hcomes', ho'⟩ := hok a ha m' hm'
    exact ⟨o', .settle (r := .ok a) hcomes hcomes', ho'⟩
  | @failed f m' hm' hf =>
    obtain ⟨o', hcomes', ho'⟩ := herror f hf m' hm'
    exact ⟨o', .settle (r := .error f) hcomes hcomes', ho'⟩

private theorem bind {x : Budgeted α} {k : Nat → α → Run β} (hx : Halts I F x Q)
    (hk : ∀ a, Q a → Halts I F (fun n => k n a) R) : Halts I F (fun n => x n >>= k n) R := by
  simp only [Run.bind_eq_settle]
  exact settle hx hk fun _ hf => fail hf

end Halts

/-- A machine whose code holds loops only if a condition is met, which it is not unless the run is
canceled, and on which no more than some number of calls may be nested further. -/
structure Machine.Fit (st : Settings) (c : Prop) (k : Nat) (m : Machine) : Prop where
  heap : m.heap.LoopsIf c
  canceled : c → m.canceled = true
  room : m.canceled = true ∨ st.limit ≤ m.depth + k

namespace Halts

variable {st : Settings} {c : Prop} {k : Nat} {α : Type} {Q : α → Prop}

private theorem brief {x : Run α} (hx : x.Brief c Q) :
    Halts (Machine.Fit st c k) Failure.Placed (fun _ => x) Q := by
  refine at_once fun m hm => ?_
  have hends := hx.ends m hm.heap
  generalize x m = o at hends
  cases hends with
  | done hheap _ ha => exact .done ⟨hheap, hm.canceled, hm.room⟩ ha
  | failed hheap _ hf => exact .failed ⟨hheap, hm.canceled, hm.room⟩ hf

private theorem checkCanceled (hc : c) {x : Budgeted α} (span : Span) :
    Halts (Machine.Fit st c k) Failure.Placed
      (fun n => Run.checkCanceled span >>= fun _ => x n) Q := by
  intro m hm
  refine ⟨.failed (.runtime .canceled (some span)) m, ⟨0, fun N _ => ?_⟩, .failed hm trivial⟩
  show Run.andThen (Run.checkCanceled span) _ m = _
  simp only [Run.andThen, Run.checkCanceled, if_pos (hm.canceled hc)]

end Halts

namespace Machine.Fit

variable {st : Settings} {c : Prop} {k : Nat} {m : Machine}

private theorem emit (hm : m.Fit st c k) (kind : EventKind) (span : Span) (name : Text) :
    (Run.emit st kind span name m).machine.Fit st c k := by
  rw [Run.machine_emit]
  exact ⟨hm.heap, hm.canceled, hm.room⟩

private theorem enter (hm : m.Fit st c (k + 1)) : m.enter.Fit st c k where
  heap := hm.heap
  canceled := hm.canceled
  room := hm.room.imp_right fun h => by
    show st.limit ≤ m.depth + 1 + k
    omega

private theorem leave (hm : m.Fit st c k) : m.leave.Fit st c (k + 1) where
  heap := hm.heap
  canceled := hm.canceled
  room := hm.room.imp_right fun h => by
    show st.limit ≤ m.depth - 1 + (k + 1)
    omega

end Machine.Fit

namespace Eval

variable {st : Settings} {c : Prop} {k : Nat}

/-! ### Calls -/

theorem comes_counted {x : Budgeted Value} {m m' : Machine} {callee : Value} {span : Span}
    {r : Except Failure Value} (hcanceled : m.canceled = false) (hlimit : m.depth < st.limit)
    (hx : x.Comes (entry st callee span m) (.ofResult r m')) :
    Budgeted.Comes (fun n => counted st callee span (x n)) m
      (.ofResult (r.mapError (Failure.attach span)) (exit st callee span m')) := by
  obtain ⟨n, hn⟩ := hx
  refine ⟨n, fun N hN => ?_⟩
  show counted st callee span (x N) m = _
  rw [counted_of_room hcanceled hlimit, hn N hN]
  cases r <;> rfl

/-- A call fails at once if the run is canceled or calls are as deep as they may be; otherwise fewer
calls may be nested in it. -/
theorem halts_counted {x : Budgeted Value}
    (hx : ∀ k', k = k' + 1 → Halts (Machine.Fit st c k') (fun _ => True) x (Value.LoopsIf c))
    (callee : Value) (span : Span) :
    Halts (Machine.Fit st c k) Failure.Placed (fun n => counted st callee span (x n))
      (Value.LoopsIf c) := by
  intro m hm
  cases hcanceled : m.canceled with
  | true => exact ⟨_, ⟨0, fun N _ => counted_of_canceled hcanceled⟩, .failed hm trivial⟩
  | false =>
    by_cases hlimit : st.limit ≤ m.depth
    · exact ⟨_, ⟨0, fun N _ => counted_of_overflow hcanceled hlimit⟩, .failed hm trivial⟩
    · obtain ⟨k', rfl⟩ : ∃ k', k = k' + 1 := by
        have hroom := hm.room.resolve_left (by rw [hcanceled]; decide)
        exact ⟨k - 1, by omega⟩
      have hlimit := Nat.not_le.1 hlimit
      obtain ⟨o, hcomes, ho⟩ := hx k' rfl (entry st callee span m) (hm.enter.emit ..)
      cases ho with
      | @done v m' hm' hv =>
        exact ⟨_, comes_counted (r := .ok v) hcanceled hlimit hcomes, .done (hm'.emit ..).leave hv⟩
      | @failed f m' hm' _ =>
        exact ⟨_, comes_counted (r := .error f) hcanceled hlimit hcomes,
          .failed (hm'.emit ..).leave (f.placed_attach span)⟩

/-! ### Code -/

def CallsHalt (st : Settings) (c : Prop) (k : Nat) : Prop :=
  ∀ (span : Span) {callee : Value} {args : List Value}, callee.LoopsIf c →
    (∀ v ∈ args, v.LoopsIf c) →
    Halts (Machine.Fit st c k) Failure.Placed
      (fun n => counted st callee span (apply st n callee args)) (Value.LoopsIf c)

theorem halts_whileLoop (hc : c) (span : Span) (p : Expr) (body : Stmt) (env : FrameId) :
    Halts (Machine.Fit st c k) Failure.Placed (whileLoop st · span p body env)
      (Signal.LoopsIf c) := by
  refine .later ?_
  simp only [whileLoop]
  exact .checkCanceled hc span

theorem halts_forLoop (hc : c) (span : Span) (p i : Option Expr) (body : Stmt) (env : FrameId) :
    Halts (Machine.Fit st c k) Failure.Placed (forLoop st · span p i body env)
      (Signal.LoopsIf c) := by
  refine .later ?_
  simp only [forLoop]
  exact .checkCanceled hc span

private theorem halts_classDecl (span : Span) (name : Text) (sup : Option NameUse)
    {methods statics : List FunDecl}
    (hs : (Stmt.classDecl span name sup methods statics).LoopsIf c) (env : FrameId) :
    Halts (Machine.Fit st c k) Failure.Placed
      (fun n => stmt st (n + 1) (.classDecl span name sup methods statics) env)
      (Signal.LoopsIf c) := by
  cases sup with
  | none =>
    simp only [stmt]
    refine .bind (.brief (.define _ _ trivial)) fun _ _ =>
      .bind (.brief (brief_newClass name ?_ hs.1 hs.2 _ _)) fun _ _ => .give trivial
    intro d hd
    cases hd
  | some sup =>
    simp only [stmt]
    refine .bind (.brief (brief_readName _ _ _ env)) fun v hv => ?_
    cases v with
    | cls d =>
      refine .bind (.brief (.define _ _ trivial)) fun _ _ =>
        .bind (.brief (.newFrame _ (Bindings.loopsIf_single hv))) fun inner _ =>
        .bind (.brief (brief_newClass name ?_ hs.1 hs.2 _ _)) fun _ _ => .give trivial
      rintro _ ⟨⟩
      exact hv
    | _ => exact .fail trivial

mutual

theorem halts_expr (hcalls : CallsHalt st c k) {e : Expr} (he : e.LoopsIf c) (env : FrameId) :
    Halts (Machine.Fit st c k) Failure.Placed (expr st · e env) (Value.LoopsIf c) := by
  refine .later ?_
  cases e with
  | literal span v =>
    simp only [expr]
    exact .give (Value.loopsIf_ofLiteral c v)
  | grouping span e =>
    simp only [expr]
    exact halts_expr hcalls (e := e) he env
  | unary span op e =>
    simp only [expr]
    exact .bind (halts_expr hcalls (e := e) he env) fun v _ => .brief (brief_unary span op v)
  | binary span op a b =>
    simp only [expr]
    exact .bind (halts_expr hcalls he.1 env) fun v _ =>
      .bind (halts_expr hcalls he.2 env) fun w _ =>
      .brief (brief_binary span op v w)
  | logical span op a b =>
    simp only [expr]
    refine .bind (halts_expr hcalls he.1 env) fun v hv => ?_
    cases decides op v with
    | true => exact .give hv
    | false => exact halts_expr hcalls he.2 env
  | conditional span p a b =>
    simp only [expr]
    refine .bind (halts_expr hcalls he.1 env) fun v _ => ?_
    cases v.truthy with
    | true => exact halts_expr hcalls he.2.1 env
    | false => exact halts_expr hcalls he.2.2 env
  | name use =>
    simp only [expr]
    exact .brief (brief_readName _ _ _ env)
  | assign target e =>
    simp only [expr]
    exact .bind (halts_expr hcalls (e := e) he env) fun v hv =>
      .bind (.brief (brief_assignName target hv env)) fun _ _ => .give hv
  | call span f args =>
    simp only [expr]
    refine .bind (halts_expr hcalls he.1 env) fun callee hcallee =>
      .bind (halts_exprs hcalls he.2 env) fun vs hvs => ?_
    cases arity? st callee with
    | none => exact .fail trivial
    | some expected =>
      by_cases hlength : vs.length ≠ expected
      · simp only [if_pos hlength]
        exact .fail trivial
      · simp only [if_neg hlength]
        exact hcalls span hcallee hvs
  | get span o name =>
    simp only [expr]
    exact .bind (halts_expr hcalls (e := o) he env) fun v hv => .brief (brief_property hv name span)
  | set span o name e =>
    simp only [expr]
    refine .bind (halts_expr hcalls he.1 env) fun v _ => ?_
    cases v with
    | object i d =>
      exact .bind (halts_expr hcalls he.2 env) fun w hw =>
        .bind (.brief (.change fun _ hh => hh.setField i name hw)) fun _ _ => .give hw
    | _ => exact .fail trivial
  | this span hops =>
    simp only [expr]
    exact .brief (brief_readName _ _ _ env)
  | super span name hops =>
    simp only [expr]
    exact .brief (brief_superMethod span name hops env)
  | lambda span params body =>
    simp only [expr]
    exact .bind (.brief (brief_newFunction _ _ he _ _)) fun f hf => .give hf
termination_by structural e

theorem halts_exprs (hcalls : CallsHalt st c k) {es : List Expr}
    (hes : Expr.LoopsIfAll c es) (env : FrameId) :
    Halts (Machine.Fit st c k) Failure.Placed (exprs st · es env) fun vs =>
      ∀ v ∈ vs, v.LoopsIf c := by
  refine .later ?_
  cases es with
  | nil =>
    simp only [exprs]
    exact .give (List.forall_mem_nil _)
  | cons e r =>
    simp only [exprs]
    exact .bind (halts_expr hcalls hes.1 env) fun v hv =>
      .bind (halts_exprs hcalls hes.2 env) fun vs hvs =>
      .give (List.forall_mem_cons.2 ⟨hv, hvs⟩)
termination_by structural es

theorem halts_stmt (hcalls : CallsHalt st c k) {s : Stmt} (hs : s.LoopsIf c) (env : FrameId) :
    Halts (Machine.Fit st c k) Failure.Placed (stmt st · s env) (Signal.LoopsIf c) := by
  refine .later ?_
  cases s with
  | exprStmt span e =>
    simp only [stmt]
    exact .bind (halts_expr hcalls (e := e) hs env) fun _ _ => .give trivial
  | printStmt span e =>
    simp only [stmt]
    exact .bind (halts_expr hcalls (e := e) hs env) fun v _ =>
      .bind (.brief (.write st _)) fun _ _ =>
      .give trivial
  | varDecl span name init =>
    cases init with
    | none =>
      simp only [stmt]
      exact .bind (.brief (.define _ _ trivial)) fun _ _ => .give trivial
    | some e =>
      simp only [stmt]
      have hrest : Halts (Machine.Fit st c k) Failure.Placed (fun n => expr st n e env >>= fun v =>
          Run.change (·.define env name v) >>= fun _ => Run.give Signal.normal)
            (Signal.LoopsIf c) :=
        .bind (halts_expr hcalls (e := e) hs env) fun v hv =>
          .bind (.brief (.define _ _ hv)) fun _ _ =>
          .give trivial
      by_cases henv : env ≠ Heap.globals
      · simp only [if_pos henv]
        exact .bind (.brief (.change fun _ hh => hh.declare env name)) fun _ _ => hrest
      · simp only [if_neg henv]
        exact hrest
  | block span body =>
    simp only [stmt]
    exact .bind (.brief (.newFrame _ nofun)) fun inner _ =>
      halts_stmts hcalls (show Stmt.LoopsIfAll c body from hs) inner
  | ifStmt span p a b =>
    cases b with
    | none =>
      simp only [stmt]
      refine .bind (halts_expr hcalls hs.1 env) fun v _ => ?_
      cases v.truthy with
      | true => exact halts_stmt hcalls hs.2.1 env
      | false => exact .give trivial
    | some b =>
      simp only [stmt]
      refine .bind (halts_expr hcalls hs.1 env) fun v _ => ?_
      cases v.truthy with
      | true => exact halts_stmt hcalls hs.2.1 env
      | false => exact halts_stmt hcalls (s := b) hs.2.2 env
  | whileStmt span p body =>
    simp only [stmt]
    exact halts_whileLoop hs.1 span p body env
  | forStmt span init p i body =>
    cases init with
    | none =>
      simp only [stmt]
      exact halts_forLoop hs.1 span p i body env
    | some init =>
      simp only [stmt]
      exact .bind (.brief (.newFrame _ nofun)) fun outer _ =>
        .bind (halts_stmt hcalls (s := init) hs.2.1 outer) fun _ _ =>
          halts_forLoop hs.1 span p i body outer
  | breakStmt span =>
    simp only [stmt]
    exact .give trivial
  | returnStmt span e =>
    cases e with
    | none =>
      simp only [stmt]
      exact .give trivial
    | some e =>
      simp only [stmt]
      exact .bind (halts_expr hcalls (e := e) hs env) fun v hv => .give hv
  | funDecl d =>
    obtain ⟨span, name, params, body⟩ := d
    simp only [stmt]
    exact .bind (.brief (brief_newFunction _ _ hs _ _)) fun f hf =>
      .bind (.brief (.define _ _ hf)) fun _ _ => .give trivial
  | classDecl span name sup methods statics => exact halts_classDecl span name sup hs env
termination_by structural s

theorem halts_stmts (hcalls : CallsHalt st c k) {ss : List Stmt}
    (hss : Stmt.LoopsIfAll c ss) (env : FrameId) :
    Halts (Machine.Fit st c k) Failure.Placed (stmts st · ss env) (Signal.LoopsIf c) := by
  refine .later ?_
  cases ss with
  | nil =>
    simp only [stmts]
    exact .give trivial
  | cons s r =>
    simp only [stmts]
    refine .bind (halts_stmt hcalls hss.1 env) fun signal hsignal => ?_
    cases signal with
    | normal => exact halts_stmts hcalls hss.2 env
    | _ => exact .give hsignal
termination_by structural ss

end

theorem halts_clauseHolds (hcalls : CallsHalt st c k) {e : Option Expr}
    (he : Expr.LoopsIfOption c e) (env : FrameId) :
    Halts (Machine.Fit st c k) Failure.Placed (clauseHolds st · e env) fun _ => True := by
  refine .later ?_
  cases e with
  | none =>
    simp only [clauseHolds]
    exact .give trivial
  | some e =>
    simp only [clauseHolds]
    exact .bind (halts_expr hcalls (e := e) he env) fun v _ => .give trivial

end Eval

/-! ### Native functions -/

/-- An action comes to an end by itself: it takes finitely many steps, those of native functions
that it calls included. It calls, and is given, only values of a kind. -/
inductive Action.Returns (V : Value → Prop) (natives : Array Native) : Action → Prop
  | give {v : Value} : V v → Action.Returns V natives (.give v)
  | fail (f : Failure) : Action.Returns V natives (.fail f)
  | write {line : Text} {next : Option Text → Action} :
      (∀ fault, Action.Returns V natives (next fault)) → Action.Returns V natives (.write line next)
  | clock {next : Float → Action} :
      (∀ t, Action.Returns V natives (next t)) → Action.Returns V natives (.clock next)
  | cancel {next : Action} : Action.Returns V natives next → Action.Returns V natives (.cancel next)
  | invoke {callee : Value} {args : List Value} {next : Option (Except Failure Value) → Action} :
      V callee → (∀ v ∈ args, V v) →
      (∀ i n, callee = .native i → natives[i]? = some n → Action.Returns V natives (n.act args)) →
      Action.Returns V natives (next none) →
      (∀ v, V v → Action.Returns V natives (next (some (.ok v)))) →
      (∀ f, Action.Returns V natives (next (some (.error f)))) →
      Action.Returns V natives (.invoke callee args next)

/-- A native function comes to an end by itself whenever it is called with values of a kind. -/
def Native.Returns (V : Value → Prop) (natives : Array Native) (n : Native) : Prop :=
  ∀ args, (∀ v ∈ args, V v) → (n.act args).Returns V natives

namespace Eval

variable {st : Settings} {c : Prop} {k : Nat}

theorem halts_function (hcalls : CallsHalt st c k) {f : Function}
    (hf : f.LoopsIf c) (closure : FrameId) {args : List Value} (hargs : ∀ v ∈ args, v.LoopsIf c) :
    Halts (Machine.Fit st c k) Failure.Placed (function st · f closure args) (Value.LoopsIf c) := by
  refine .later ?_
  simp only [function]
  by_cases hlength : args.length < f.arity
  · simp only [if_pos hlength]
    exact .fail trivial
  · simp only [if_neg hlength]
    exact .bind (.brief (.newFrame _ (loopsIf_parameterBindings _ hargs))) fun env _ =>
      .bind (halts_stmts hcalls hf env) fun signal hsignal =>
        .brief (brief_result f closure hsignal)

theorem halts_method (hcalls : CallsHalt st c k) {f : Function}
    (hf : f.LoopsIf c) {receiver : Value}
    (hreceiver : receiver.LoopsIf c) {args : List Value} (hargs : ∀ v ∈ args, v.LoopsIf c) :
    Halts (Machine.Fit st c k) Failure.Placed (method st · f receiver args) (Value.LoopsIf c) := by
  refine .later ?_
  simp only [method]
  exact .bind (.brief (.newFrame _ (Bindings.loopsIf_single hreceiver))) fun closure _ =>
    halts_function hcalls hf closure hargs

theorem halts_apply (hcalls : CallsHalt st c k) {callee : Value} (hcallee : callee.LoopsIf c)
    {args : List Value} (hargs : ∀ v ∈ args, v.LoopsIf c)
    (hnative : ∀ i n, callee = .native i → st.natives[i]? = some n →
      Halts (Machine.Fit st c k) (fun _ => True) (perform st · (n.act args)) (Value.LoopsIf c)) :
    Halts (Machine.Fit st c k) (fun _ => True) (apply st · callee args) (Value.LoopsIf c) := by
  refine .later ?_
  cases callee with
  | function f =>
    simp only [apply]
    exact (halts_function hcalls hcallee _ hargs).imp (fun _ _ => trivial) fun _ => id
  | method i f receiver =>
    simp only [apply]
    exact (halts_method hcalls hcallee.1 hcallee.2 hargs).imp (fun _ _ => trivial) fun _ => id
  | native i =>
    simp only [apply]
    cases hn : st.natives[i]? with
    | none => exact .fail trivial
    | some n => exact hnative i n rfl hn
  | cls d =>
    simp only [apply]
    refine Halts.imp (.bind (.brief (.newObject hcallee)) fun object hobject => ?_)
      (fun _ _ => trivial) fun _ => id
    cases hinit : d.initializer with
    | none => exact .give hobject
    | some f =>
      exact .bind (halts_method hcalls (Class.LoopsIf.findMethod hcallee hinit) hobject hargs)
        fun _ _ =>
        .give hobject
  | _ =>
    simp only [apply]
    exact .fail trivial

theorem halts_perform (hcalls : CallsHalt st c k) {a : Action}
    (ha : a.Returns (Value.LoopsIf c) st.natives) :
    Halts (Machine.Fit st c k) (fun _ => True) (perform st · a) (Value.LoopsIf c) := by
  induction ha with
  | give hv =>
    refine .later ?_
    simp only [perform]
    exact .give hv
  | fail f =>
    refine .later ?_
    simp only [perform]
    exact .fail trivial
  | @write line next _ ih =>
    refine .later ?_
    simp only [perform]
    have hwrite : Halts (Machine.Fit st c k) Failure.Placed
        (fun _ => Run.write st line) fun _ => True :=
      .brief (.write st line)
    exact .bind (hwrite.imp (fun _ _ => trivial) fun _ => id) fun fault _ => ih fault
  | clock _ ih =>
    refine .later ?_
    simp only [perform]
    exact ih st.time
  | cancel _ ih =>
    refine .later ?_
    simp only [perform]
    exact fun m hm => ih { m with canceled := true } ⟨hm.heap, fun _ => rfl, .inl rfl⟩
  | @invoke callee args next hcallee hargs _ _ _ _ ihnative ihnone ihok iherror =>
    refine .later ?_
    by_cases harity : arity? st callee = some args.length
    · simp only [perform_invoke _ next harity]
      exact .settle (halts_apply hcalls hcallee hargs ihnative) ihok fun f _ => iherror f
    · simp only [perform_refused _ next harity]
      exact ihnone

/-! ### Programs -/

section

variable (hnatives : ∀ n ∈ st.natives, n.Returns (Value.LoopsIf c) st.natives)
include hnatives

theorem callsHalt (k : Nat) : CallsHalt st c k := by
  induction k with
  | zero =>
    exact fun span _ _ _ _ => halts_counted (fun _ hk => absurd hk (Nat.succ_ne_zero _).symm) _ span
  | succ k ih =>
    refine fun span callee args hcallee hargs => halts_counted (fun k' hk => ?_) callee span
    cases hk
    exact halts_apply ih hcallee hargs fun i n _ hn =>
      halts_perform ih (hnatives n (Array.mem_of_getElem? hn) args hargs)

private theorem halts_script {ss : List Stmt} (hss : Stmt.LoopsIfAll c ss) :
    Halts (Machine.Fit st c k) Failure.Placed (script st · ss) fun _ => True := by
  induction ss with
  | nil => exact .give trivial
  | cons s r ih =>
    simp only [script]
    refine .bind (halts_stmt (callsHalt hnatives k) hss.1 _) fun signal _ => ?_
    cases signal with
    | normal => exact ih hss.2
    | _ => exact .fail trivial

theorem halts_program {p : Program} (hp : Stmt.LoopsIfAll c p.body) :
    Halts (Machine.Fit st c k) Failure.Placed (program st · p) fun _ => True := by
  intro m hm
  obtain ⟨o, ⟨n, hn⟩, ho⟩ := halts_script hnatives hp _ (hm.emit .runStart p.span [])
  cases ho with
  | done hm' _ =>
    refine ⟨.done () _, ⟨n, fun N hN => ?_⟩, .done (hm'.emit .runEnd p.span []) trivial⟩
    simp only [program, hn N hN]
  | @failed f m' hm' hf =>
    refine ⟨.failed f _, ⟨n, fun N hN => ?_⟩, .failed (hm'.emit .runEnd p.span []) hf⟩
    simp only [program, hn N hN]

end

end Eval

end Lox
