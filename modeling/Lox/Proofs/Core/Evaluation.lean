import Lox.Proofs.Core.Primitive
import Lox.Proofs.Simulation.Evaluation

set_option autoImplicit false
set_option relaxedAutoImplicit false

namespace Lox

open Text (lit)

/-- Wherever the first computation ends, the second one ends in the same way. -/
def Run.Below {α : Type} (x y : Run α) : Prop := ∀ m, (x m).EndedBut (fun _ => False) → y m = x m

namespace Run.Below

variable {α β : Type} {x y z : Run α}

private theorem refl (x : Run α) : x.Below x := fun _ _ => rfl

private theorem unstarted (y : Run α) : Run.exhaust.Below y := fun _ hend => hend.elim

private theorem trans (hxy : x.Below y) (hyz : y.Below z) : x.Below z := by
  intro m hend
  have hy := hxy m hend
  rw [← hy] at hend ⊢
  exact hyz m hend

private theorem bind {k l : α → Run β} (hx : x.Below y) (hk : ∀ a, (k a).Below (l a)) :
    (x >>= k).Below (y >>= l) := by
  intro m hend
  have hfirst := hx m
  change (andThen x k m).EndedBut _ at hend
  show andThen y l m = andThen x k m
  unfold andThen at hend ⊢
  cases hrun : x m with
  | done a m' =>
    rw [hrun] at hfirst hend
    rw [hfirst trivial]
    exact hk a m' hend
  | failed f m' =>
    rw [hrun] at hfirst
    rw [hfirst id]
  | exhausted m' =>
    rw [hrun] at hend
    exact hend.elim

end Run.Below

namespace Leads

variable {L : Likeness} {α β : Type} {Q : α → β → Prop} {x x' : Run α} {y z : Budgeted β}

private theorem of_below (hx : x.Below x') (h : Leads L x' y Q) : Leads L x y Q := by
  intro m m' hm
  have hall := h m m' hm
  have hsame := hx m
  generalize x m = o at hsame ⊢
  cases o with
  | done a m₁ => rwa [hsame trivial] at hall
  | failed f m₁ => rwa [hsame id] at hall
  | exhausted m₁ => exact .inl ⟨m₁, rfl⟩

private theorem below (h : Leads L x y Q) (hy : ∀ n, ∃ N, (y n).Below (z N))
    (hz : ∀ n N, n ≤ N → (z n).Below (z N)) : Leads L x z Q := by
  intro m m' hm
  refine (h m m' hm).imp_right fun ⟨o, ⟨n, hn⟩, ho⟩ => ⟨o, ?_, ho⟩
  have hend : o.EndedBut fun _ => False := by
    generalize x m = first at ho
    cases ho with
    | done => trivial
    | failed => exact id
  obtain ⟨N, hN⟩ := hy n
  have hfirst : y n m' = o := hn n (Nat.le_refl n)
  have hsecond : z N m' = o := (hN m' (hfirst ▸ hend)).trans hfirst
  exact ⟨N, fun M hM => (hz N M hM m' (hsecond ▸ hend)).trans hsecond⟩

end Leads

namespace Eval

/-! ### Chains -/

section

variable (st : Settings) (op : LogicalOp)

/-- Two operands of a logical operator, the second one if the first one does not decide. -/
def either (x y : Run Value) : Run Value := x >>= fun v => if decides op v then Run.give v else y

private theorem expr_logical (n : Nat) (span : Span) (a b : Expr) (env : FrameId) :
    expr st (n + 1) (.logical span op a b) env = either op (expr st n a env) (expr st n b env) := by
  rw [expr]
  rfl

private theorem expr_grouping (n : Nat) (span : Span) (e : Expr) (env : FrameId) :
    expr st (n + 1) (.grouping span e) env = expr st n e env := by
  rw [expr]

private theorem either_assoc (x y z : Run Value) :
    either op (either op x y) z = either op x (either op y z) := by
  unfold either
  rw [Run.bind_assoc]
  refine congrArg _ (funext fun v => ?_)
  by_cases hv : decides op v = true
  · simp only [if_pos hv, Run.give_bind]
  · simp only [if_neg hv]

private theorem below_either {x x' y y' : Run Value} (hx : x.Below x') (hy : y.Below y') :
    (either op x y).Below (either op x' y') := by
  refine .bind hx fun v => ?_
  split
  · exact .refl _
  · exact hy

private theorem below_expr {n N : Nat} (h : n ≤ N) (e : Expr) (env : FrameId) :
    (expr st n e env).Below (expr st N e env) :=
  kept_expr (.same st) n e env N h

private theorem join_below (n : Nat) (a b : Expr) (env : FrameId) :
    (expr st n (op.join a b) env).Below (either op (expr st n a env) (expr st n b env)) := by
  induction b using op.join_induction generalizing n with
  | hother b hb =>
    rw [op.join_other a hb]
    cases n with
    | zero =>
      rw [expr]
      exact .unstarted _
    | succ n =>
      rw [expr_logical]
      exact below_either op (below_expr st n.le_succ a env) (below_expr st n.le_succ b env)
  | hchain s x y ih =>
    rw [op.join_same]
    cases n with
    | zero =>
      rw [expr]
      exact .unstarted _
    | succ n =>
      rw [expr_logical, expr_logical]
      have hparts := below_either op (ih n) (.refl (expr st n y env))
      rw [either_assoc] at hparts
      exact hparts.trans (below_either op (below_expr st n.le_succ a env) (.refl _))

private theorem below_join (n : Nat) (a b : Expr) (env : FrameId) :
    ∃ N, (either op (expr st n a env) (expr st n b env)).Below (expr st N (op.join a b) env) := by
  induction b using op.join_induction generalizing n with
  | hother b hb =>
    refine ⟨n + 1, ?_⟩
    rw [op.join_other a hb, expr_logical]
    exact .refl _
  | hchain s x y ih =>
    cases n with
    | zero =>
      refine ⟨0, ?_⟩
      simp only [expr]
      exact .unstarted _
    | succ n =>
      obtain ⟨N, hN⟩ := ih (n + 1)
      refine ⟨max N n + 1, ?_⟩
      rw [op.join_same, expr_logical, expr_logical, ← either_assoc]
      have hx := below_either op (.refl (expr st (n + 1) a env)) (below_expr st n.le_succ x env)
      exact below_either op ((hx.trans hN).trans (below_expr st (Nat.le_max_left N n) _ env))
        (below_expr st (Nat.le_max_right N n) y env)

variable {L : Likeness}

private theorem leads_either {x x' : Run Value} {y y' : Budgeted Value}
    (hx : Leads L x y (Value.Alike L)) (hx' : Leads L x' y' (Value.Alike L)) :
    Leads L (either op x x') (fun n => either op (y n) (y' n)) (Value.Alike L) := by
  refine .bind hx fun v v' hv => ?_
  rw [decides_alike hv op]
  cases decides op v' with
  | true => exact .give hv
  | false => exact hx'

end

/-! ### Code -/

/-- Everything that evaluation does within a bound on steps leads what it does with alike code. -/
structure LeadsAt (st : Settings) (n : Nat) : Prop where
  expr {e e' : Expr} (env : FrameId) : Expr.Alike e e' →
    Leads .ofCore (expr st n e env) (expr st · e' env) (Value.Alike .ofCore)
  exprs {es es' : List Expr} (env : FrameId) : Expr.AlikeAll es es' →
    Leads .ofCore (exprs st n es env) (exprs st · es' env) (List.Forall₂ (Value.Alike .ofCore))
  apply {callee callee' : Value} {args args' : List Value} : callee.Alike .ofCore callee' →
    List.Forall₂ (Value.Alike .ofCore) args args' → arity? st callee = some args.length →
    Leads .ofCore (apply st n callee args) (apply st · callee' args') (Value.Alike .ofCore)
  method {f f' : Function} {receiver receiver' : Value} {args args' : List Value} : f.SameCore f' →
    receiver.Alike .ofCore receiver' → List.Forall₂ (Value.Alike .ofCore) args args' →
    Leads .ofCore (method st n f receiver args)
      (method st · f' receiver' args') (Value.Alike .ofCore)
  function {f f' : Function} {args args' : List Value} (closure : FrameId) : f.SameCore f' →
    List.Forall₂ (Value.Alike .ofCore) args args' →
    Leads .ofCore (function st n f closure args)
      (function st · f' closure args') (Value.Alike .ofCore)
  perform {a a' : Action} : Action.Paired (.parallel .ofCore) () a a' →
    Leads .ofCore (perform st n a) (perform st · a') (Value.Alike .ofCore)
  stmt {s s' : Stmt} (env : FrameId) : Stmt.Alike s s' →
    Leads .ofCore (stmt st n s env) (stmt st · s' env) (Signal.Alike .ofCore)
  stmts {ss ss' : List Stmt} (env : FrameId) : Stmt.AlikeAll ss ss' →
    Leads .ofCore (stmts st n ss env) (stmts st · ss' env) (Signal.Alike .ofCore)
  whileLoop {c c' : Expr} {b b' : Stmt} (span span' : Span) (env : FrameId) : Expr.Alike c c' →
    Stmt.Alike b b' →
    Leads .ofCore (whileLoop st n span c b env)
      (whileLoop st · span' c' b' env) (Signal.Alike .ofCore)
  forLoop {c c' i i' : Option Expr} {b b' : Stmt} (span span' : Span) (env : FrameId) :
    Expr.AlikeOption c c' → Expr.AlikeOption i i' → Stmt.Alike b b' →
    Leads .ofCore (forLoop st n span c i b env)
      (forLoop st · span' c' i' b' env) (Signal.Alike .ofCore)
  clauseHolds {c c' : Option Expr} (env : FrameId) : Expr.AlikeOption c c' →
    Leads .ofCore (clauseHolds st n c env) (clauseHolds st · c' env) (· = ·)

private theorem leadsAt_zero (st : Settings) : LeadsAt st 0 where
  expr _ _ := .unstarted (by rw [Eval.expr])
  exprs _ _ := .unstarted (by rw [Eval.exprs])
  apply _ _ _ := .unstarted (by rw [Eval.apply])
  method _ _ _ := .unstarted (by rw [Eval.method])
  function _ _ _ := .unstarted (by rw [Eval.function])
  perform _ := .unstarted (by rw [Eval.perform])
  stmt _ _ := .unstarted (by rw [Eval.stmt])
  stmts _ _ := .unstarted (by rw [Eval.stmts])
  whileLoop _ _ _ _ _ := .unstarted (by rw [Eval.whileLoop])
  forLoop _ _ _ _ _ _ := .unstarted (by rw [Eval.forLoop])
  clauseHolds _ _ := .unstarted (by rw [Eval.clauseHolds])

private theorem leads_afterStmt {rest : Run Signal} {rest' : Budgeted Signal}
    {signal signal' : Signal}
    (hrest : Leads .ofCore rest rest' (Signal.Alike .ofCore))
    (hsignal : signal.Alike .ofCore signal') :
    Leads .ofCore (afterStmt rest signal) (fun n => afterStmt (rest' n) signal')
      (Signal.Alike .ofCore) := by
  cases hsignal with
  | normal => exact hrest
  | leaveLoop => exact .give .leaveLoop
  | leaveFunction hv => exact .give (.leaveFunction hv)

private theorem leads_afterRound {again : Run Signal} {again' : Budgeted Signal}
    {signal signal' : Signal}
    (hagain : Leads .ofCore again again' (Signal.Alike .ofCore))
    (hsignal : signal.Alike .ofCore signal') :
    Leads .ofCore (afterRound again signal) (fun n => afterRound (again' n) signal')
      (Signal.Alike .ofCore) := by
  cases hsignal with
  | normal => exact hagain
  | leaveLoop => exact .give .normal
  | leaveFunction hv => exact .give (.leaveFunction hv)

private theorem leads_classDecl {st : Settings} {n : Nat} {env : FrameId}
    (span span' : Span) (name : Text)
    {sup sup' : Option NameUse} (hsup : sup.map NameUse.bare = sup'.map NameUse.bare)
    {ms ms' ss ss' : List FunDecl} (hms : FunDecl.AlikeAll ms ms') (hss : FunDecl.AlikeAll ss ss') :
    Leads .ofCore (Eval.stmt st (n + 1) (.classDecl span name sup ms ss) env)
      (Eval.stmt st · (.classDecl span' name sup' ms' ss') env) (Signal.Alike .ofCore) := by
  refine .later ?_
  cases sup with
  | none =>
    cases sup' with
    | some _ => cases hsup
    | none =>
      simp only [Eval.stmt]
      exact .next (.define env name .nil) fun _ _ _ =>
        .next (parallel_newClass name .none hms hss env) fun _ _ _ => .give .normal
  | some use =>
    cases sup' with
    | none => cases hsup
    | some use' =>
      obtain ⟨hname, hhops⟩ := NameUse.eq_of_bare (Option.some.inj hsup)
      simp only [Eval.stmt]
      rw [hname, hhops]
      refine .next (parallel_readName _ _ use'.name use'.hops) fun v v' hv => ?_
      cases hv with
      | cls hc =>
        refine .next (.define env name .nil) fun _ _ _ =>
          .newFrame env (.single _ (.cls hc)) fun inner => ?_
        exact .next (parallel_newClass name (.some hc) hms hss inner) fun _ _ _ => .give .normal
      | _ => exact .steps (.error _ _ _)

namespace LeadsAt

variable {st : Settings} {n : Nat}

private theorem call_succ (ih : LeadsAt st n) (span span' : Span) {f f' : Expr}
    {args args' : List Expr}
    (hf : Expr.Alike f f') (hargs : Expr.AlikeAll args args') (env : FrameId) :
    Leads .ofCore (Eval.expr st (n + 1) (.call span f args) env)
      (Eval.expr st · (.call span' f' args') env) (Value.Alike .ofCore) := by
  refine .later ?_
  simp only [Eval.expr]
  refine .bind (ih.expr env hf) fun callee callee' hcallee =>
    .bind (ih.exprs env hargs) fun vs vs' hvs => ?_
  rw [← hcallee.arity? st, ← hvs.length_eq]
  cases harity : arity? st callee with
  | none => exact .steps (.error _ _ _)
  | some expected =>
    by_cases hcount : vs.length ≠ expected
    · simp only [if_pos hcount]
      exact .steps (.error _ _ _)
    · simp only [if_neg hcount]
      have hlength : vs.length = expected := Decidable.not_not.1 hcount
      exact .counted span span' (ih.apply hcallee hvs (hlength ▸ harity))

/-- Parentheses on the right and a chain that is cut in another way take no step on the left. Both
leave a smaller expression on the right, so the recursion is on its size. -/
theorem expr_succ (ih : LeadsAt st n) {e e' : Expr} (he : Expr.Alike e e') (env : FrameId) :
    Leads .ofCore (Eval.expr st (n + 1) e env) (Eval.expr st · e' env) (Value.Alike .ofCore) := by
  cases he with
  | literal s s' v =>
    refine .later ?_
    simp only [Eval.expr]
    exact .give (.refl Likeness.reflexive_ofCore _)
  | ungrouped s he =>
    rw [expr_grouping]
    exact ih.expr env he
  | grouped s he =>
    refine .later ?_
    simp only [expr_grouping]
    exact expr_succ ih he env
  | unary s s' op he =>
    refine .later ?_
    simp only [Eval.expr]
    exact .bind (ih.expr env he) fun v v' hv => .steps (parallel_unary s s' op hv)
  | binary s s' op ha hb =>
    refine .later ?_
    simp only [Eval.expr]
    exact .bind (ih.expr env ha) fun v v' hv => .bind (ih.expr env hb) fun w w' hw =>
      .steps (parallel_binary s s' op hv hw)
  | logical s s' op ha hb =>
    refine .later ?_
    simp only [expr_logical]
    exact leads_either op (ih.expr env ha) (ih.expr env hb)
  | joined s op ha hb =>
    rw [expr_logical]
    exact (leads_either op (ih.expr env ha) (ih.expr env hb)).below
      (fun k => below_join st op k _ _ env)
      fun _ _ h => below_expr st h _ env
  | parted s op ha hb =>
    refine .of_below (join_below st op (n + 1) _ _ env) (.later ?_)
    simp only [expr_logical]
    exact leads_either op (expr_succ ih ha env) (expr_succ ih hb env)
  | conditional s s' hc ha hb =>
    refine .later ?_
    simp only [Eval.expr]
    refine .bind (ih.expr env hc) fun v v' hv => ?_
    rw [hv.truthy]
    cases v'.truthy with
    | true => exact ih.expr env ha
    | false => exact ih.expr env hb
  | @name use use' huse =>
    obtain ⟨hname, hhops⟩ := NameUse.eq_of_bare huse
    refine .later ?_
    simp only [Eval.expr]
    rw [hname, hhops]
    exact .steps (parallel_readName _ _ _ _)
  | assign htarget he =>
    refine .later ?_
    simp only [Eval.expr]
    exact .bind (ih.expr env he) fun v v' hv =>
      .next (parallel_assignName htarget hv) fun _ _ _ => .give hv
  | call s s' hf hargs => exact ih.call_succ s s' hf hargs env
  | get s s' name ho =>
    refine .later ?_
    simp only [Eval.expr]
    exact .bind (ih.expr env ho) fun v v' hv => .steps (parallel_property s s' name hv)
  | set s s' name ho he =>
    refine .later ?_
    simp only [Eval.expr]
    refine .bind (ih.expr env ho) fun v v' hv => ?_
    cases hv with
    | object i _ =>
      exact .bind (ih.expr env he) fun w w' hw =>
        .next (.change fun _ _ hh => hh.setField i name hw) fun _ _ _ => .give hw
    | _ => exact .steps (.error _ _ _)
  | this s s' hops =>
    refine .later ?_
    simp only [Eval.expr]
    exact .steps (parallel_readName s s' _ hops)
  | super s s' name hops =>
    refine .later ?_
    simp only [Eval.expr]
    exact .steps (parallel_superMethod s s' name hops)
  | lambda s s' hps hbody =>
    refine .later ?_
    simp only [Eval.expr]
    exact .next (parallel_newFunction [] hps hbody false) fun f f' hf => .give (.function hf)
termination_by sizeOf e'

private theorem exprs_succ (ih : LeadsAt st n) {es es' : List Expr}
    (hes : Expr.AlikeAll es es') (env : FrameId) :
    Leads .ofCore (Eval.exprs st (n + 1) es env) (Eval.exprs st · es' env)
      (List.Forall₂ (Value.Alike .ofCore)) := by
  refine .later ?_
  cases hes with
  | nil =>
    simp only [Eval.exprs]
    exact .give .nil
  | cons he hes =>
    simp only [Eval.exprs]
    exact .bind (ih.expr env he) fun v v' hv => .bind (ih.exprs env hes) fun vs vs' hvs =>
      .give (.cons hv hvs)

private theorem apply_succ (ih : LeadsAt st n) (hst : ∀ k ∈ st.natives, k.Impartial .ofCore)
    {callee callee' : Value} {args args' : List Value} (hcallee : callee.Alike .ofCore callee')
    (hargs : List.Forall₂ (Value.Alike .ofCore) args args')
    (harity : arity? st callee = some args.length) :
    Leads .ofCore (Eval.apply st (n + 1) callee args) (Eval.apply st · callee' args')
      (Value.Alike .ofCore) := by
  refine .later ?_
  cases hcallee with
  | @function f f' hf =>
    have hcode : f.SameCore f' := hf
    simp only [Eval.apply, hcode.closure]
    exact ih.function f'.closure hcode hargs
  | method i hf hreceiver =>
    simp only [Eval.apply]
    exact ih.method hf hreceiver hargs
  | native i =>
    obtain ⟨k, hk, hlength⟩ := Option.map_eq_some_iff.1 harity
    simp only [Eval.apply, hk]
    exact ih.perform (hst k (Array.mem_of_getElem? hk) args args' hlength.symm hargs)
  | @cls c c' hc =>
    have hinit : Option.Rel Likeness.ofCore.member c.initializer c'.initializer :=
      hc.findMethod (lit "init")
    simp only [Eval.apply]
    refine .next (.newObject hc) fun object object' hobject => ?_
    generalize c.initializer = f, c'.initializer = f' at hinit
    cases hinit with
    | none => exact .give hobject
    | some hf => exact .bind (ih.method hf hobject hargs) fun _ _ _ => .give hobject
  | _ => cases harity

private theorem method_succ (ih : LeadsAt st n) {f f' : Function} {receiver receiver' : Value}
    {args args' : List Value} (hf : f.SameCore f') (hreceiver : receiver.Alike .ofCore receiver')
    (hargs : List.Forall₂ (Value.Alike .ofCore) args args') :
    Leads .ofCore (Eval.method st (n + 1) f receiver args) (Eval.method st · f' receiver' args')
      (Value.Alike .ofCore) := by
  refine .later ?_
  simp only [Eval.method, hf.closure]
  exact .newFrame _ (.single _ hreceiver) fun closure => ih.function closure hf hargs

private theorem function_succ (ih : LeadsAt st n) {f f' : Function}
    {args args' : List Value} (closure : FrameId)
    (hf : f.SameCore f') (hargs : List.Forall₂ (Value.Alike .ofCore) args args') :
    Leads .ofCore (Eval.function st (n + 1) f closure args) (Eval.function st · f' closure args')
      (Value.Alike .ofCore) := by
  refine .later ?_
  simp only [Eval.function, ← hargs.length_eq, ← hf.outline.arity]
  by_cases hcount : args.length < f.arity
  · simp only [if_pos hcount]
    exact .steps (.fail rfl)
  · simp only [if_neg hcount]
    refine .newFrame closure (.parameters hf.params hargs) fun env => ?_
    exact .bind (ih.stmts env hf.body) fun signal signal' hsignal =>
      .steps (parallel_result hf closure hsignal)

private theorem perform_succ (ih : LeadsAt st n) {a a' : Action}
    (ha : Action.Paired (.parallel .ofCore) () a a') :
    Leads .ofCore (Eval.perform st (n + 1) a) (Eval.perform st · a') (Value.Alike .ofCore) := by
  refine .later ?_
  cases ha with
  | give hv =>
    simp only [Eval.perform]
    exact .give hv
  | fail hf =>
    simp only [Eval.perform]
    exact .steps (.fail hf)
  | write line hnext =>
    simp only [Eval.perform]
    refine .next (.write st line) ?_
    rintro fault _ rfl
    exact ih.perform (hnext fault)
  | clock hnext =>
    simp only [Eval.perform]
    exact ih.perform (hnext st.time)
  | cancel hnext =>
    simp only [Eval.perform]
    exact fun m m' hm => ih.perform hnext { m with canceled := true } { m' with canceled := true }
      ⟨hm.heap, hm.calls, hm.depth, hm.peak, hm.output, rfl⟩
  | @invoke _ callee callee' args args' next next' hcallee hargs hrefused hgave hfailed =>
    have hsame : arity? st callee' = some args'.length ↔ arity? st callee = some args.length := by
      rw [← hcallee.arity? st, ← hargs.length_eq]
    by_cases harity : arity? st callee = some args.length
    · simp only [perform_invoke _ next harity, perform_invoke _ next' (hsame.2 harity)]
      exact .settle (ih.apply hcallee hargs harity)
        (fun v v' hv => ih.perform (hgave () trivial v v' hv))
        fun f g hf => ih.perform (hfailed () trivial f g hf)
    · simp only [perform_refused _ next harity, perform_refused _ next' (mt hsame.1 harity)]
      exact ih.perform hrefused

private theorem varDecl_succ (ih : LeadsAt st n) (span span' : Span) (name : Text)
    {init init' : Option Expr} (hinit : Expr.AlikeOption init init') (env : FrameId) :
    Leads .ofCore (Eval.stmt st (n + 1) (.varDecl span name init) env)
      (Eval.stmt st · (.varDecl span' name init') env) (Signal.Alike .ofCore) := by
  refine .later ?_
  cases hinit with
  | none =>
    simp only [Eval.stmt]
    exact .next (.define env name .nil) fun _ _ _ => .give .normal
  | @some e e' he =>
    have hrest := Leads.bind (R := Signal.Alike .ofCore) (ih.expr env he) fun v v' hv =>
      .next (.define env name hv) fun _ _ _ => .give .normal
    simp only [Eval.stmt]
    by_cases henv : env ≠ Heap.globals
    · simp only [if_pos henv]
      exact .next (.change fun _ _ hh => hh.declare env name) fun _ _ _ => hrest
    · simp only [if_neg henv]
      exact hrest

private theorem ifStmt_succ (ih : LeadsAt st n) (span span' : Span) {c c' : Expr} {a a' : Stmt}
    {b b' : Option Stmt} (hc : Expr.Alike c c') (ha : Stmt.Alike a a') (hb : Stmt.AlikeOption b b')
    (env : FrameId) :
    Leads .ofCore (Eval.stmt st (n + 1) (.ifStmt span c a b) env)
      (Eval.stmt st · (.ifStmt span' c' a' b') env) (Signal.Alike .ofCore) := by
  refine .later ?_
  unfold Eval.stmt
  refine .bind (ih.expr env hc) fun v v' hv => ?_
  rw [hv.truthy]
  cases v'.truthy with
  | true => exact ih.stmt env ha
  | false =>
    cases hb with
    | none => exact .give .normal
    | some hb => exact ih.stmt env hb

private theorem stmt_succ (ih : LeadsAt st n) {s s' : Stmt} (hs : Stmt.Alike s s') (env : FrameId) :
    Leads .ofCore (Eval.stmt st (n + 1) s env) (Eval.stmt st · s' env) (Signal.Alike .ofCore) := by
  cases hs with
  | exprStmt s s' he =>
    refine .later ?_
    simp only [Eval.stmt]
    exact .bind (ih.expr env he) fun _ _ _ => .give .normal
  | printStmt s s' he =>
    refine .later ?_
    simp only [Eval.stmt]
    refine .bind (ih.expr env he) fun v v' hv => ?_
    rw [hv.print]
    exact .next (.write st v'.print) fun _ _ _ => .give .normal
  | varDecl s s' name hinit => exact ih.varDecl_succ s s' name hinit env
  | block s s' hbody =>
    refine .later ?_
    simp only [Eval.stmt]
    exact .newFrame env .nil fun inner => ih.stmts inner hbody
  | ifStmt s s' hc ha hb => exact ih.ifStmt_succ s s' hc ha hb env
  | whileStmt s s' hc hb =>
    refine .later ?_
    simp only [Eval.stmt]
    exact ih.whileLoop s s' env hc hb
  | forStmt s s' hinit hc hi hb =>
    refine .later ?_
    cases hinit with
    | none =>
      simp only [Eval.stmt]
      exact ih.forLoop s s' env hc hi hb
    | some hinit =>
      simp only [Eval.stmt]
      exact .newFrame env .nil fun outer => .bind (ih.stmt outer hinit) fun _ _ _ =>
        ih.forLoop s s' outer hc hi hb
  | breakStmt s s' =>
    refine .later ?_
    simp only [Eval.stmt]
    exact .give .leaveLoop
  | returnStmt s s' he =>
    refine .later ?_
    cases he with
    | none =>
      simp only [Eval.stmt]
      exact .give (.leaveFunction .nil)
    | some he =>
      simp only [Eval.stmt]
      exact .bind (ih.expr env he) fun v v' hv => .give (.leaveFunction hv)
  | funDecl hd =>
    obtain ⟨s, s', name, hps, hbody⟩ := hd
    refine .later ?_
    simp only [Eval.stmt]
    exact .next (parallel_newFunction name hps hbody false) fun f f' hf =>
      .next (.define env name (.function hf)) fun _ _ _ => .give .normal
  | classDecl s s' name hsup hms hss => exact leads_classDecl s s' name hsup hms hss

private theorem stmts_succ (ih : LeadsAt st n) {ss ss' : List Stmt}
    (hss : Stmt.AlikeAll ss ss') (env : FrameId) :
    Leads .ofCore (Eval.stmts st (n + 1) ss env) (Eval.stmts st · ss' env)
      (Signal.Alike .ofCore) := by
  refine .later ?_
  cases hss with
  | nil =>
    simp only [Eval.stmts]
    exact .give .normal
  | cons hs hss =>
    simp only [stmts_cons]
    exact .bind (ih.stmt env hs) fun _ _ hsignal => leads_afterStmt (ih.stmts env hss) hsignal

private theorem whileLoop_succ (ih : LeadsAt st n) (span span' : Span) {c c' : Expr} {b b' : Stmt}
    (hc : Expr.Alike c c') (hb : Stmt.Alike b b') (env : FrameId) :
    Leads .ofCore (Eval.whileLoop st (n + 1) span c b env) (Eval.whileLoop st · span' c' b' env)
      (Signal.Alike .ofCore) := by
  refine .later ?_
  simp only [whileLoop_eq_round]
  refine .next (.checkCanceled span span') fun _ _ _ => .bind (ih.expr env hc) fun v v' hv => ?_
  rw [hv.truthy]
  cases v'.truthy with
  | false => exact .give .normal
  | true =>
    exact .bind (ih.stmt env hb) fun _ _ hsignal =>
      leads_afterRound (ih.whileLoop span span' env hc hb) hsignal

private theorem forLoop_succ (ih : LeadsAt st n) (span span' : Span)
    {c c' i i' : Option Expr} {b b' : Stmt}
    (hc : Expr.AlikeOption c c') (hi : Expr.AlikeOption i i')
    (hb : Stmt.Alike b b') (env : FrameId) :
    Leads .ofCore (Eval.forLoop st (n + 1) span c i b env) (Eval.forLoop st · span' c' i' b' env)
      (Signal.Alike .ofCore) := by
  have hround : Leads .ofCore (round st n i b env) (round st · i' b' env) (Signal.Alike .ofCore) :=
    .newFrame env .nil fun inner => .bind (ih.stmt inner hb) fun _ _ hsignal =>
      leads_afterStmt (.bind (ih.clauseHolds inner hi) fun _ _ _ => .give .normal) hsignal
  refine .later ?_
  simp only [forLoop_eq_round]
  refine .next (.checkCanceled span span') fun _ _ _ => .bind (ih.clauseHolds env hc) ?_
  rintro goOn _ rfl
  cases goOn with
  | false => exact .give .normal
  | true =>
    exact .bind hround fun _ _ hsignal =>
      leads_afterRound (ih.forLoop span span' env hc hi hb) hsignal

private theorem clauseHolds_succ (ih : LeadsAt st n) {c c' : Option Expr}
    (hc : Expr.AlikeOption c c') (env : FrameId) :
    Leads .ofCore (Eval.clauseHolds st (n + 1) c env) (Eval.clauseHolds st · c' env) (· = ·) := by
  refine .later ?_
  cases hc with
  | none =>
    simp only [Eval.clauseHolds]
    exact .give rfl
  | some he =>
    simp only [Eval.clauseHolds]
    exact .bind (ih.expr env he) fun v v' hv => .give hv.truthy

end LeadsAt

variable {st : Settings}

private theorem leadsAt (hst : ∀ k ∈ st.natives, k.Impartial .ofCore) (n : Nat) : LeadsAt st n := by
  induction n with
  | zero => exact leadsAt_zero st
  | succ n ih =>
    exact {
      expr := fun env he => ih.expr_succ he env
      exprs := fun env hes => ih.exprs_succ hes env
      apply := ih.apply_succ hst
      method := ih.method_succ
      function := fun closure => ih.function_succ closure
      perform := ih.perform_succ
      stmt := fun env hs => ih.stmt_succ hs env
      stmts := fun env hss => ih.stmts_succ hss env
      whileLoop := fun span span' env hc hb => ih.whileLoop_succ span span' hc hb env
      forLoop := fun span span' env hc hi hb => ih.forLoop_succ span span' hc hi hb env
      clauseHolds := fun env hc => ih.clauseHolds_succ hc env }

private theorem leads_script (hst : ∀ k ∈ st.natives, k.Impartial .ofCore)
    (n : Nat) {ss ss' : List Stmt} (hss : Stmt.AlikeAll ss ss') :
    Leads .ofCore (script st n ss) (script st · ss') fun _ _ => True := by
  induction ss generalizing ss' with
  | nil =>
    cases hss
    exact .give trivial
  | cons s r ih =>
    cases hss with
    | cons hs hr =>
      simp only [script]
      refine .bind ((leadsAt hst n).stmt Heap.globals hs) fun signal signal' hsignal => ?_
      cases hsignal with
      | normal => exact ih hr
      | leaveLoop | leaveFunction _ => exact .steps (.broken _ _ _)

theorem leads_program (hst : ∀ k ∈ st.natives, k.Impartial .ofCore) (n : Nat) {p q : Program}
    (h : Stmt.AlikeAll p.body q.body) :
    Leads .ofCore (program st n p) (program st · q) fun _ _ => True := by
  intro m m' hm
  have hstart := hm.emit st .runStart p.span q.span [] []
  have hstop : ∀ {m m' : Machine}, m.Alike .ofCore m' → Machine.Alike .ofCore
      (Run.emit st .runEnd p.span [] m).machine (Run.emit st .runEnd q.span [] m').machine :=
    fun hm => hm.emit st .runEnd p.span q.span [] []
  obtain ⟨m₁, hend⟩ | ⟨o, ⟨k, hk⟩, ho⟩ := leads_script hst n h _ _ hstart
  · exact .inl ⟨m₁, by simp only [program, hend]⟩
  · generalize hrun : script st n p.body (Run.emit st .runStart p.span [] m).machine = first at ho
    cases ho with
    | @done _ _ m₁ m₁' hm₁ _ =>
      refine .inr ⟨.done () (Run.emit st .runEnd q.span [] m₁').machine, ⟨k, fun N hN => ?_⟩, ?_⟩
      · simp only [program, hk N hN]
      · simp only [program, hrun]
        exact .done (hstop hm₁) trivial
    | @failed f g m₁ m₁' hf hm₁ =>
      refine .inr ⟨.failed g (Run.emit st .runEnd q.span [] m₁').machine, ⟨k, fun N hN => ?_⟩, ?_⟩
      · simp only [program, hk N hN]
      · simp only [program, hrun]
        exact .failed hf (hstop hm₁)

end Eval
end Lox
