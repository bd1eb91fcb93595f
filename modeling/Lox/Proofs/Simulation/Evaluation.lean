import Lox.Proofs.Simulation.Primitive

set_option autoImplicit false
set_option relaxedAutoImplicit false

namespace Lox

open Text (lit)

namespace Eval

def afterStmt (rest : Run Signal) : Signal → Run Signal
  | .normal => rest
  | signal => Run.give signal

def afterRound (again : Run Signal) : Signal → Run Signal
  | .normal => again
  | .leaveLoop => Run.give .normal
  | signal => Run.give signal

/-- One round of a loop with clauses: its body, and then its last clause unless the body leaves the
loop. -/
def round (st : Settings) (fuel : Nat) (i : Option Expr) (body : Stmt) (env : FrameId) :
    Run Signal := do
  let inner ← Run.newFrame env []
  stmt st fuel body inner >>= afterStmt do
    let _ ← clauseHolds st fuel i inner
    Run.give .normal

theorem stmts_cons (st : Settings) (fuel : Nat) (s : Stmt) (r : List Stmt) (env : FrameId) :
    stmts st (fuel + 1) (s :: r) env = stmt st fuel s env >>= afterStmt (stmts st fuel r env) := by
  rw [stmts]
  refine congrArg _ (funext fun signal => ?_)
  cases signal <;> rfl

theorem forLoop_eq_round (st : Settings) (fuel : Nat) (span : Span)
    (c i : Option Expr) (body : Stmt) (env : FrameId) : forLoop st (fuel + 1) span c i body env =
      (Run.checkCanceled span >>= fun _ => clauseHolds st fuel c env >>= fun goOn =>
        if !goOn then Run.give .normal
        else round st fuel i body env >>= afterRound (forLoop st fuel span c i body env)) := by
  rw [forLoop]
  refine congrArg _ (funext fun _ => congrArg _ (funext fun goOn => ?_))
  refine ite_congr rfl (fun _ => rfl) fun _ => ?_
  unfold round
  rw [Run.bind_assoc]
  refine congrArg _ (funext fun inner => ?_)
  rw [Run.bind_assoc]
  refine congrArg _ (funext fun signal => ?_)
  cases signal with
  | normal =>
    show _ = (clauseHolds st fuel i inner >>= fun _ => Run.give .normal) >>= afterRound _
    rw [Run.bind_assoc]
    rfl
  | leaveLoop => rfl
  | leaveFunction v => rfl

theorem whileLoop_eq_round (st : Settings) (fuel : Nat) (span : Span) (c : Expr) (body : Stmt)
    (env : FrameId) : whileLoop st (fuel + 1) span c body env =
      (Run.checkCanceled span >>= fun _ => expr st fuel c env >>= fun v =>
        if !v.truthy then Run.give .normal
        else stmt st fuel body env >>= afterRound (whileLoop st fuel span c body env)) := by
  rw [whileLoop]
  refine congrArg _ (funext fun _ => congrArg _ (funext fun v => ?_))
  refine ite_congr rfl (fun _ => rfl) fun _ => ?_
  refine congrArg _ (funext fun signal => ?_)
  cases signal <;> rfl

theorem stmt_clause_gives {s : Stmt} (hs : s.isClause = true) (st : Settings) (fuel : Nat)
    (env : FrameId) : (stmt st fuel s env).Gives (· = .normal) := by
  cases fuel with
  | zero =>
    rw [stmt]
    intro m signal m' h
    cases h
  | succ fuel =>
    cases s with
    | exprStmt span e =>
      rw [stmt]
      exact .bind fun _ => .give rfl
    | varDecl span n init =>
      cases init with
      | none =>
        rw [stmt]
        exact .bind fun _ => .give rfl
      | some e =>
        rw [stmt]
        split
        · exact .bind fun _ => .bind fun _ => .bind fun _ => .give rfl
        · exact .bind fun _ => .bind fun _ => .give rfl
    | _ => cases hs

structure FollowsAt (L : Latitude) (st st' : Settings) (n : Nat) : Prop where
  expr {N : Nat} {e e' : Expr} (env : FrameId) : L.Fuel n N → Expr.Matches L e e' →
    Follows L (expr st n e env) (expr st' N e' env) (Value.Matches L)
  exprs {N : Nat} {es es' : List Expr} (env : FrameId) : L.Fuel n N → Expr.MatchesAll L es es' →
    Follows L (exprs st n es env) (exprs st' N es' env) (List.Forall₂ (Value.Matches L))
  apply {N : Nat} {callee callee' : Value} {args args' : List Value} : L.Fuel n N →
    callee.Matches L callee' → List.Forall₂ (Value.Matches L) args args' →
    arity? st callee = some args.length →
    Follows L (apply st n callee args) (apply st' N callee' args') (Value.Matches L)
  method {N : Nat} {f f' : Function} {receiver receiver' : Value} {args args' : List Value} :
    L.Fuel n N → f.Matches L f' → receiver.Matches L receiver' →
    List.Forall₂ (Value.Matches L) args args' →
    Follows L (method st n f receiver args) (method st' N f' receiver' args') (Value.Matches L)
  function {N : Nat} {f f' : Function} {args args' : List Value} (closure : FrameId) :
    L.Fuel n N → f.Matches L f' → List.Forall₂ (Value.Matches L) args args' →
    Follows L (function st n f closure args) (function st' N f' closure args') (Value.Matches L)
  perform {N : Nat} {action action' : Action} : L.Fuel n N →
    Action.Paired (.matching L) () action action' →
    Follows L (perform st n action) (perform st' N action') (Value.Matches L)
  stmt {N : Nat} {s s' : Stmt} (env : FrameId) : L.Fuel n N → Stmt.Matches L s s' →
    Follows L (stmt st n s env) (stmt st' N s' env) (Signal.Matches L)
  stmts {N : Nat} {ss ss' : List Stmt} (env : FrameId) : L.Fuel n N → Stmt.MatchesAll L ss ss' →
    Follows L (stmts st n ss env) (stmts st' N ss' env) (Signal.Matches L)
  whileLoop {N : Nat} {c c' : Expr} {b b' : Stmt} (span : Span) (env : FrameId) : L.Fuel n N →
    Expr.Matches L c c' → Stmt.Matches L b b' →
    Follows L (whileLoop st n span c b env) (whileLoop st' N span c' b' env) (Signal.Matches L)
  forLoop {N : Nat} {c c' i i' : Option Expr} {b b' : Stmt} (span : Span) (env : FrameId) :
    L.Fuel n N → Expr.MatchesOption L c c' → Expr.MatchesOption L i i' → Stmt.Matches L b b' →
    Follows L (forLoop st n span c i b env) (forLoop st' N span c' i' b' env) (Signal.Matches L)
  clauseHolds {N : Nat} {c c' : Option Expr} (env : FrameId) : L.Fuel n N →
    Expr.MatchesOption L c c' →
    Follows L (clauseHolds st n c env) (clauseHolds st' N c' env) fun b b' => b' = b
  unrolled {N : Nat} {c c' i i' : Option Expr} {b b' : Stmt} (span : Span)
    (env : FrameId) : L.loops →
    5 * n ≤ N → Expr.MatchesOption L c c' → Expr.MatchesOption L i i' → Stmt.Matches L b b' →
    Follows L (Eval.forLoop st n span c i b env)
      (Eval.whileLoop st' N span (c'.getD (.literal span (.bool true))) (.asRound span i' b') env)
      (Signal.Matches L)
  rolled {N : Nat} {c c' i i' : Option Expr} {b b' : Stmt} (span : Span) (env : FrameId) : L.loops →
    5 * n ≤ N → Expr.MatchesOption L c c' → Expr.MatchesOption L i i' → Stmt.Matches L b b' →
    Follows L
      (Eval.whileLoop st n span (c.getD (.literal span (.bool true))) (.asRound span i b) env)
      (Eval.forLoop st' N span c' i' b' env) (Signal.Matches L)

theorem followsAt_zero (L : Latitude) (st st' : Settings) : FollowsAt L st st' 0 where
  expr {N} _ _ env hN _ := by
    rw [Eval.expr]
    exact .exhaust (fun N => Eval.expr st' N _ env) hN (by rw [Eval.expr]) ((grows st' N).expr _ _)
  exprs {N} _ _ env hN _ := by
    rw [Eval.exprs]
    exact .exhaust (fun N => Eval.exprs st' N _ env) hN (by rw [Eval.exprs])
      ((grows st' N).exprs _ _)
  apply {N} _ _ _ _ hN _ _ _ := by
    rw [Eval.apply]
    exact .exhaust (fun N => Eval.apply st' N _ _) hN (by rw [Eval.apply]) ((grows st' N).apply _ _)
  method {N} _ _ _ _ _ _ hN _ _ _ := by
    rw [Eval.method]
    exact .exhaust (fun N => Eval.method st' N _ _ _) hN (by rw [Eval.method])
      ((grows st' N).method _ _ _)
  function {N} _ _ _ _ _ hN _ _ := by
    rw [Eval.function]
    exact .exhaust (fun N => Eval.function st' N _ _ _) hN (by rw [Eval.function])
      ((grows st' N).function _ _ _)
  perform {N} _ _ hN _ := by
    rw [Eval.perform]
    exact .exhaust (fun N => Eval.perform st' N _) hN (by rw [Eval.perform])
      ((grows st' N).perform _)
  stmt {N} _ _ env hN _ := by
    rw [Eval.stmt]
    exact .exhaust (fun N => Eval.stmt st' N _ env) hN (by rw [Eval.stmt])
      ((grows st' N).stmt fun _ _ => trivial)
  stmts {N} _ _ env hN _ := by
    rw [Eval.stmts]
    exact .exhaust (fun N => Eval.stmts st' N _ env) hN (by rw [Eval.stmts])
      ((grows st' N).stmts _ fun _ => trivial)
  whileLoop {N} _ _ _ _ span env hN _ _ := by
    rw [Eval.whileLoop]
    exact .exhaust (fun N => Eval.whileLoop st' N span _ _ env) hN (by rw [Eval.whileLoop])
      ((grows st' N).whileLoop _ _ fun _ _ => trivial)
  forLoop {N} _ _ _ _ _ _ span env hN _ _ _ := by
    rw [Eval.forLoop]
    exact .exhaust (fun N => Eval.forLoop st' N span _ _ _ env) hN (by rw [Eval.forLoop])
      ((grows st' N).forLoop _ _ _ _ _)
  clauseHolds {N} _ _ env hN _ := by
    rw [Eval.clauseHolds]
    exact .exhaust (fun N => Eval.clauseHolds st' N _ env) hN (by rw [Eval.clauseHolds])
      ((grows st' N).clauseHolds _ _)
  unrolled {N} _ _ _ _ _ _ span env hL _ _ _ _ := by
    rw [Eval.forLoop]
    exact .outlasted hL ((grows st' N).whileLoop _ _ fun _ _ => trivial)
  rolled {N} _ _ _ _ _ _ span env hL _ _ _ _ := by
    rw [Eval.whileLoop]
    exact .outlasted hL ((grows st' N).forLoop _ _ _ _ _)

variable {L : Latitude} {st st' : Settings} {n N : Nat} {env : FrameId}

theorem grows_afterStmt {rest : Run Signal} (h : rest.Grows) (signal : Signal) :
    (afterStmt rest signal).Grows := by
  cases signal with
  | normal => exact h
  | leaveLoop | leaveFunction v => exact .give _

theorem grows_afterRound {again : Run Signal} (h : again.Grows) (signal : Signal) :
    (afterRound again signal).Grows := by
  cases signal with
  | normal => exact h
  | leaveLoop | leaveFunction v => exact .give _

theorem grows_round (st : Settings) (fuel : Nat) (i : Option Expr) (body : Stmt) (env : FrameId) :
    (round st fuel i body env).Grows :=
  (Run.Grows.steps st).newFrame _ _ fun _ _ => .bind ((grows st fuel).stmt fun _ _ => trivial)
    (grows_afterStmt (.bind ((grows st fuel).clauseHolds _ _) fun _ => .give _))

theorem follows_afterStmt {rest rest' : Run Signal} (h : Follows L rest rest' (Signal.Matches L))
    {signal signal' : Signal} (hsignal : signal.Matches L signal') :
    Follows L (afterStmt rest signal) (afterStmt rest' signal') (Signal.Matches L) := by
  cases hsignal with
  | normal => exact h
  | leaveLoop => exact .give .leaveLoop
  | leaveFunction hv => exact .give (.leaveFunction hv)

theorem follows_afterRound {again again' : Run Signal}
    (h : Follows L again again' (Signal.Matches L))
    {signal signal' : Signal} (hsignal : signal.Matches L signal') :
    Follows L (afterRound again signal) (afterRound again' signal') (Signal.Matches L) := by
  cases hsignal with
  | normal => exact h
  | leaveLoop => exact .give .normal
  | leaveFunction hv => exact .give (.leaveFunction hv)

theorem follows_classDecl (span : Span) (name : Text) (sup : Option NameUse)
    {ms ms' ss ss' : List FunDecl}
    (hms : FunDecl.MatchesAll L ms ms') (hss : FunDecl.MatchesAll L ss ss') :
    Follows L (Eval.stmt st (n + 1) (.classDecl span name sup ms ss) env)
      (Eval.stmt st' (N + 1) (.classDecl span name sup ms' ss') env) (Signal.Matches L) := by
  have hG := Run.Grows.steps st'
  cases sup with
  | none =>
    rw [Eval.stmt, Eval.stmt]
    refine .change (fun h h' hh => hh.define env name .nil) ?_
    exact follows_newClass name .none hms hss env (.give .normal)
  | some sup =>
    rw [Eval.stmt, Eval.stmt]
    refine (follows_readName sup.name sup.span sup.hops).bind (fun v v' hv => ?_) fun v' => ?_
    · cases hv with
      | cls hc =>
        refine .change (fun h h' hh => hh.define env name .nil) ?_
        refine .newFrame env (.single _ (.cls hc)) fun inner => ?_
        exact follows_newClass name (.some hc) hms hss inner (.give .normal)
      | _ => exact .error _ _
    · split
      · exact hG.bind (.change _) fun _ => hG.newFrame _ _ fun _ _ =>
          hG.bind (hG.newClass trivial _ _ _ _) fun _ => .give _
      · exact hG.error _ _

private theorem grows_call (span : Span) (callee : Value) (vs : List Value) :
    Run.Grows (match arity? st' callee with
      | none => Run.error .notCallable span
      | some expected =>
        if vs.length ≠ expected then Run.error (.wrongArity expected vs.length) span
        else counted st' callee span (Eval.apply st' N callee vs)) := by
  have hG := Run.Grows.steps st'
  split
  · exact hG.error _ _
  · split
    · exact hG.error _ _
    · exact .counted _ _ ((grows st' N).apply _ _)

namespace FollowsAt

section

variable (ih : FollowsAt L st st' n) (hN : L.Fuel n N)
include ih hN

private theorem call_succ (hst : st.Matches L st') (span : Span) {f f' : Expr}
    {args args' : List Expr} (hf : Expr.Matches L f f') (hargs : Expr.MatchesAll L args args') :
    Follows L (Eval.expr st (n + 1) (.call span f args) env)
      (Eval.expr st' (N + 1) (.call span f' args') env) (Value.Matches L) := by
  rw [Eval.expr, Eval.expr]
  refine (ih.expr env hN hf).bind (fun callee callee' hcallee => ?_) fun callee' =>
    .bind ((grows st' N).exprs _ _) (grows_call span callee')
  refine (ih.exprs env hN hargs).bind (fun vs vs' hvs => ?_) (grows_call span callee')
  rw [hcallee.arity? hst, ← hvs.length_eq]
  cases harity : arity? st callee with
  | none => exact .error _ _
  | some expected =>
    dsimp only
    split
    · exact .error _ _
    · rename_i hcount
      have hlength : vs.length = expected := Decidable.not_not.1 hcount
      exact .counted hst span hcallee.print (ih.apply hN hcallee hvs (hlength ▸ harity))

private theorem set_succ (span : Span) (name : Text) {o o' e e' : Expr} (ho : Expr.Matches L o o')
    (he : Expr.Matches L e e') :
    Follows L (Eval.expr st (n + 1) (.set span o name e) env)
      (Eval.expr st' (N + 1) (.set span o' name e') env) (Value.Matches L) := by
  have hG := Run.Grows.steps st'
  rw [Eval.expr, Eval.expr]
  refine (ih.expr env hN ho).bind (fun v v' hv => ?_) fun v' => ?_
  · cases hv with
    | object i _ =>
      refine (ih.expr env hN he).bind (fun w w' hw => ?_) fun w' =>
        hG.bind (hG.setField _ _ _) fun _ =>
        .give _
      exact .change (fun h h' hh => hh.setField i name hw) (.give hw)
    | _ => exact .error _ _
  · split
    · exact hG.bind ((grows st' N).expr _ _) fun _ => hG.bind (hG.setField _ _ _) fun _ => .give _
    · exact hG.error _ _

theorem expr_succ (hst : st.Matches L st') {e e' : Expr} (he : Expr.Matches L e e') :
    Follows L (Eval.expr st (n + 1) e env) (Eval.expr st' (N + 1) e' env) (Value.Matches L) := by
  have hG := Run.Grows.steps st'
  have hE := grows st' N
  cases he with
  | literal s v =>
    rw [Eval.expr, Eval.expr]
    exact .give (.ofLiteral L v)
  | grouping s he =>
    rw [Eval.expr, Eval.expr]
    exact ih.expr env hN he
  | unary s op he =>
    rw [Eval.expr, Eval.expr]
    exact (ih.expr env hN he).bind (fun v v' hv => follows_unary s op hv) (hG.unary s op)
  | binary s op ha hb =>
    rw [Eval.expr, Eval.expr]
    refine (ih.expr env hN ha).bind (fun v v' hv => ?_) fun v' =>
      hG.bind (hE.expr _ _) (hG.binary s op v')
    exact (ih.expr env hN hb).bind (fun w w' hw => follows_binary s op hv hw) (hG.binary s op v')
  | logical s op ha hb =>
    rw [Eval.expr, Eval.expr]
    refine (ih.expr env hN ha).bind (fun v v' hv => ?_) fun v' => ?_
    · rw [decides_matches hv op]
      split
      · exact .give hv
      · exact ih.expr env hN hb
    · split
      · exact .give _
      · exact hE.expr _ _
  | conditional s hc ha hb =>
    rw [Eval.expr, Eval.expr]
    refine (ih.expr env hN hc).bind (fun v v' hv => ?_) fun v' => ?_
    · rw [hv.truthy]
      split
      · exact ih.expr env hN ha
      · exact ih.expr env hN hb
    · split
      · exact hE.expr _ _
      · exact hE.expr _ _
  | name use =>
    rw [Eval.expr, Eval.expr]
    exact follows_readName use.name use.span use.hops
  | assign target he =>
    rw [Eval.expr, Eval.expr]
    refine (ih.expr env hN he).bind (fun v v' hv => ?_) fun v' =>
      hG.bind (hG.assignName _ _ _) fun _ =>
      .give _
    exact follows_assignName target hv (.give hv)
  | call s hf hargs => exact ih.call_succ hN hst s hf hargs
  | get s name ho =>
    rw [Eval.expr, Eval.expr]
    exact (ih.expr env hN ho).bind (fun v v' hv => follows_property name s hv) fun v' =>
      hG.property v' name s
  | set s name ho he => exact ih.set_succ hN s name ho he
  | this s hops =>
    rw [Eval.expr, Eval.expr]
    exact follows_readName (lit "this") s hops
  | super s name hops =>
    rw [Eval.expr, Eval.expr]
    exact follows_superMethod s name hops
  | lambda s ps hbody =>
    rw [Eval.expr, Eval.expr]
    exact follows_newFunction [] ps hbody false fun f f' hf => .give (.function hf)

theorem exprs_succ {es es' : List Expr} (hes : Expr.MatchesAll L es es') :
    Follows L (Eval.exprs st (n + 1) es env) (Eval.exprs st' (N + 1) es' env)
      (List.Forall₂ (Value.Matches L)) := by
  cases hes with
  | nil =>
    rw [Eval.exprs, Eval.exprs]
    exact .give .nil
  | cons he hes =>
    rw [Eval.exprs, Eval.exprs]
    refine (ih.expr env hN he).bind (fun v v' hv => ?_) fun v' =>
      .bind ((grows st' N).exprs _ _) fun _ => .give _
    exact (ih.exprs env hN hes).bind (fun vs vs' hvs => .give (.cons hv hvs)) fun _ => .give _

theorem apply_succ (hst : st.Matches L st') {callee callee' : Value} {args args' : List Value}
    (hcallee : callee.Matches L callee') (hargs : List.Forall₂ (Value.Matches L) args args')
    (harity : arity? st callee = some args.length) :
    Follows L (Eval.apply st (n + 1) callee args) (Eval.apply st' (N + 1) callee' args')
      (Value.Matches L) := by
  cases hcallee with
  | @function f f' hf =>
    rw [Eval.apply, Eval.apply, hf.closure]
    exact ih.function f'.closure hN hf hargs
  | method i hf hreceiver =>
    rw [Eval.apply, Eval.apply]
    exact ih.method hN hf hreceiver hargs
  | native i =>
    obtain ⟨nat, hnat, hlength⟩ := Option.map_eq_some_iff.1 harity
    have hnatives := hst.natives i
    rw [hnat] at hnatives
    rw [Eval.apply, Eval.apply, hnat]
    generalize st'.natives[i]? = nat' at hnatives
    cases hnatives with
    | some hsame => exact ih.perform hN (hsame.act args args' hlength.symm hargs)
  | @cls c c' hc =>
    rw [Eval.apply, Eval.apply]
    refine .newObject hc fun object object' hobject => ?_
    have hinit : Option.Rel (Function.Matches L) c.initializer c'.initializer :=
      hc.findMethod (lit "init")
    generalize c.initializer = f, c'.initializer = f' at hinit
    cases hinit with
    | none => exact .give hobject
    | some hf =>
      exact (ih.method hN hf hobject hargs).bind (fun _ _ _ => .give hobject) fun _ => .give _
  | _ => cases harity

theorem method_succ {f f' : Function} {receiver receiver' : Value} {args args' : List Value}
    (hf : f.Matches L f') (hreceiver : receiver.Matches L receiver')
    (hargs : List.Forall₂ (Value.Matches L) args args') :
    Follows L (Eval.method st (n + 1) f receiver args) (Eval.method st' (N + 1) f' receiver' args')
      (Value.Matches L) := by
  rw [Eval.method, Eval.method, hf.closure]
  exact .newFrame _ (.single _ hreceiver) fun closure => ih.function closure hN hf hargs

theorem function_succ {f f' : Function} {args args' : List Value} (closure : FrameId)
    (hf : f.Matches L f') (hargs : List.Forall₂ (Value.Matches L) args args') :
    Follows L (Eval.function st (n + 1) f closure args) (Eval.function st' (N + 1) f' closure args')
      (Value.Matches L) := by
  rw [Eval.function, Eval.function, ← hargs.length_eq, ← hf.outline.arity, ← hf.params]
  split
  · exact .fail _
  · refine .newFrame closure (parameterBindings_matches f.params hargs) fun env => ?_
    exact (ih.stmts env hN hf.body).bind
      (fun signal signal' hsignal => follows_result hf closure hsignal)
      ((Run.Grows.steps st').result f' closure)

theorem perform_succ (hst : st.Matches L st') {action action' : Action}
    (haction : Action.Paired (.matching L) () action action') :
    Follows L (Eval.perform st (n + 1) action)
      (Eval.perform st' (N + 1) action') (Value.Matches L) := by
  cases haction with
  | give hv =>
    rw [Eval.perform, Eval.perform]
    exact .give hv
  | @fail _ f _ hsame =>
    obtain rfl := hsame
    rw [Eval.perform, Eval.perform]
    exact .fail f
  | write line hnext =>
    rw [Eval.perform, Eval.perform]
    exact .write hst line fun fault => ih.perform hN (hnext fault)
  | clock hnext =>
    rw [Eval.perform, Eval.perform, hst.time]
    exact ih.perform hN (hnext st.time)
  | cancel hnext =>
    rw [Eval.perform, Eval.perform]
    intro m m' hm
    exact ih.perform hN hnext { m with canceled := true } { m' with canceled := true }
      ⟨hm.heap, hm.calls, hm.depth, hm.peak, hm.output, hm.events, rfl⟩
  | @invoke _ callee callee' args args' next next' hcallee hargs hrefused hgave hfailed =>
    have hsame : arity? st' callee' = some args'.length ↔ arity? st callee = some args.length := by
      rw [hcallee.arity? hst, ← hargs.length_eq]
    by_cases harity : arity? st callee = some args.length
    · rw [perform_invoke n next harity, perform_invoke N next' (hsame.2 harity)]
      exact (ih.apply hN hcallee hargs harity).settle
        (fun v v' hv => ih.perform hN (hgave () trivial v v' hv))
        (fun f => ih.perform hN (hfailed () trivial f f rfl)) fun r => (grows st' N).perform _
    · rw [perform_refused n next harity, perform_refused N next' (mt hsame.1 harity)]
      exact ih.perform hN hrefused

theorem varDecl_succ (span : Span) (name : Text) {init init' : Option Expr}
    (hinit : Expr.MatchesOption L init init') :
    Follows L (Eval.stmt st (n + 1) (.varDecl span name init) env)
      (Eval.stmt st' (N + 1) (.varDecl span name init') env) (Signal.Matches L) := by
  have hG := Run.Grows.steps st'
  cases hinit with
  | none =>
    rw [Eval.stmt, Eval.stmt]
    exact .change (fun h h' hh => hh.define env name .nil) (.give .normal)
  | @some e e' he =>
    have hrest : Follows L
        (Eval.expr st n e env >>= fun v => Run.change (·.define env name v) >>= fun _ =>
          Run.give Signal.normal)
        (Eval.expr st' N e' env >>= fun v => Run.change (·.define env name v) >>= fun _ =>
          Run.give Signal.normal) (Signal.Matches L) :=
      (ih.expr env hN he).bind
        (fun v v' hv => .change (fun h h' hh => hh.define env name hv) (.give .normal))
        fun v' => hG.bind (.change _) fun _ => .give _
    rw [Eval.stmt, Eval.stmt]
    split
    · exact .change (fun h h' hh => hh.declare env name) hrest
    · exact hrest

theorem ifStmt_succ (span : Span) {c c' : Expr} {a a' : Stmt} {b b' : Option Stmt}
    (hc : Expr.Matches L c c') (ha : Stmt.Matches L a a') (hb : Option.Rel (Stmt.Matches L) b b') :
    Follows L (Eval.stmt st (n + 1) (.ifStmt span c a b) env)
      (Eval.stmt st' (N + 1) (.ifStmt span c' a' b') env) (Signal.Matches L) := by
  unfold Eval.stmt
  refine (ih.expr env hN hc).bind (fun v v' hv => ?_) fun v' => ?_
  · rw [hv.truthy]
    split
    · exact ih.stmt env hN ha
    · cases hb with
      | none => exact .give .normal
      | some hb => exact ih.stmt env hN hb
  · split
    · exact (grows st' N).stmt fun _ _ => trivial
    · split
      · exact (grows st' N).stmt fun _ _ => trivial
      · exact .give _

theorem stmts_succ {ss ss' : List Stmt} (hss : Stmt.MatchesAll L ss ss') :
    Follows L (Eval.stmts st (n + 1) ss env) (Eval.stmts st' (N + 1) ss' env)
      (Signal.Matches L) := by
  cases hss with
  | nil =>
    rw [Eval.stmts, Eval.stmts]
    exact .give .normal
  | cons hs hss =>
    rw [stmts_cons, stmts_cons]
    exact (ih.stmt env hN hs).bind
      (fun _ _ hsignal => follows_afterStmt (ih.stmts env hN hss) hsignal)
      (grows_afterStmt ((grows st' N).stmts _ fun _ => trivial))

theorem whileLoop_succ (span : Span) {c c' : Expr} {b b' : Stmt} (hc : Expr.Matches L c c')
    (hb : Stmt.Matches L b b') :
    Follows L (Eval.whileLoop st (n + 1) span c b env) (Eval.whileLoop st' (N + 1) span c' b' env)
      (Signal.Matches L) := by
  have hagain : ∀ signal, Run.Grows (afterRound (Eval.whileLoop st' N span c' b' env) signal) :=
    grows_afterRound ((grows st' N).whileLoop _ _ fun _ _ => trivial)
  rw [whileLoop_eq_round, whileLoop_eq_round]
  refine .checkCanceled span ((ih.expr env hN hc).bind (fun v v' hv => ?_) fun v' => ?_)
  · rw [hv.truthy]
    split
    · exact .give .normal
    · exact (ih.stmt env hN hb).bind
        (fun _ _ hsignal => follows_afterRound (ih.whileLoop span env hN hc hb) hsignal) hagain
  · split
    · exact .give _
    · exact .bind ((grows st' N).stmt fun _ _ => trivial) hagain

theorem forLoop_succ (span : Span) {c c' i i' : Option Expr} {b b' : Stmt}
    (hc : Expr.MatchesOption L c c') (hi : Expr.MatchesOption L i i') (hb : Stmt.Matches L b b') :
    Follows L (Eval.forLoop st (n + 1) span c i b env) (Eval.forLoop st' (N + 1) span c' i' b' env)
      (Signal.Matches L) := by
  have hE := grows st' N
  have hagain := grows_afterRound (hE.forLoop span c' i' b' env)
  have hround : Follows L (round st n i b env) (round st' N i' b' env) (Signal.Matches L) := by
    refine .newFrame env .nil fun inner => (ih.stmt inner hN hb).bind (fun _ _ hsignal => ?_) ?_
    · refine follows_afterStmt ?_ hsignal
      exact (ih.clauseHolds inner hN hi).bind (fun _ _ _ => .give .normal) fun _ => .give _
    · exact grows_afterStmt (.bind (hE.clauseHolds _ _) fun _ => .give _)
  rw [forLoop_eq_round, forLoop_eq_round]
  refine .checkCanceled span
    ((ih.clauseHolds env hN hc).bind (fun goOn _ hsame => ?_) fun goOn' => ?_)
  · cases hsame
    split
    · exact .give .normal
    · exact hround.bind
        (fun _ _ hsignal => follows_afterRound (ih.forLoop span env hN hc hi hb) hsignal)
        hagain
  · split
    · exact .give _
    · exact .bind (grows_round _ _ _ _ _) hagain

theorem clauseHolds_succ {c c' : Option Expr} (hc : Expr.MatchesOption L c c') :
    Follows L (Eval.clauseHolds st (n + 1) c env) (Eval.clauseHolds st' (N + 1) c' env)
      fun b b' => b' = b := by
  cases hc with
  | none =>
    rw [Eval.clauseHolds, Eval.clauseHolds]
    exact .give rfl
  | some he =>
    rw [Eval.clauseHolds, Eval.clauseHolds]
    exact (ih.expr env hN he).bind (fun v v' hv => .give hv.truthy.symm) fun _ => .give _

end

end FollowsAt

end Eval
end Lox
