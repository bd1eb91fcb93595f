import Lox.Proofs.Simulation.Evaluation

set_option autoImplicit false
set_option relaxedAutoImplicit false

namespace Lox

open Text (lit)

namespace Eval

private theorem stmts_exprStmt (st : Settings) (fuel : Nat) (span : Span)
    (e : Expr) (env : FrameId) :
    stmts st (fuel + 2) [.exprStmt span e] env = expr st fuel e env >>=
      fun _ => Run.give .normal := by
  rw [stmts, stmt, Run.bind_assoc]
  refine congrArg _ (funext fun v => ?_)
  rw [Run.give_bind]
  show stmts st (fuel + 1) [] env = _
  rw [stmts]

namespace FollowsAt

variable {L : Latitude} {st st' : Settings} {n N : Nat} {env : FrameId}

section

variable (hL : L.loops) (ih : ∀ k, k ≤ n → FollowsAt L st st' k) (hN : 5 * n + 4 ≤ N)
  {c c' i i' : Option Expr} {b b' : Stmt} (span : Span)
include hL ih hN

/-! ### From a loop with clauses to a loop with a condition -/

private theorem condition_unrolled (hc : Expr.MatchesOption L c c') :
    Follows L (Eval.clauseHolds st n c env)
      (Eval.expr st' N (c'.getD (.literal span (.bool true))) env) fun goOn v =>
        goOn = v.truthy := by
  obtain ⟨M, rfl⟩ : ∃ M, N = M + 1 := ⟨N - 1, by omega⟩
  cases n with
  | zero =>
    rw [Eval.clauseHolds]
    exact .outlasted hL ((grows st' _).expr _ _)
  | succ n =>
    cases hc with
    | none =>
      rw [Eval.clauseHolds, Option.getD_none, Eval.expr]
      exact .give rfl
    | some he =>
      rw [Eval.clauseHolds, Option.getD_some]
      exact ((ih n (by omega)).expr env (.of_loops hL (by omega)) he).bind_give
        fun v v' hv => hv.truthy

private theorem lastClause_unrolled (hi : Expr.MatchesOption L i i') :
    Follows L (Eval.clauseHolds st n i env >>= fun _ => Run.give Signal.normal)
      (Eval.stmts st' (N - 2) (i'.map (.exprStmt span)).toList env) (Signal.Matches L) := by
  obtain ⟨M, rfl⟩ : ∃ M, N = M + 4 := ⟨N - 4, by omega⟩
  show Follows L _ (Eval.stmts st' (M + 2) _ env) _
  cases n with
  | zero =>
    rw [Eval.clauseHolds]
    exact .outlasted hL ((grows st' _).stmts _ fun _ => trivial)
  | succ n =>
    cases hi with
    | none =>
      rw [Eval.clauseHolds, Run.give_bind, Option.map_none, Option.toList_none, Eval.stmts]
      exact .give .normal
    | @some e e' he =>
      rw [Option.map_some, Option.toList_some, stmts_exprStmt, Eval.clauseHolds, Run.bind_assoc]
      exact ((ih n (by omega)).expr env (.of_loops hL (by omega)) he).bind
        (fun _ _ _ => .give .normal)
        fun _ => .give _

private theorem round_unrolled (hi : Expr.MatchesOption L i i') (hb : Stmt.Matches L b b') :
    Follows L (round st n i b env) (Eval.stmt st' N (.asRound span i' b') env)
      (Signal.Matches L) := by
  obtain ⟨M, rfl⟩ : ∃ M, N = M + 4 := ⟨N - 4, by omega⟩
  rw [round, Stmt.asRound, Eval.stmt]
  refine .newFrame env .nil fun inner => ?_
  rw [stmts_cons]
  exact ((ih n (Nat.le_refl _)).stmt inner (.of_loops hL (by omega)) hb).bind
    (fun _ _ hsignal => follows_afterStmt (lastClause_unrolled hL ih hN span hi) hsignal)
    (grows_afterStmt ((grows st' _).stmts _ fun _ => trivial))

private theorem unrolled_succ (hc : Expr.MatchesOption L c c') (hi : Expr.MatchesOption L i i')
    (hb : Stmt.Matches L b b') :
    Follows L (Eval.forLoop st (n + 1) span c i b env)
      (Eval.whileLoop st' (N + 1) span (c'.getD (.literal span (.bool true)))
        (.asRound span i' b') env)
      (Signal.Matches L) := by
  have hagain := (ih n (Nat.le_refl _)).unrolled span env hL (N := N) (by omega) hc hi hb
  have hwhile : (Eval.whileLoop st' N span (c'.getD (.literal span (.bool true)))
      (.asRound span i' b') env).Grows := (grows st' N).whileLoop span _ fun _ _ => trivial
  have hgrows := grows_afterRound hwhile
  rw [forLoop_eq_round, whileLoop_eq_round]
  refine .checkCanceled span
    ((condition_unrolled hL ih hN span hc).bind (fun goOn v hgoOn => ?_) fun v => ?_)
  · rw [hgoOn]
    split
    · exact .give .normal
    · exact (round_unrolled hL ih hN span hi hb).bind
        (fun _ _ hsignal => follows_afterRound hagain hsignal) hgrows
  · split
    · exact .give _
    · exact .bind ((grows st' N).stmt fun _ _ => trivial) hgrows

/-! ### From a loop with a condition to a loop with clauses -/

private theorem condition_rolled (hc : Expr.MatchesOption L c c') :
    Follows L (Eval.expr st n (c.getD (.literal span (.bool true))) env)
      (Eval.clauseHolds st' N c' env) fun v goOn => goOn = v.truthy := by
  obtain ⟨M, rfl⟩ : ∃ M, N = M + 1 := ⟨N - 1, by omega⟩
  cases n with
  | zero =>
    rw [Eval.expr]
    exact .outlasted hL ((grows st' _).clauseHolds _ _)
  | succ n =>
    cases hc with
    | none =>
      rw [Eval.clauseHolds, Option.getD_none, Eval.expr]
      exact .give rfl
    | some he =>
      rw [Eval.clauseHolds, Option.getD_some]
      exact ((ih (n + 1) (Nat.le_refl _)).expr env (.of_loops hL (by omega)) he).give_bind
        fun v v' hv =>
        hv.truthy.symm

private theorem lastClause_rolled (hi : Expr.MatchesOption L i i') :
    Follows L (Eval.stmts st n (i.map (.exprStmt span)).toList env)
      (Eval.clauseHolds st' N i' env >>= fun _ => Run.give Signal.normal) (Signal.Matches L) := by
  have hgrows : Run.Grows (Eval.clauseHolds st' N i' env >>= fun _ => Run.give Signal.normal) :=
    .bind ((grows st' N).clauseHolds _ _) fun _ => .give _
  obtain ⟨M, rfl⟩ : ∃ M, N = M + 1 := ⟨N - 1, by omega⟩
  cases n with
  | zero =>
    rw [Eval.stmts]
    exact .outlasted hL hgrows
  | succ n =>
    cases hi with
    | none =>
      rw [Eval.clauseHolds, Run.give_bind, Option.map_none, Option.toList_none, Eval.stmts]
      exact .give .normal
    | @some e e' he =>
      cases n with
      | zero =>
        rw [Option.map_some, Option.toList_some, Eval.stmts, Eval.stmt]
        exact .outlasted hL hgrows
      | succ n =>
        rw [Option.map_some, Option.toList_some, stmts_exprStmt, Eval.clauseHolds, Run.bind_assoc]
        exact ((ih n (by omega)).expr env (.of_loops hL (by omega)) he).bind
          (fun _ _ _ => .give .normal)
          fun _ => .give _

private theorem round_rolled (hi : Expr.MatchesOption L i i') (hb : Stmt.Matches L b b') :
    Follows L (Eval.stmt st n (.asRound span i b) env) (round st' N i' b' env)
      (Signal.Matches L) := by
  have hrest : ∀ inner signal, Run.Grows
      (afterStmt (Eval.clauseHolds st' N i' inner >>= fun _ => Run.give Signal.normal) signal) :=
    fun inner => grows_afterStmt (.bind ((grows st' N).clauseHolds _ _) fun _ => .give _)
  rw [Stmt.asRound]
  match n with
  | 0 =>
    rw [Eval.stmt]
    exact .outlasted hL (grows_round _ _ _ _ _)
  | 1 =>
    rw [Eval.stmt]
    refine .newFrame env .nil fun inner => ?_
    rw [Eval.stmts]
    exact .outlasted hL (.bind ((grows st' N).stmt fun _ _ => trivial) (hrest inner))
  | n + 2 =>
    rw [Eval.stmt]
    refine .newFrame env .nil fun inner => ?_
    rw [stmts_cons]
    refine ((ih n (by omega)).stmt inner (.of_loops hL (by omega)) hb).bind
      (fun _ _ hsignal => follows_afterStmt ?_ hsignal) (hrest inner)
    exact lastClause_rolled hL (fun k hk => ih k (by omega)) (by omega) span hi

private theorem rolled_succ (hc : Expr.MatchesOption L c c') (hi : Expr.MatchesOption L i i')
    (hb : Stmt.Matches L b b') :
    Follows L
      (Eval.whileLoop st (n + 1) span (c.getD (.literal span (.bool true))) (.asRound span i b) env)
      (Eval.forLoop st' (N + 1) span c' i' b' env) (Signal.Matches L) := by
  have hagain := (ih n (Nat.le_refl _)).rolled span env hL (N := N) (by omega) hc hi hb
  have hgrows := grows_afterRound ((grows st' N).forLoop span c' i' b' env)
  rw [forLoop_eq_round, whileLoop_eq_round]
  refine .checkCanceled span
    ((condition_rolled hL ih hN span hc).bind (fun v goOn hgoOn => ?_) fun goOn => ?_)
  · rw [hgoOn]
    split
    · exact .give .normal
    · exact (round_rolled hL ih hN span hi hb).bind
        (fun _ _ hsignal => follows_afterRound hagain hsignal) hgrows
  · split
    · exact .give _
    · exact .bind (grows_round _ _ _ _ _) hgrows

end

section

variable (ih : ∀ k, k ≤ n → FollowsAt L st st' k) (hN : L.Fuel (n + 1) (N + 1))
  {init init' : Stmt} {c c' i i' : Option Expr} {b b' : Stmt} (span : Span)
include ih hN

private theorem unrolledInit_succ (hL : L.loops) (hclause : init.isClause = true)
    (hinit : Stmt.Matches L init init') (hc : Expr.MatchesOption L c c')
    (hi : Expr.MatchesOption L i i') (hb : Stmt.Matches L b b') :
    Follows L (Eval.stmt st (n + 1) (.forStmt span (some init) c i b) env)
      (Eval.stmt st' (N + 1) (.block span [init', .asWhile span c' i' b']) env)
        (Signal.Matches L) := by
  have hle := hN.1 hL
  obtain ⟨M, rfl⟩ : ∃ M, N = M + 4 := ⟨N - 4, by omega⟩
  have hloop : ∀ outer, Eval.stmts st' (M + 3) [.asWhile span c' i' b'] outer =
      Eval.whileLoop st' (M + 1) span (c'.getD (.literal span (.bool true)))
        (.asRound span i' b') outer
        >>= Run.give := by
    intro outer
    rw [stmts_cons, Stmt.asWhile, Eval.stmt, Eval.stmts]
    refine congrArg _ (funext fun signal => ?_)
    cases signal <;> rfl
  have hgrows : ∀ outer, Run.Grows (Eval.stmts st' (M + 3) [.asWhile span c' i' b'] outer) :=
    fun _ => (grows st' _).stmts _ fun _ => trivial
  rw [Eval.stmt, Eval.stmt]
  refine .newFrame env .nil fun outer => ?_
  rw [stmts_cons]
  have hfirst :=
    ((ih n (Nat.le_refl _)).stmt outer (N := M + 3) (.of_loops hL (by omega)) hinit).and_gives
    (stmt_clause_gives hclause st n outer)
  refine hfirst.bind (fun signal signal' hsignal => ?_) (grows_afterStmt (hgrows outer))
  obtain ⟨hsignal, rfl⟩ := hsignal
  cases hsignal with
  | normal =>
    show Follows L _ (Eval.stmts st' (M + 3) _ outer) _
    rw [hloop]
    exact ((ih n (Nat.le_refl _)).unrolled span outer hL (by omega) hc hi hb).give_bind fun _ _ =>
      id

private theorem rolledInit_succ (hL : L.loops) (hclause : init.isClause = true)
    (hinit : Stmt.Matches L init init') (hc : Expr.MatchesOption L c c')
    (hi : Expr.MatchesOption L i i') (hb : Stmt.Matches L b b') :
    Follows L (Eval.stmt st (n + 1) (.block span [init, .asWhile span c i b]) env)
      (Eval.stmt st' (N + 1) (.forStmt span (some init') c' i' b') env) (Signal.Matches L) := by
  have hle := hN.1 hL
  have hgrows : ∀ outer, Run.Grows (Eval.forLoop st' N span c' i' b' outer) :=
    fun outer => (grows st' N).forLoop _ _ _ _ _
  have hloop : ∀ outer, Follows L (Eval.stmts st (n - 1) [.asWhile span c i b] outer)
      (Eval.forLoop st' N span c' i' b' outer) (Signal.Matches L) := by
    intro outer
    rcases n with _ | _ | _ | n
    · rw [Eval.stmts]
      exact .outlasted hL (hgrows outer)
    · rw [Eval.stmts]
      exact .outlasted hL (hgrows outer)
    · show Follows L (Eval.stmts st 1 _ outer) _ _
      rw [stmts_cons, Stmt.asWhile, Eval.stmt]
      exact .outlasted hL (hgrows outer)
    · have hafter : ∀ signal,
          afterStmt (Eval.stmts st (n + 1) [] outer) signal = Run.give signal := by
        intro signal
        rw [Eval.stmts]
        cases signal <;> rfl
      show Follows L (Eval.stmts st (n + 2) _ outer) _ _
      rw [stmts_cons, Stmt.asWhile, Eval.stmt, funext hafter]
      exact ((ih n (by omega)).rolled span outer hL (by omega) hc hi hb).bind_give fun _ _ => id
  rw [Eval.stmt, Eval.stmt]
  refine .newFrame env .nil fun outer => ?_
  cases n with
  | zero =>
    rw [Eval.stmts]
    exact .outlasted hL (.bind ((grows st' N).stmt fun _ _ => trivial) fun _ => hgrows outer)
  | succ n =>
    rw [stmts_cons]
    have hfirst := ((ih n (by omega)).stmt outer (N := N) (.of_loops hL (by omega)) hinit).and_gives
      (stmt_clause_gives hclause st n outer)
    refine hfirst.bind (fun signal signal' hsignal => ?_) fun _ => hgrows outer
    obtain ⟨-, rfl⟩ := hsignal
    exact hloop outer

private theorem stmt_succ {s s' : Stmt} (hst : st.Matches L st') (hs : Stmt.Matches L s s') :
    Follows L (Eval.stmt st (n + 1) s env) (Eval.stmt st' (N + 1) s' env) (Signal.Matches L) := by
  have hG := Run.Grows.steps st'
  have hE := grows st' N
  have ihn := ih n (Nat.le_refl _)
  have hn := hN.of_succ
  cases hs with
  | exprStmt s he =>
    rw [Eval.stmt, Eval.stmt]
    exact (ihn.expr env hn he).bind (fun _ _ _ => .give .normal) fun _ => .give _
  | printStmt s he =>
    rw [Eval.stmt, Eval.stmt]
    refine (ihn.expr env hn he).bind (fun v v' hv => ?_) fun _ =>
      .bind (hG.write _) fun _ => .give _
    rw [hv.print]
    exact .write hst _ fun _ => .give .normal
  | varDecl s name hinit => exact ihn.varDecl_succ hn s name hinit
  | block s hbody =>
    rw [Eval.stmt, Eval.stmt]
    exact .newFrame env .nil fun inner => ihn.stmts inner hn hbody
  | ifThen s hc ha => exact ihn.ifStmt_succ hn s hc ha .none
  | ifElse s hc ha hb => exact ihn.ifStmt_succ hn s hc ha (.some hb)
  | whileStmt s hc hb =>
    rw [Eval.stmt, Eval.stmt]
    exact ihn.whileLoop s env hn hc hb
  | forStmt s hc hi hb =>
    rw [Eval.stmt, Eval.stmt]
    exact ihn.forLoop s env hn hc hi hb
  | forInit s hinit hc hi hb =>
    rw [Eval.stmt, Eval.stmt]
    refine .newFrame env .nil fun outer => ?_
    exact (ihn.stmt outer hn hinit).bind (fun _ _ _ => ihn.forLoop s outer hn hc hi hb) fun _ =>
      hE.forLoop _ _ _ _ _
  | unrolled s hL hc hi hb =>
    have hle := hN.1 hL
    rw [Eval.stmt, Stmt.asWhile, Eval.stmt]
    exact ihn.unrolled s env hL (by omega) hc hi hb
  | unrolledInit s hL hclause hinit hc hi hb =>
    exact unrolledInit_succ ih hN s hL hclause hinit hc hi hb
  | rolled s hL hc hi hb =>
    have hle := hN.1 hL
    rw [Eval.stmt, Stmt.asWhile, Eval.stmt]
    exact ihn.rolled s env hL (by omega) hc hi hb
  | rolledInit s hL hclause hinit hc hi hb =>
    exact rolledInit_succ ih hN s hL hclause hinit hc hi hb
  | breakStmt s =>
    rw [Eval.stmt, Eval.stmt]
    exact .give .leaveLoop
  | returnStmt s he =>
    cases he with
    | none =>
      rw [Eval.stmt, Eval.stmt]
      exact .give (.leaveFunction .nil)
    | some he =>
      rw [Eval.stmt, Eval.stmt]
      exact (ihn.expr env hn he).bind (fun v v' hv => .give (.leaveFunction hv)) fun _ => .give _
  | funDecl hd =>
    obtain ⟨s, name, ps, hbody⟩ := hd
    rw [Eval.stmt, Eval.stmt]
    exact follows_newFunction name ps hbody false fun f f' hf =>
      .change (fun h h' hh => hh.define env name (.function hf)) (.give .normal)
  | classDecl s name sup hms hss => exact follows_classDecl s name sup hms hss

end

private theorem succ (hst : st.Matches L st') (ih : ∀ k, k ≤ n → FollowsAt L st st' k) :
    FollowsAt L st st' (n + 1) where
  expr env hN he := by
    obtain ⟨N, rfl⟩ := hN.pos
    exact (ih n (Nat.le_refl _)).expr_succ hN.of_succ hst he
  exprs env hN hes := by
    obtain ⟨N, rfl⟩ := hN.pos
    exact (ih n (Nat.le_refl _)).exprs_succ hN.of_succ hes
  apply hN hcallee hargs harity := by
    obtain ⟨N, rfl⟩ := hN.pos
    exact (ih n (Nat.le_refl _)).apply_succ hN.of_succ hst hcallee hargs harity
  method hN hf hreceiver hargs := by
    obtain ⟨N, rfl⟩ := hN.pos
    exact (ih n (Nat.le_refl _)).method_succ hN.of_succ hf hreceiver hargs
  function closure hN hf hargs := by
    obtain ⟨N, rfl⟩ := hN.pos
    exact (ih n (Nat.le_refl _)).function_succ hN.of_succ closure hf hargs
  perform hN haction := by
    obtain ⟨N, rfl⟩ := hN.pos
    exact (ih n (Nat.le_refl _)).perform_succ hN.of_succ hst haction
  stmt env hN hs := by
    obtain ⟨N, rfl⟩ := hN.pos
    exact stmt_succ ih hN hst hs
  stmts env hN hss := by
    obtain ⟨N, rfl⟩ := hN.pos
    exact (ih n (Nat.le_refl _)).stmts_succ hN.of_succ hss
  whileLoop span env hN hc hb := by
    obtain ⟨N, rfl⟩ := hN.pos
    exact (ih n (Nat.le_refl _)).whileLoop_succ hN.of_succ span hc hb
  forLoop span env hN hc hi hb := by
    obtain ⟨N, rfl⟩ := hN.pos
    exact (ih n (Nat.le_refl _)).forLoop_succ hN.of_succ span hc hi hb
  clauseHolds env hN hc := by
    obtain ⟨N, rfl⟩ := hN.pos
    exact (ih n (Nat.le_refl _)).clauseHolds_succ hN.of_succ hc
  unrolled span env hL hN hc hi hb := by
    obtain ⟨N, rfl⟩ := Latitude.Fuel.pos (.of_loops hL hN)
    exact unrolled_succ hL ih (by omega) span hc hi hb
  rolled span env hL hN hc hi hb := by
    obtain ⟨N, rfl⟩ := Latitude.Fuel.pos (.of_loops hL hN)
    exact rolled_succ hL ih (by omega) span hc hi hb

end FollowsAt

theorem followsAt {L : Latitude} {st st' : Settings} (hst : st.Matches L st') (n : Nat) :
    FollowsAt L st st' n := by
  induction n using Nat.strongRecOn with
  | ind n ih =>
    cases n with
    | zero => exact followsAt_zero L st st'
    | succ n => exact .succ hst fun k hk => ih k (Nat.lt_succ_of_le hk)

end Eval
end Lox
