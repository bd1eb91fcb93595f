import Lox.Proofs.Bounds.Heeds
import Lox.Proofs.Bounds.Late
import Lox.Proofs.Bounds.Moments
import Lox.Proofs.Run.Session

set_option autoImplicit false
set_option relaxedAutoImplicit false

namespace Lox

open Text (lit)

/-! ### Programs -/

namespace Eval

variable {st : Settings}

private theorem emit_steady (kind : EventKind) (span : Span) (name : Text) (m : Machine) :
    (Run.emit st.steady kind span name m.steady).machine =
      (Run.emit st kind span name m).machine.steady := by
  rw [Run.machine_emit, Run.machine_emit]
  rfl

private theorem closing_steady (p : Program) (o : Outcome Unit) :
    closing st.steady p o.steady = (closing st p o).steady := by
  cases o with
  | done a m => exact congrArg (Outcome.done ()) (emit_steady .runEnd p.span [] m)
  | failed f m => exact congrArg (Outcome.failed f) (emit_steady .runEnd p.span [] m)
  | exhausted m => rfl

private theorem output_closing (st : Settings) (p : Program) (o : Outcome Unit) :
    (closing st p o).machine.output = o.machine.output := by
  obtain ⟨events, hmachine⟩ := machine_closing st p o
  rw [hmachine]

private theorem startSpans_emit {kind : EventKind} (hkind : kind ≠ .callStart)
    (span : Span) (name : Text)
    (m : Machine) : startSpans (Run.emit st kind span name m).machine.events =
    startSpans m.events := by
  rw [Run.machine_emit]
  show startSpans (if st.traced then _ else _) = _
  cases st.traced with
  | true => simp [startSpans, hkind]
  | false => rfl

private theorem startSpans_closing (p : Program) (o : Outcome Unit) :
    startSpans (closing st p o).machine.events = startSpans o.machine.events := by
  cases o with
  | done a m | failed f m =>
    exact startSpans_emit (show EventKind.runEnd ≠ .callStart from nofun) p.span [] m
  | exhausted m => rfl

variable (hnatives : ∀ n ∈ st.natives, n.HandsOn Failure.IsCancellation)
include hnatives

private theorem heeded_program (n : Nat) (p : Program) (m : Machine) :
    Heeded n (program st.steady · p) m (program st n p m, (watching.program st n p [] m).2) := by
  have hscript := (heeds_script hnatives n p.body).heeded [] (opening st p m)
  have hprogram (N : Nat) : program st.steady N p m.steady =
      closing st.steady p (script st.steady N p.body (opening st p m).steady) := by
    rw [program_eq_closing]
    exact congrArg (fun m' => closing _ p (script _ N p.body m'))
      (emit_steady .runStart p.span [] m)
  have hwatched : program st n p m =
      closing st p (watching.script st n p.body [] (opening st p m)).1 := by
    rw [program_eq_closing, (watching.erases_script st n p.body).fst]
  rw [hwatched]
  show Heeded n _ m (_, (watching.script st n p.body [] (opening st p m)).2)
  generalize watching.script st n p.body [] (opening st p m) = r at hscript
  cases hscript with
  | @goesOn o l hl ho =>
    refine .goesOn hl fun hend N hN => ?_
    have hended : o.EndedBut fun _ => False := by
      cases o with
      | done a m' => trivial
      | failed f m' => exact id
      | exhausted m' => exact hend
    show program st.steady N p m.steady = _
    rw [hprogram, ho hended N hN, closing_steady]
  | @stops l span m' hl ho =>
    refine .stops hl fun N hN => ?_
    show _ <:+ (program st.steady N p m.steady).machine.output
    rw [hprogram, output_closing]
    exact output_closing st p (.failed (.runtime .canceled (some span)) m') ▸ ho N hN

private theorem starts_program (n : Nat) (p : Program) (m : Machine) (htraced : st.traced = true) :
    startSpans (program st n p m).machine.events =
      (callSpans (watching.program st n p [] m).2).reverse ++ startSpans m.events := by
  have hscript := (heeds_script hnatives n p.body).starts [] (opening st p m) htraced
  rw [(watching.erases_script st n p.body).fst] at hscript
  rw [program_eq_closing, startSpans_closing]
  exact hscript.trans
    (congrArg _ (startSpans_emit (show EventKind.runStart ≠ .callStart from nofun) p.span [] m))

end Eval

/-! ### Sessions -/

namespace Session

/-- The session as if it had not been canceled, with native functions that do not cancel a run. -/
def steady (s : Session) : Session := { settings := s.settings.steady, machine := s.machine.steady }

/-- The moments of a program that is run in a session. -/
def moments (s : Session) (fuel : Nat) (p : Program) : List Moment :=
  (watching.program s.settings fuel p [] s.machine).2

/-- How a canceled run has ended. It has gone on to its end, which is also that of the run that is
never canceled; or it has failed at the first check after the cancellation, where it stopped. -/
inductive Ended (s : Session) (fuel : Nat) (p : Program) (r : Except RunError Unit) (s' : Session) :
    Prop
  | finished : (∀ x ∈ s.moments fuel p, x.GoesOn) → s.steady.execute fuel p = (r, s'.steady) →
      Ended s fuel p r s'
  | stopped {l : List Moment} {span : Span} : (∀ x ∈ l, x.GoesOn) →
      s.moments fuel p = l ++ [{ kind := .check, span, canceled := true }] →
      r = .error (.failed (.runtime .canceled (some span))) → Ended s fuel p r s'

/-- How a canceled run has gone. -/
structure Canceled (s : Session) (fuel : Nat) (p : Program)
    (r : Except RunError Unit) (s' : Session) :
    Prop where
  stays : StaysCanceled (s.moments fuel p)
  rounds : WithinRounds (s.moments fuel p)
  starts : s.settings.traced = true → startSpans s'.machine.events =
    (callSpans (s.moments fuel p)).reverse ++ startSpans s.machine.events
  output : ∀ fuel', fuel ≤ fuel' →
    s'.machine.written <+: (s.steady.execute fuel' p).2.machine.written
  ended : s.Ended fuel p r s'

private theorem steady_conclude (s : Session) (o : Outcome Unit) :
    s.steady.conclude o.steady = ((s.conclude o).1, (s.conclude o).2.steady) := by
  cases o <;> rfl

private theorem output_suffix_of_heeded {n : Nat} {x : Budgeted Unit}
    {m : Machine} {o : Outcome Unit}
    {l : List Moment} (h : Heeded n x m (o, l)) (hend : o.EndedBut fun _ => False)
    {N : Nat} (hN : n ≤ N) :
    o.machine.output <:+ (x N m.steady).machine.output := by
  cases h with
  | goesOn _ ho =>
    rw [ho hend N hN]
    cases o <;> exact List.suffix_rfl
  | stops _ ho => exact ho N hN

/-- Cancellation stops a run soundly. Native functions have to come to an end by themselves and to
hand on that a call of theirs was canceled. If a run is canceled, before it begins or within some
bound on steps, it ends in the same way under every larger bound. From its cancellation on no call
begins and no round of a loop, so that only the body of a round may be entered that had begun; what
it has written is the beginning of what the run would write that is never canceled; and it ends as
that run does, or fails at the first check after the cancellation, at the call or the loop that made
it. -/
theorem execute_canceled {s : Session}
    (hhandsOn : ∀ n ∈ s.settings.natives, n.HandsOn Failure.IsCancellation)
    (hreturns : ∀ n ∈ s.settings.natives, n.Returns (fun _ => True) s.settings.natives) {fuel : Nat}
    {p : Program} (hcanceled : (s.execute fuel p).2.machine.canceled = true) :
    ∃ enough r s', r ≠ .error .exhausted ∧
      ∀ fuel', enough ≤ fuel' → s.execute fuel' p = (r, s') ∧ s.Canceled fuel' p r s' := by
  have hvalue : (fun _ => True) = Value.LoopsIf True := funext fun v =>
    (eq_true (v.loopsIf_of trivial)).symm
  rw [execute_eq_conclude, machine_conclude] at hcanceled
  obtain ⟨o, ⟨enough, hcomes⟩, ho⟩ := Eval.program_endsCanceled (hvalue ▸ hreturns) hcanceled
  have hended : o.EndedBut fun _ => False := by
    cases ho with
    | done _ _ => trivial
    | failed _ _ => exact id
  have hresult : (s.conclude o).1 ≠ .error .exhausted := by
    cases ho <;> exact nofun
  refine ⟨enough, (s.conclude o).1, (s.conclude o).2, hresult, fun fuel' hfuel => ?_⟩
  have hrun : Eval.program s.settings fuel' p s.machine = o := hcomes fuel' hfuel
  refine ⟨congrArg s.conclude hrun, ?_⟩
  have hheeded := Eval.heeded_program hhandsOn fuel' p s.machine
  rw [hrun] at hheeded
  have horderly := Watching.orderly_script s.settings fuel' p.body
  refine ⟨(horderly.lasts [] _).stays, horderly.rounds [] _, fun htraced =>
    ?_, fun fuel'' hfuel'' => ?_, ?_⟩
  · rw [machine_conclude, ← hrun]
    exact Eval.starts_program hhandsOn fuel' p s.machine htraced
  · rw [execute_eq_conclude, machine_conclude, machine_conclude]
    exact Machine.written_prefix (output_suffix_of_heeded hheeded hended hfuel'')
  · have hmoments : s.moments fuel' p = (watching.program s.settings fuel' p [] s.machine).2 := rfl
    generalize (watching.program s.settings fuel' p [] s.machine).2 = l at hheeded hmoments
    cases hheeded with
    | goesOn hl hsame =>
      refine .finished (hmoments ▸ hl) ?_
      rw [execute_eq_conclude, ← steady_conclude]
      exact congrArg s.steady.conclude (hsame hended fuel' (Nat.le_refl _))
    | stops hl _ => exact .stopped hl hmoments rfl

def canceling : Native where
  name := lit "cancel"
  arity := 0
  act _ := .cancel (.give .nil)

def spinning : Native where
  name := lit "spin"
  arity := 0
  act _ := .cancel (.invoke (.native 0) [] fun _ => .give .nil)

def hosted (natives : List Native) : Session where
  settings := { limit := 3, natives := natives.toArray, traced := true }
  machine := .initial natives

theorem execute_canceled_endless :
    let s := hosted [canceling]
    ∃ p, s.prepare [] (lit "cancel(); print 1; while (true) print 2;") = .ok p ∧
      (s.execute 20 p).2.machine.canceled = true ∧
      ∃ enough r s', r ≠ .error .exhausted ∧
        ∀ fuel', enough ≤ fuel' → s.execute fuel' p = (r, s') ∧ s.Canceled fuel' p r s' := by
  intro s
  obtain ⟨p, hp, hcanceled⟩ := exists_prepare s []
    (lit "cancel(); print 1; while (true) print 2;")
    (fun p => (s.execute 20 p).2.machine.canceled) (by decide +kernel)
  have hnatives : ∀ n ∈ s.settings.natives, n = canceling := by
    intro n hn
    exact List.mem_singleton.1 (List.mem_toArray.1 hn)
  refine ⟨p, hp, hcanceled, execute_canceled (fun n hn => ?_) (fun n hn => ?_) hcanceled⟩
  · rw [hnatives n hn]
    exact fun _ => trivial
  · rw [hnatives n hn]
    exact fun _ _ => .cancel (.give trivial)

private theorem apply_spinning (st : Settings) (h : st.natives[0]? = some spinning) :
    ∀ fuel m, ∃ m', Eval.apply st fuel (.native 0) [] m = .exhausted m'
  | 0, m => ⟨m, by rw [Eval.apply]; rfl⟩
  | 1, m => ⟨m, by simp only [Eval.apply, h, Eval.perform]; rfl⟩
  | 2, m => ⟨_, by simp only [Eval.apply, h, Eval.perform, spinning]; rfl⟩
  | fuel + 3, m => by
    obtain ⟨m', hm'⟩ := apply_spinning st h fuel { m with canceled := true }
    refine ⟨m', ?_⟩
    have harity : Eval.arity? st (.native 0) = some ([] : List Value).length := by
      simp only [Eval.arity?, h]
      rfl
    rw [Eval.apply]
    simp only [h]
    rw [spinning, Eval.perform, Eval.perform_invoke _ _ harity]
    exact Run.settle_exhausted hm'

def callOf (name : Text) : Expr :=
  .call (.nowhere []) (.name { span := .nowhere [], name, hops := none }) []

def spin : Program :=
  { span := .nowhere [], body := [.exprStmt (.nowhere []) (callOf (lit "spin"))] }

private theorem execute_spin : ∀ fuel, ((hosted [spinning]).execute fuel spin).1 = .error .exhausted
  | 0 => by cbv
  | 1 => by cbv
  | 2 => by cbv
  | 3 => by cbv
  | fuel + 4 => by
    let st := (hosted [spinning]).settings
    let m := Eval.opening st spin (hosted [spinning]).machine
    obtain ⟨m', hm'⟩ := apply_spinning st rfl (fuel + 2)
      (Eval.entry st (.native 0) (.nowhere []) m)
    have hname : Eval.expr st (fuel + 2)
      (.name { span := .nowhere [], name := lit "spin", hops := none })
        Heap.globals m = .done (.native 0) m := by
      rw [Eval.expr]
      cbv
    have hargs : Eval.exprs st (fuel + 2) [] Heap.globals m = .done [] m := by
      rw [Eval.exprs]
      rfl
    have hcounted : Eval.counted st (.native 0) (.nowhere [])
      (Eval.apply st (fuel + 2) (.native 0) []) m =
        .exhausted m' := by
      rw [Eval.counted_of_room rfl (by decide), hm']
      rfl
    have hcall : Eval.expr st (fuel + 3) (callOf (lit "spin")) Heap.globals m = .exhausted m' := by
      rw [callOf, Eval.expr, Run.bind_of_done hname, Run.bind_of_done hargs]
      exact hcounted
    have hstmt : Eval.stmt st (fuel + 4)
      (.exprStmt (.nowhere []) (callOf (lit "spin"))) Heap.globals m =
        .exhausted m' := by
      rw [Eval.stmt, Run.bind_of_exhausted hcall]
    have hscript : Eval.script st (fuel + 4) spin.body m = .exhausted m' :=
      Run.bind_of_exhausted hstmt
    rw [execute_eq_conclude, Eval.program_eq_closing]
    exact hscript ▸ rfl

/-- What cancellation does not stop. The body of a round is entered although its condition has
canceled the run; a native function that takes the failure of its call for an answer lets the
program write what it would not have written otherwise; and one that calls itself never comes to a
check. -/
theorem execute_after_cancellation :
    (∃ p, (hosted [canceling]).prepare [] (lit "while (cancel() == nil) print 1;") = .ok p ∧
      ∃ x ∈ (hosted [canceling]).moments 20 p, x.kind = .body ∧ x.canceled = true) ∧
    (∃ p, (hosted [canceling, forgiving]).prepare []
        (lit "fun g() \x7b print 1; \x7d fun f() \x7b cancel(); g(); \x7d attempt(f); print 2;") =
          .ok p ∧
      ((hosted [canceling, forgiving]).execute 40 p).1 = .ok () ∧
      ((hosted [canceling, forgiving]).execute 40 p).2.machine.written = lit "2\n" ∧
      ((hosted [canceling, forgiving]).steady.execute 40 p).2.machine.written = lit "1\n2\n") ∧
    ((hosted [spinning]).execute 10 spin).2.machine.canceled = true ∧
      ∀ fuel, ((hosted [spinning]).execute fuel spin).1 = .error .exhausted := by
  refine ⟨?_, ?_, by cbv, execute_spin⟩
  · obtain ⟨p, hp, hbody⟩ := exists_prepare (hosted [canceling]) []
      (lit "while (cancel() == nil) print 1;")
      (fun p => decide
        (∃ x ∈ (hosted [canceling]).moments 20 p, x.kind = .body ∧ x.canceled = true))
      (by decide +kernel)
    exact ⟨p, hp, of_decide_eq_true hbody⟩
  · obtain ⟨p, hp, hends⟩ := exists_prepare (hosted [canceling, forgiving]) []
      (lit "fun g() \x7b print 1; \x7d fun f() \x7b cancel(); g(); \x7d attempt(f); print 2;")
      (fun p =>
        decide (((hosted [canceling, forgiving]).execute 40 p).1.toOption = some () ∧
          ((hosted [canceling, forgiving]).execute 40 p).2.machine.written = lit "2\n" ∧
          ((hosted [canceling, forgiving]).steady.execute 40 p).2.machine.written = lit "1\n2\n"))
      (by decide +kernel)
    obtain ⟨hok, hwritten⟩ := of_decide_eq_true hends
    exact ⟨p, hp, eq_ok_of_toOption hok, hwritten⟩

end Session

end Lox
