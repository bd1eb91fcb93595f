import Lox.Proofs.Bounds.Roomier
import Lox.Proofs.Run.Grows

set_option autoImplicit false
set_option relaxedAutoImplicit false

namespace Lox

open Text (lit)

/-! ### Runs that are never canceled -/

def Action.steady : Action → Action
  | .give v => .give v
  | .fail f => .fail f
  | .write line next => .write line fun fault => (next fault).steady
  | .clock next => .clock fun t => (next t).steady
  | .cancel next => next.steady
  | .invoke callee args next => .invoke callee args fun r => (next r).steady

def Native.steady (n : Native) : Native := { n with act := fun args => (n.act args).steady }

def Settings.steady (st : Settings) : Settings :=
  { st with natives := st.natives.map Native.steady }

/-- Whether a failure says that the run was canceled. -/
def Failure.IsCancellation : Failure → Prop
  | .runtime .canceled _ => True
  | _ => False

/-! ### Moments -/

/-- A moment of a run that goes on. Once it is canceled nothing happens any more but that the body
of a round is entered that had begun. -/
def Moment.GoesOn (x : Moment) : Prop := x.canceled = true → x.kind = .body

def callSpans (l : List Moment) : List Span := (l.filter fun x => x.kind = .call).map Moment.span

def startSpans (es : List Event) : List Span :=
  (es.filter fun e => e.kind = .callStart).map Event.span

/-- How a computation has gone from a machine: with the moments of a run that goes on, and then it
has ended as it would if it were never canceled; or it has failed at the first check after the
cancellation, and what it has written is the beginning of what it would have written. -/
inductive Heeded {α : Type} (n : Nat) (x : Budgeted α) (m : Machine) :
    Outcome α × List Moment → Prop
  | goesOn {o : Outcome α} {l : List Moment} : (∀ y ∈ l, y.GoesOn) →
      (o.EndedBut (fun _ => False) → ∀ N, n ≤ N → x N m.steady = o.steady) → Heeded n x m (o, l)
  | stops {l : List Moment} {span : Span} {m' : Machine} : (∀ y ∈ l, y.GoesOn) →
      (∀ N, n ≤ N → m'.output <:+ (x N m.steady).machine.output) →
      Heeded n x m (.failed (.runtime .canceled (some span)) m',
        l ++ [{ kind := .check, span, canceled := true }])

/-- A watched computation heeds that it is canceled, compared with one that is not, and its calls
are those that are recorded. -/
structure Heeds (st : Settings) {α : Type} (n : Nat) (t : Budgeted.Watched α) (x : Budgeted α) :
    Prop where
  heeded (past : List Moment) (m : Machine) : Heeded n x m (t n past m)
  starts (past : List Moment) (m : Machine) : st.traced = true →
    startSpans (t n past m).1.machine.events =
      (callSpans (t n past m).2).reverse ++ startSpans m.events
  grows (N : Nat) : n ≤ N → (x N).Grows

private theorem callSpans_append (l l' : List Moment) :
    callSpans (l ++ l') = callSpans l ++ callSpans l' := by
  simp [callSpans]

private theorem Run.Grows.before_settle {α β : Type} {x : Run α} {k : Except Failure α → Run β}
    (hk : ∀ r, (k r).Grows) (m : Machine) : (x m).machine.Before (x.settle k m).machine := by
  unfold Run.settle
  cases x m with
  | done a m' => exact hk (.ok a) m'
  | failed f m' => exact hk (.error f) m'
  | exhausted m' => exact .refl m'

namespace Heeded

variable {α : Type} {n : Nat} {x : Budgeted α} {m : Machine}

/-- The run that is never canceled may be another one that ends the same, after more steps or fewer.
-/
theorem follow {n' : Nat} {y : Budgeted α} {m' : Machine} {r : Outcome α × List Moment}
    (h : Heeded n' y m' r)
    (hsame : ∀ N, n ≤ N → ∃ N', n' ≤ N' ∧ x N m.steady = y N' m'.steady) : Heeded n x m r := by
  cases h with
  | goesOn hl ho =>
    refine .goesOn hl fun hend N hN => ?_
    obtain ⟨N', hN', heq⟩ := hsame N hN
    exact heq.trans (ho hend N' hN')
  | stops hl ho =>
    refine .stops hl fun N hN => ?_
    obtain ⟨N', hN', heq⟩ := hsame N hN
    exact heq ▸ ho N' hN'

private theorem prepend {o : Outcome α} {k l : List Moment} (hk : ∀ y ∈ k, y.GoesOn)
    (h : Heeded n x m (o, l)) : Heeded n x m (o, k ++ l) := by
  have happend : ∀ {l : List Moment}, (∀ y ∈ l, y.GoesOn) → ∀ y ∈ k ++ l, y.GoesOn :=
    fun hl y hy => (List.mem_append.1 hy).elim (hk y) (hl y)
  cases h with
  | goesOn hl ho => exact .goesOn (happend hl) ho
  | stops hl ho =>
    rw [← List.append_assoc]
    exact .stops (happend hl) ho

end Heeded

namespace Heeds

variable {st : Settings} {α β : Type} {n : Nat}

private theorem shift {x : Budgeted α} {P : Run α → Prop} (h : ∀ N, n ≤ N → P (x (N + 1))) :
    ∀ N, n + 1 ≤ N → P (x N) := by
  intro N hN
  obtain ⟨k, rfl⟩ := Nat.exists_eq_add_of_le' hN
  exact h (k + n) (Nat.le_add_left n k)

private theorem later {t : Budgeted.Watched α} {x : Budgeted α}
    (h : Heeds st n (fun k => t (k + 1)) (fun k => x (k + 1))) : Heeds st (n + 1) t x where
  heeded past m := (h.heeded past m).follow fun N hN => by
    obtain ⟨k, rfl⟩ := Nat.exists_eq_add_of_le' hN
    exact ⟨k + n, Nat.le_add_left n k, rfl⟩
  starts := h.starts
  grows := shift h.grows

private theorem unstarted {t : Budgeted.Watched α} {x : Budgeted α} (ht : t 0 = .quiet Run.exhaust)
    (hx : ∀ N, (x N).Grows) : Heeds st 0 t x where
  heeded past m := by
    rw [ht]
    exact .goesOn nofun False.elim
  starts past m _ := by
    rw [ht]
    rfl
  grows N _ := hx N

/-- A computation without moments that does not look at whether the run is canceled, and records
nothing. -/
theorem quiet {x : Run α} (hsteady : ∀ m, x m.steady = (x m).steady) (hgrows : x.Grows)
    (hevents : ∀ m, (x m).machine.events = m.events) :
    Heeds st n (fun _ => .quiet x) (fun _ => x) where
  heeded _ m := .goesOn nofun fun _ _ _ => hsteady m
  starts _ m _ := congrArg startSpans (hevents m)
  grows _ _ := hgrows

private theorem brief {x : Run α} {Q : α → Prop} (hx : x.Brief True Q) :
    Heeds st n (fun _ => .quiet x) (fun _ => x) := by
  have hends := fun m : Machine => hx.ends m (m.heap.loopsIf_of trivial)
  refine quiet (fun m => hx.steady m (m.heap.loopsIf_of trivial)) (fun m => ?_) fun m => ?_
  · have hm := hends m
    generalize x m = o at hm
    cases hm with
    | done _ houtput _ | failed _ houtput _ =>
      exact ⟨houtput, List.suffix_rfl, Nat.le_refl _, Nat.le_refl _⟩
  · have hm := hends m
    generalize x m = o at hm
    cases hm <;> rfl

private theorem fail (f : Failure) :
    Heeds st n (fun _ => .quiet (Run.fail f : Run α)) (fun _ => Run.fail f) :=
  quiet (fun _ => rfl) Machine.Before.refl fun _ => rfl

/-- One computation after another that is told how the first has ended. What follows a failure of
the first because the run is canceled has to hand it on at once. -/
theorem settle {t : Budgeted.Watched α} {x : Budgeted α}
    {k : Nat → Except Failure α → Noted Moment β}
    {l : Nat → Except Failure α → Run β} (ht : Heeds st n t x)
    (hk : ∀ r, Heeds st n (fun i => k i r) (fun i => l i r))
    (hstop : ∀ f past m m', f.IsCancellation → (t n past m).1 = .failed f m' →
      ∀ later, k n (.error f) later m' = (.failed f m', [])) :
    Heeds st n (fun i => (t i).settle (k i)) (fun i => (x i).settle (l i)) where
  heeded past m := by
    have hfirst := ht.heeded past m
    show Heeded n (fun i => (x i).settle (l i)) m ((t n).settle (k n) past m)
    rcases hrun : t n past m with ⟨o, l₁⟩
    rw [hrun] at hfirst
    cases hfirst with
    | goesOn hl₁ ho =>
      obtain ⟨r, m', rfl⟩ | ⟨m', rfl⟩ := o.eq_ofResult_or_exhausted
      · rw [Noted.settle_ofResult hrun]
        have hsame : ∀ N, n ≤ N → (x N).settle (l N) m.steady = l N r m'.steady := by
          intro N hN
          have hx : x N m.steady = .ofResult r m'.steady := by
            rw [ho (by cases r <;> first | trivial | exact id) N hN]
            cases r <;> rfl
          exact Run.settle_ofResult hx
        have hsecond : Heeded n (fun i => l i r) m' (k n r (past ++ l₁) m') := (hk r).heeded _ m'
        exact (hsecond.follow fun N hN => ⟨N, hN, hsame N hN⟩).prepend hl₁
      · rw [Noted.settle_exhausted hrun]
        exact .goesOn hl₁ False.elim
    | @stops l₁ span m' hl₁ ho =>
      have hrest :=
        hstop (.runtime .canceled (some span)) past m m' trivial (congrArg Prod.fst hrun)
      rw [Noted.settle_ofResult (r := .error _) hrun, hrest, List.append_nil]
      exact .stops hl₁ fun N hN =>
        (ho N hN).trans (Run.Grows.before_settle (fun r => (hk r).grows N hN) _).output
  starts past m htraced := by
    have hfirst := ht.starts past m htraced
    show startSpans ((t n).settle (k n) past m).1.machine.events =
      (callSpans ((t n).settle (k n) past m).2).reverse ++ startSpans m.events
    rcases hrun : t n past m with ⟨o, l₁⟩
    rw [hrun] at hfirst
    obtain ⟨r, m', rfl⟩ | ⟨m', rfl⟩ := o.eq_ofResult_or_exhausted
    · rw [Noted.settle_ofResult hrun]
      have hm' : (Outcome.ofResult r m').machine = m' := by cases r <;> rfl
      have hsecond : startSpans (k n r (past ++ l₁) m').1.machine.events =
          (callSpans (k n r (past ++ l₁) m').2).reverse ++ startSpans m'.events :=
        (hk r).starts _ m' htraced
      rw [hm'] at hfirst
      rw [hsecond, hfirst, callSpans_append, List.reverse_append, List.append_assoc]
    · rw [Noted.settle_exhausted hrun]
      exact hfirst
  grows N hN := (ht.grows N hN).settle fun r => (hk r).grows N hN

private theorem bind {t : Budgeted.Watched α} {x : Budgeted α}
    {k : Nat → α → Noted Moment β} {l : Nat → α → Run β}
    (ht : Heeds st n t x) (hk : ∀ a, Heeds st n (fun i => k i a) (fun i => l i a)) :
    Heeds st n (fun i => t i >>= k i) (fun i => x i >>= l i) := by
  simp only [Run.bind_eq_settle]
  refine settle (k := fun i => Noted.orFail (k i)) ht (fun r => ?_) fun _ _ _ _ _ _ _ => rfl
  cases r with
  | ok a => exact hk a
  | error f => exact fail f

private theorem head (span : Span) :
    Heeds st n (fun _ => watching.head span) (fun _ => Run.checkCanceled span) where
  heeded past m := by
    cases hcanceled : m.canceled with
    | true =>
      rw [Watching.head_of_canceled hcanceled]
      exact .stops (l := []) nofun fun _ _ => List.suffix_rfl
    | false =>
      rw [Watching.head_of_live hcanceled]
      refine .goesOn (by simp [Moment.GoesOn]) fun _ _ _ => ?_
      rfl
  starts past m _ := by
    cases hcanceled : m.canceled with
    | true =>
      rw [Watching.head_of_canceled hcanceled]
      rfl
    | false =>
      rw [Watching.head_of_live hcanceled]
      rfl
  grows _ _ := Run.Grows.checkCanceled span

private theorem enterBody (span : Span) :
    Heeds st n (fun _ => watching.note fun m => .body span m.canceled) (fun _ => Run.give ()) where
  heeded past m := by
    rw [Watching.enter]
    exact .goesOn (by simp [Moment.GoesOn]) fun _ _ _ => rfl
  starts _ m _ := rfl
  grows _ _ := .give ()

private theorem round (span : Span) {c : Budgeted.Watched Bool} {c' : Budgeted Bool}
    {t : Budgeted.Watched α} {x : Budgeted α} (hc : Heeds st n c c') (ht : Heeds st n t x) :
    Heeds st n (fun i => watching.round span (c i) (t i)) (fun i => .round span (c' i) (x i)) := by
  simp only [Scribe.round, Watching.step]
  refine bind (head span) fun _ => bind hc fun goOn => ?_
  cases goOn with
  | false => exact brief (.give (Q := fun _ => True) trivial)
  | true =>
    exact bind (enterBody span) fun _ => bind ht fun a => brief (.give (Q := fun _ => True) trivial)

private theorem entry_steady (callee : Value) (span : Span) (m : Machine) :
    Eval.entry st.steady callee span m.steady = (Eval.entry st callee span m).steady := by
  unfold Eval.entry
  rw [Run.machine_emit, Run.machine_emit]
  rfl

private theorem exit_steady (callee : Value) (span : Span) (m : Machine) :
    Eval.exit st.steady callee span m.steady = (Eval.exit st callee span m).steady := by
  unfold Eval.exit
  rw [Run.machine_emit, Run.machine_emit]
  rfl

private theorem afterBody_steady (callee : Value) (span : Span) (o : Outcome Value) :
    Eval.afterBody st.steady callee span o.steady = (Eval.afterBody st callee span o).steady := by
  cases o with
  | done v m => exact congrArg (Outcome.done v) (exit_steady callee span m)
  | failed f m => exact congrArg (Outcome.failed _) (exit_steady callee span m)
  | exhausted m => rfl

private theorem output_afterBody (st : Settings) (callee : Value)
    (span : Span) (o : Outcome Value) :
    (Eval.afterBody st callee span o).machine.output = o.machine.output := by
  cases o with
  | done v m | failed f m =>
    show (Eval.exit st callee span m).output = m.output
    unfold Eval.exit
    rw [Run.machine_emit]
    rfl
  | exhausted m => rfl

private theorem startSpans_entry (htraced : st.traced = true) (callee : Value)
    (span : Span) (m : Machine) :
    startSpans (Eval.entry st callee span m).events = span :: startSpans m.events := by
  unfold Eval.entry
  rw [Run.machine_emit]
  simp [htraced, startSpans, Machine.enter]

private theorem startSpans_afterBody (callee : Value) (span : Span) (o : Outcome Value) :
    startSpans (Eval.afterBody st callee span o).machine.events = startSpans o.machine.events := by
  cases o with
  | done v m | failed f m =>
    show startSpans (Eval.exit st callee span m).events = startSpans m.events
    unfold Eval.exit
    rw [Run.machine_emit]
    show startSpans (if st.traced then _ else _) = _
    cases st.traced <;> rfl
  | exhausted m => rfl

private theorem heeded_afterBody (st : Settings) (callee : Value) (span : Span)
    {x : Budgeted Value} {m : Machine}
    {o : Outcome Value} {l : List Moment} (h : Heeded n x m (o, l)) :
    Heeded n (fun i m => Eval.afterBody st.steady callee span (x i m)) m
      (Eval.afterBody st callee span o, l) := by
  cases h with
  | goesOn hl ho =>
    refine .goesOn hl fun hend N hN => ?_
    have hended : o.EndedBut fun _ => False := by
      cases o with
      | done v m' => trivial
      | failed f m' => exact id
      | exhausted m' => exact hend
    rw [ho hended N hN, afterBody_steady]
  | @stops l place m' hl ho =>
    refine .stops hl fun N hN => ?_
    have hexit := output_afterBody st callee span (.failed (.runtime .canceled (some place)) m')
    show (Eval.exit st callee span m').output <:+ _
    rw [output_afterBody]
    exact hexit ▸ ho N hN

private theorem counted {t : Budgeted.Watched Value} {x : Budgeted Value}
    (callee : Value) (span : Span) (ht : Heeds st n t x) :
    Heeds st n (fun i => watching.counted st callee span (t i))
      (fun i => Eval.counted st.steady callee span (x i)) where
  heeded past m := by
    show Heeded n _ m (watching.counted st callee span (t n) past m)
    cases hcanceled : m.canceled with
    | true =>
      rw [Watching.counted_of_canceled hcanceled]
      exact .stops (l := []) nofun fun N hN =>
        (Run.Grows.counted callee span (ht.grows N hN) m.steady).output
    | false =>
      by_cases hlimit : st.limit ≤ m.depth
      · rw [Watching.counted_of_overflow hcanceled hlimit]
        refine .goesOn (by simp [Moment.GoesOn]) fun _ N _ => ?_
        exact Eval.counted_of_overflow (m := m.steady) rfl hlimit
      · have hlimit := Nat.not_le.1 hlimit
        have hx : ∀ N, Eval.counted st.steady callee span (x N) m.steady =
            Eval.afterBody st.steady callee span (x N (Eval.entry st callee span m).steady) := by
          intro N
          rw [← entry_steady]
          exact Eval.counted_of_room (m := m.steady) rfl hlimit
        rw [Watching.counted_of_room hcanceled hlimit]
        have hbody := heeded_afterBody st callee span (ht.heeded (past ++ [
          { kind := .check, span, canceled := false }, { kind := .call, span, canceled := false }])
          (Eval.entry st callee span m))
        exact (hbody.follow fun N hN => ⟨N, hN, hx N⟩).prepend (by simp [Moment.GoesOn])
  starts past m htraced := by
    show startSpans (watching.counted st callee span (t n) past m).1.machine.events =
      (callSpans (watching.counted st callee span (t n) past m).2).reverse ++ _
    cases hcanceled : m.canceled with
    | true =>
      rw [Watching.counted_of_canceled hcanceled]
      rfl
    | false =>
      by_cases hlimit : st.limit ≤ m.depth
      · rw [Watching.counted_of_overflow hcanceled hlimit]
        rfl
      · have hlimit := Nat.not_le.1 hlimit
        rw [Watching.counted_of_room hcanceled hlimit]
        dsimp only
        rw [startSpans_afterBody, ht.starts _ _ htraced, startSpans_entry htraced]
        simp [callSpans]
  grows N hN := .counted callee span (ht.grows N hN)

/-- An action that does not cancel the run takes the same steps, and hands on that its calls were
canceled. -/
theorem perform
    (happly : ∀ callee args,
      Heeds st n (watching.apply st · callee args) (Eval.apply st.steady · callee args))
    (hperform : ∀ told {a : Action}, a.HandsOn Failure.IsCancellation →
      Heeds st n (watching.perform st · told a) (Eval.perform st.steady · a.steady))
    (harity : ∀ v, Eval.arity? st.steady v = Eval.arity? st v) (told : List Failure) {a : Action}
    (ha : a.HandsOn Failure.IsCancellation) :
    Heeds st n (fun i => watching.perform st (i + 1) told a)
      (fun i => Eval.perform st.steady (i + 1) a.steady) := by
  cases a with
  | give v =>
    simp only [Scribe.perform, Watching.step, Action.steady, Eval.perform]
    exact brief (.give (Q := fun _ => True) trivial)
  | fail f =>
    simp only [Scribe.perform, Watching.raise, Action.steady, Eval.perform]
    exact fail f
  | write line next =>
    simp only [Scribe.perform, Watching.write, Action.steady, Eval.perform]
    exact bind (brief (.write st line)) fun fault => hperform told (ha fault)
  | clock next =>
    simp only [Scribe.perform, Action.steady, Eval.perform]
    exact hperform told (ha st.time)
  | cancel next =>
    -- The other run saves a step, and so has more of them left than it needs.
    have hnext := hperform told (a := next) ha
    simp only [Scribe.perform, Action.steady]
    refine ⟨fun past m => ?_, fun past m => hnext.starts past { m with canceled := true },
      fun N hN => hnext.grows (N + 1) (Nat.le_succ_of_le hN)⟩
    exact (hnext.heeded past { m with canceled := true }).follow fun N hN =>
      ⟨N + 1, Nat.le_succ_of_le hN, rfl⟩
  | invoke callee args next =>
    by_cases hargs : Eval.arity? st callee = some args.length
    · simp only [Scribe.perform, Action.steady, if_pos hargs,
        Eval.perform_invoke _ (fun r => (next r).steady) ((harity callee).trans hargs)]
      refine settle (happly callee args) (fun r => ?_) fun f past m m' hf hstopped later => ?_
      · cases r with
        | ok v => exact hperform told (ha.2 _)
        | error f => exact hperform (f :: told) (ha.2 _)
      · dsimp only
        rw [ha.1 f hf]
        cases n with
        | zero =>
          rw [Scribe.apply] at hstopped
          cases hstopped
        | succ n =>
          rw [Scribe.perform, Watching.raise]
          rfl
    · simp only [Scribe.perform, Action.steady, if_neg hargs,
        Eval.perform_refused _ (fun r => (next r).steady)
          (fun heq => hargs ((harity callee).symm.trans heq))]
      exact hperform told (ha.2 none)

private theorem twins (hnatives : ∀ n ∈ st.natives, n.HandsOn Failure.IsCancellation) :
    Twins st st.steady (fun a a' => a' = a.steady ∧ a.HandsOn Failure.IsCancellation)
      (Heeds st) where
  natives i := by
    show Option.Rel _ st.natives[i]? (st.natives.map Native.steady)[i]?
    rw [Array.getElem?_map]
    cases hi : st.natives[i]? with
    | none => exact .none
    | some n =>
      exact .some ⟨rfl, fun args => ⟨rfl, hnatives n (Array.mem_of_getElem? hi) args⟩⟩
  outputFault := rfl
  later := later
  brief := brief
  bind := bind
  round span := round span
  counted := counted
  perform happly hperform := by
    rintro told a _ ⟨rfl, ha⟩
    refine perform happly (fun told _ ha => hperform told ⟨rfl, ha⟩) (fun v => ?_) told ha
    cases v with
    | native i =>
      show ((st.natives.map Native.steady)[i]?).map Native.arity = (st.natives[i]?).map Native.arity
      rw [Array.getElem?_map, Option.map_map]
      rfl
    | _ => rfl

end Heeds

namespace Eval

variable {st : Settings} (hnatives : ∀ n ∈ st.natives, n.HandsOn Failure.IsCancellation)
include hnatives

theorem heeds_script (n : Nat) (ss : List Stmt) :
    Heeds st n (watching.script st · ss) (script st.steady · ss) :=
  (holdsBoth (Heeds.twins hnatives) (holdsBoth_zero fun ht _ => .unstarted ht) n).script
    (Heeds.twins hnatives) ss

end Eval

end Lox
