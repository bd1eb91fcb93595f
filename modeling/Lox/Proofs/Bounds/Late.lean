import Lox.Proofs.Bounds.Halts
import Lox.Proofs.Bounds.Roomier

set_option autoImplicit false
set_option relaxedAutoImplicit false

namespace Lox

def Machine.IsCanceled (m : Machine) : Prop := m.canceled = true

def EndsCanceled {α : Type} (x : Budgeted α) (m : Machine) : Prop :=
  ∃ o, x.Comes m o ∧ o.Lands Machine.IsCanceled (fun _ => True) fun _ => True

/-- A computation ends if it is canceled, before it begins or within a bound on steps. -/
structure Late {α : Type} (n : Nat) (x : Budgeted α) : Prop where
  before (m : Machine) : m.IsCanceled → EndsCanceled x m
  kept : Kept (fun _ => False) n x x
  within (m : Machine) : (x n m).machine.IsCanceled → EndsCanceled x m

private theorem Kept.comes {α : Type} {n : Nat} {x : Budgeted α} (h : Kept (fun _ => False) n x x)
    {r : Except Failure α} {m m' : Machine} (hrun : x n m = .ofResult r m') :
    x.Comes m (.ofResult r m') := by
  refine ⟨n, fun N hN => (h N hN m ?_).trans hrun⟩
  rw [hrun]
  cases r with
  | ok a => trivial
  | error f => exact id

namespace EndsCanceled

variable {α β : Type} {m : Machine}

private theorem of_ofResult {x : Budgeted α} {r : Except Failure α} {m' : Machine}
    (hx : x.Comes m (.ofResult r m')) (hm' : m'.IsCanceled) : EndsCanceled x m := by
  refine ⟨_, hx, ?_⟩
  cases r with
  | ok a => exact .done hm' trivial
  | error f => exact .failed hm' trivial

private theorem settle {x : Budgeted α} {k : Nat → Except Failure α → Run β} (hx : EndsCanceled x m)
    (hk : ∀ r m', m'.IsCanceled → EndsCanceled (fun n => k n r) m') :
    EndsCanceled (fun n => (x n).settle (k n)) m := by
  obtain ⟨o, hcomes, ho⟩ := hx
  obtain ⟨r, m', rfl, hm'⟩ : ∃ r m', o = .ofResult r m' ∧ m'.IsCanceled := by
    cases ho with
    | @done a m' hm' _ => exact ⟨.ok a, m', rfl, hm'⟩
    | @failed f m' hm' _ => exact ⟨.error f, m', rfl, hm'⟩
  obtain ⟨o', hcomes', ho'⟩ := hk r m' hm'
  exact ⟨o', hcomes.settle hcomes', ho'⟩

end EndsCanceled

namespace Late

variable {α β : Type} {n : Nat}

private theorem later {x : Budgeted α} (h : Late n fun k => x (k + 1)) : Late (n + 1) x where
  before m hm :=
    have ⟨o, hcomes, ho⟩ := h.before m hm
    ⟨o, hcomes.later, ho⟩
  kept := Kept.later h.kept
  within m hm :=
    have ⟨o, hcomes, ho⟩ := h.within m hm
    ⟨o, hcomes.later, ho⟩

private theorem unstarted {x : Budgeted α} (hzero : x 0 = Run.exhaust)
    (hx : ∀ m : Machine, m.IsCanceled → EndsCanceled x m) : Late 0 x where
  before := hx
  kept := .unstarted hzero
  within m hm := by
    rw [hzero] at hm
    exact hx m hm

private theorem at_once {x : Run α}
    (hx : ∀ m, ∃ r m', x m = .ofResult r m' ∧ m'.canceled = m.canceled) :
    Late n fun _ => x := by
  have hends : ∀ m, (x m).machine.IsCanceled → EndsCanceled (fun _ => x) m := by
    intro m hm
    obtain ⟨r, m', hrun, -⟩ := hx m
    rw [hrun] at hm
    have hcomes : Budgeted.Comes (fun _ => x) m (.ofResult r m') := ⟨0, fun _ _ => hrun⟩
    refine .of_ofResult hcomes ?_
    cases r <;> exact hm
  refine ⟨fun m hm => hends m ?_, .same x, hends⟩
  obtain ⟨r, m', hrun, hsame⟩ := hx m
  rw [hrun]
  cases r <;> exact hsame.trans hm

private theorem brief {x : Run α} {Q : α → Prop} (hx : x.Brief True Q) : Late n fun _ => x := by
  refine at_once fun m => ?_
  have hends := hx.ends m (m.heap.loopsIf_of trivial)
  generalize x m = o at hends
  cases hends with
  | @done a heap output _ _ _ => exact ⟨.ok a, _, rfl, rfl⟩
  | @failed f heap output _ _ _ => exact ⟨.error f, _, rfl, rfl⟩

private theorem settle {x : Budgeted α} {k : Nat → Except Failure α → Run β} (hx : Late n x)
    (hk : ∀ r, Late n fun i => k i r) : Late n fun i => (x i).settle (k i) where
  before m hm := (hx.before m hm).settle fun r m' => (hk r).before m'
  kept := Kept.settle hx.kept (fun a => (hk (.ok a)).kept) (fun f _ => (hk (.error f)).kept) nofun
  within m hm := by
    change ((x n).settle (k n) m).machine.IsCanceled at hm
    obtain ⟨r, m', hrun⟩ | ⟨m', hrun⟩ := (x n m).eq_ofResult_or_exhausted
    · rw [Run.settle_ofResult hrun] at hm
      obtain ⟨o, hcomes, ho⟩ := (hk r).within m' hm
      exact ⟨o, (hx.kept.comes hrun).settle hcomes, ho⟩
    · rw [Run.settle_exhausted hrun] at hm
      exact (hx.within m (by rw [hrun]; exact hm)).settle fun r m' => (hk r).before m'

private theorem fail (f : Failure) : Late n fun _ => (Run.fail f : Run α) :=
  at_once fun m => ⟨.error f, m, rfl, rfl⟩

private theorem bind {x : Budgeted α} {k : Nat → α → Run β} (hx : Late n x)
    (hk : ∀ a, Late n fun i => k i a) :
    Late n fun i => x i >>= k i := by
  simp only [Run.bind_eq_settle]
  refine settle hx fun r => ?_
  cases r with
  | ok a => exact hk a
  | error f => exact fail f

private theorem checkCanceled (span : Span) : Late n fun _ => Run.checkCanceled span := by
  refine at_once fun m => ?_
  unfold Run.checkCanceled
  cases hcanceled : m.canceled with
  | true => exact ⟨.error _, m, rfl, hcanceled⟩
  | false => exact ⟨.ok (), m, rfl, hcanceled⟩

private theorem round (span : Span) {c : Budgeted Bool} {x : Budgeted α}
    (hc : Late n c) (hx : Late n x) :
    Late n fun i => Run.round span (c i) (x i) := by
  refine bind (checkCanceled span) fun _ => bind hc fun goOn => ?_
  cases goOn with
  | false => exact brief (.give (Q := fun _ => True) trivial)
  | true => exact bind hx fun a => brief (.give (Q := fun _ => True) trivial)

variable {st : Settings}

private theorem counted {x : Budgeted Value} (callee : Value) (span : Span) (hx : Late n x) :
    Late n fun i => Eval.counted st callee span (x i) where
  before m hm :=
    ⟨_, ⟨0, fun _ _ => Eval.counted_of_canceled hm⟩, .failed hm trivial⟩
  kept := Kept.counted (.same st) callee span hx.kept
  within m hm := by
    change (Eval.counted st callee span (x n) m).machine.IsCanceled at hm
    cases hcanceled : m.canceled with
    | true =>
      exact ⟨_, ⟨0, fun _ _ => Eval.counted_of_canceled hcanceled⟩, .failed hcanceled trivial⟩
    | false =>
      by_cases hlimit : st.limit ≤ m.depth
      · rw [Eval.counted_of_overflow hcanceled hlimit] at hm
        exact absurd hm (by rw [Machine.IsCanceled, Outcome.machine, hcanceled]; decide)
      · have hlimit := Nat.not_le.1 hlimit
        have hbody : (x n (Eval.entry st callee span m)).machine.IsCanceled := by
          rw [Eval.counted_of_room hcanceled hlimit] at hm
          exact (Eval.canceled_afterBody st callee span _).symm.trans hm
        obtain ⟨o, hcomes, ho⟩ := hx.within _ hbody
        cases ho with
        | @done v m' hm' _ =>
          exact .of_ofResult (Eval.comes_counted (r := .ok v) hcanceled hlimit hcomes)
            ((Eval.canceled_afterBody st callee span (.done v m')).trans hm')
        | @failed f m' hm' _ =>
          exact .of_ofResult (Eval.comes_counted (r := .error f) hcanceled hlimit hcomes)
            ((Eval.canceled_afterBody st callee span (.failed f m')).trans hm')

private theorem perform {V : Value → Prop}
    (happly : ∀ callee args, Late n (Eval.apply st · callee args))
    (hperform : ∀ {a : Action}, a.Returns V st.natives → Late n (Eval.perform st · a))
    {a : Action} (ha : a.Returns V st.natives) (hV : ∀ v, V v) :
    Late n fun i => Eval.perform st (i + 1) a := by
  cases ha with
  | give _ =>
    simp only [Eval.perform]
    exact brief (.give (Q := fun _ => True) trivial)
  | fail f =>
    simp only [Eval.perform]
    exact fail f
  | write hnext =>
    simp only [Eval.perform]
    exact bind (brief (.write st _)) fun fault => hperform (hnext fault)
  | clock hnext =>
    simp only [Eval.perform]
    exact hperform (hnext st.time)
  | @cancel next hnext =>
    simp only [Eval.perform]
    have hlate := hperform hnext
    exact ⟨fun m _ => hlate.before { m with canceled := true } rfl,
      fun N hN m => hlate.kept N hN { m with canceled := true },
      fun m => hlate.within { m with canceled := true }⟩
  | @invoke callee args next _ _ _ hnone hok herror =>
    by_cases harity : Eval.arity? st callee = some args.length
    · simp only [Eval.perform_invoke _ next harity]
      refine settle (happly callee args) fun r => ?_
      cases r with
      | ok v => exact hperform (hok v (hV v))
      | error f => exact hperform (herror f)
    · simp only [Eval.perform_refused _ next harity]
      exact hperform hnone

private theorem twins {V : Value → Prop} (hnatives : ∀ n ∈ st.natives, n.Returns V st.natives)
    (hV : ∀ v, V v) :
    Twins st st (fun a a' => a = a' ∧ a.Returns V st.natives) fun n _ x => Late n x where
  natives i := by
    cases hi : st.natives[i]? with
    | none => exact .none
    | some n =>
      exact .some ⟨rfl, fun args =>
        ⟨rfl, hnatives n (Array.mem_of_getElem? hi) args fun v _ => hV v⟩⟩
  outputFault := rfl
  later := later
  brief := brief
  bind := bind
  round span := round span
  counted := counted
  perform happly hperform := by
    rintro _ a _ ⟨rfl, ha⟩
    exact perform happly (fun ha => hperform [] ⟨rfl, ha⟩) ha hV

end Late

namespace Eval

variable {st : Settings}

private theorem endsCanceled_of_halts {α : Type} {F : Failure → Prop}
    {x : Budgeted α} {Q : α → Prop}
    (hx : Halts (Machine.Fit st True 0) F x Q) (m : Machine)
    (hm : m.IsCanceled) : EndsCanceled x m := by
  obtain ⟨o, hcomes, ho⟩ := hx m ⟨m.heap.loopsIf_of trivial, fun _ => hm, .inl hm⟩
  refine ⟨o, hcomes, ?_⟩
  cases ho with
  | done hm' _ => exact .done (hm'.canceled trivial) trivial
  | failed hm' _ => exact .failed (hm'.canceled trivial) trivial

section

variable (hnatives : ∀ n ∈ st.natives, n.Returns (Value.LoopsIf True) st.natives)
include hnatives

private theorem late_zero : HoldsBoth st st
    (fun a a' => a = a' ∧ a.Returns (Value.LoopsIf True) st.natives) (fun n _ x => Late n x) 0 := by
  have hcalls : CallsHalt st True 0 := callsHalt hnatives 0
  have hvalue (v : Value) : v.LoopsIf True := v.loopsIf_of trivial
  have hbody (ss : List Stmt) : Stmt.LoopsIfAll True ss := Stmt.loopsIfAll_of trivial ss
  exact {
    expr := fun e env => .unstarted (by simp only [Eval.expr])
      (endsCanceled_of_halts (halts_expr hcalls (e.loopsIf_of trivial) env))
    exprs := fun es env => .unstarted (by simp only [Eval.exprs])
      (endsCanceled_of_halts (halts_exprs hcalls (Expr.loopsIfAll_of trivial es) env))
    apply := fun callee args => .unstarted (by simp only [Eval.apply])
      (endsCanceled_of_halts (halts_apply hcalls (hvalue callee) (fun v _ => hvalue v)
        fun i n _ hn => halts_perform hcalls
          (hnatives n (Array.mem_of_getElem? hn) args fun v _ => hvalue v)))
    method := fun f receiver args => .unstarted (by simp only [Eval.method])
      (endsCanceled_of_halts
        (halts_method hcalls (hbody f.body) (hvalue receiver) fun v _ => hvalue v))
    function := fun f closure args => .unstarted (by simp only [Eval.function])
      (endsCanceled_of_halts (halts_function hcalls (hbody f.body) closure fun v _ => hvalue v))
    perform := fun _ {a a'} ha => .unstarted (by simp only [Eval.perform])
      (endsCanceled_of_halts (halts_perform hcalls (ha.1 ▸ ha.2)))
    stmt := fun s env => .unstarted (by simp only [Eval.stmt])
      (endsCanceled_of_halts (halts_stmt hcalls (s.loopsIf_of trivial) env))
    stmts := fun ss env => .unstarted (by simp only [Eval.stmts])
      (endsCanceled_of_halts (halts_stmts hcalls (hbody ss) env))
    whileLoop := fun span c body env => .unstarted (by simp only [Eval.whileLoop])
      (endsCanceled_of_halts (halts_whileLoop trivial span c body env))
    forLoop := fun span c i body env => .unstarted (by simp only [Eval.forLoop])
      (endsCanceled_of_halts (halts_forLoop trivial span c i body env))
    clauseHolds := fun c env => .unstarted (by simp only [Eval.clauseHolds])
      (endsCanceled_of_halts (halts_clauseHolds hcalls (Expr.loopsIfOption_of trivial c) env)) }

theorem program_endsCanceled {n : Nat} {p : Program} {m : Machine}
    (hm : (program st n p m).machine.IsCanceled) : EndsCanceled (program st · p) m := by
  have htwins := Late.twins hnatives fun v => v.loopsIf_of trivial
  have hlate : Late n (script st · p.body) :=
    (holdsBoth htwins (late_zero hnatives) n).script htwins p.body
  have hclosing (o : Outcome Unit) : (closing st p o).machine.canceled = o.machine.canceled := by
    obtain ⟨events, hmachine⟩ := machine_closing st p o
    rw [hmachine]
  rw [program_eq_closing, Machine.IsCanceled, hclosing] at hm
  obtain ⟨o, ⟨n', hn'⟩, ho⟩ := hlate.within _ hm
  have hends (N : Nat) (hN : n' ≤ N) : program st N p m = closing st p o := by
    rw [program_eq_closing]
    exact congrArg _ (hn' N hN)
  cases ho with
  | @done a m' hm' _ =>
    exact ⟨_, ⟨n', hends⟩, .done ((hclosing (.done a m')).trans hm') trivial⟩
  | @failed f m' hm' _ =>
    exact ⟨_, ⟨n', hends⟩, .failed ((hclosing (.failed f m')).trans hm') trivial⟩

end

end Eval

end Lox
