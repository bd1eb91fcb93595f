import Lox.Proofs.Run.Globals
import Lox.Proofs.Run.Session
import Lox.Proofs.Scope.Globals

set_option autoImplicit false
set_option relaxedAutoImplicit false

namespace Lox

open Text (lit)

def Machine.unrecorded (m : Machine) : Machine := { m with events := [] }

def Outcome.unrecorded {α : Type} : Outcome α → Outcome α
  | .done a m => .done a m.unrecorded
  | .failed f m => .failed f m.unrecorded
  | .exhausted m => .exhausted m.unrecorded

def Unread {α : Type} (x : Run α) : Prop := ∀ m, (x m).unrecorded = (x m.unrecorded).unrecorded

namespace Unread

variable {α β : Type}

private theorem of_eq {x : Run α} (hx : Unread x) {m m' : Machine}
    (h : m.unrecorded = m'.unrecorded) :
    (x m).unrecorded = (x m').unrecorded := by
  rw [hx m, hx m', h]

private theorem settle {x : Run α} {k : Except Failure α → Run β} (hx : Unread x)
    (hk : ∀ r, Unread (k r)) :
    Unread (x.settle k) := by
  intro m
  have hfirst := hx m
  unfold Run.settle
  cases hrun : x m <;> cases hrun' : x m.unrecorded <;> rw [hrun, hrun'] at hfirst <;>
    injection hfirst
  case done.done a m₁ a' m₂ hvalue hmachine =>
    rw [hvalue]
    exact (hk (.ok a')).of_eq hmachine
  case failed.failed f m₁ f' m₂ hfailure hmachine =>
    rw [hfailure]
    exact (hk (.error f')).of_eq hmachine
  case exhausted.exhausted m₁ m₂ hmachine => exact congrArg Outcome.exhausted hmachine

private theorem bind {x : Run α} {k : α → Run β} (hx : Unread x) (hk : ∀ a, Unread (k a)) :
    Unread (x >>= k) := by
  rw [Run.bind_eq_settle]
  refine settle hx fun r => ?_
  cases r with
  | ok a => exact hk a
  | error f => exact fun _ => rfl

private theorem checkCanceled (span : Span) : Unread (Run.checkCanceled span) := by
  intro m
  unfold Run.checkCanceled
  have hcanceled : m.unrecorded.canceled = m.canceled := rfl
  rw [hcanceled]
  cases m.canceled <;> rfl

section

variable {st : Settings} {kind : EventKind} {span : Span} {name : Text}

private theorem unrecorded_emit (m : Machine) :
    (Run.emit st kind span name m).machine.unrecorded = m.unrecorded := by
  rw [Run.machine_emit]
  rfl

private theorem unrecorded_enter (m : Machine) :
    (Run.emit st kind span name m.enter).machine.unrecorded = m.unrecorded.enter := by
  rw [unrecorded_emit]
  rfl

private theorem unrecorded_leave (m : Machine) :
    (Run.emit st kind span name m).machine.leave.unrecorded = m.unrecorded.leave := by
  rw [Run.machine_emit]
  rfl

end

private theorem counted {st : Settings} {body : Run Value} (callee : Value) (span : Span)
    (hbody : Unread body) : Unread (Eval.counted st callee span body) := by
  refine bind (checkCanceled span) fun _ m => ?_
  have hdepth : m.unrecorded.depth = m.depth := rfl
  by_cases hlimit : st.limit ≤ m.depth
  · simp only [hdepth, if_pos hlimit]
    rfl
  · simp only [hdepth, if_neg hlimit]
    generalize (if st.traced = true then callee.print else []) = name
    have hafter : (body (Run.emit st .callStart span name m.enter).machine).unrecorded =
        (body (Run.emit st .callStart span name m.unrecorded.enter).machine).unrecorded :=
      hbody.of_eq ((unrecorded_enter m).trans (unrecorded_enter m.unrecorded).symm)
    cases hrun : body (Run.emit st .callStart span name m.enter).machine <;>
      cases hrun' : body (Run.emit st .callStart span name m.unrecorded.enter).machine <;>
      rw [hrun, hrun'] at hafter <;> injection hafter
    case done.done v m₁ v' m₂ hvalue hmachine =>
      show Outcome.done v _ = Outcome.done v' _
      rw [hvalue, unrecorded_leave, unrecorded_leave, hmachine]
    case failed.failed f m₁ f' m₂ hfailure hmachine =>
      show Outcome.failed (f.attach span) _ = Outcome.failed (f'.attach span) _
      rw [hfailure, unrecorded_leave, unrecorded_leave, hmachine]
    case exhausted.exhausted m₁ m₂ hmachine => exact congrArg Outcome.exhausted hmachine

private theorem reassign {find : Heap → Option FrameId} {name : Text}
    {otherwise : Run Unit} (v : Value) (hotherwise : Unread otherwise) :
    Unread (Run.look find >>= fun holder => match holder with
      | some a => Run.change (·.define a name v)
      | none => otherwise) := by
  refine bind (fun _ => rfl) fun holder => ?_
  cases holder with
  | some a => exact fun _ => rfl
  | none => exact hotherwise

private theorem steps (st : Settings) : Steps st (fun _ _ => True) Unread where
  give _ _ := rfl
  exhaust _ := rfl
  fail _ _ := rfl
  settle := settle
  look _ _ := rfl
  newFrame parent bs hk m := (hk m.heap.frames.size fun _ => trivial).of_eq rfl
  define _ _ _ _ := rfl
  declare _ _ _ := rfl
  reassign v _ := reassign v
  setField _ _ _ _ := rfl
  freshId _ := rfl
  newObject _ _ := rfl
  write line m := by
    unfold Run.write
    cases st.outputFault <;> rfl
  checkCanceled := checkCanceled
  cancel hx m := hx.of_eq rfl
  counted := counted

end Unread

namespace Eval

variable {st : Settings} {fuel : Nat}

private theorem unread_script (st : Settings) (fuel : Nat) (ss : List Stmt) :
    Unread (script st fuel ss) := by
  induction ss with
  | nil => exact fun _ => rfl
  | cons s r ih =>
    refine .bind ((holdsAt (Unread.steps st) fuel).stmt fun _ _ => trivial) fun signal => ?_
    split
    · exact ih
    · exact fun _ => rfl

private theorem script_append (a b : List Stmt) :
    script st fuel (a ++ b) = (script st fuel a >>= fun _ => script st fuel b) := by
  induction a with
  | nil => rfl
  | cons s r ih =>
    funext m
    show Run.andThen (stmt st fuel s Heap.globals) _ m =
      Run.andThen (Run.andThen (stmt st fuel s Heap.globals) _) _ m
    simp only [Run.andThen]
    cases stmt st fuel s Heap.globals m with
    | done signal m₁ =>
      cases signal with
      | normal => exact congrFun ih m₁
      | leaveLoop | leaveFunction v => rfl
    | failed f m₁ | exhausted m₁ => rfl

private theorem unrecorded_program (st : Settings) (fuel : Nat) (p : Program) (m : Machine) :
    (program st fuel p m).unrecorded = (script st fuel p.body m).unrecorded := by
  have hemit : (Run.emit st .runStart p.span [] m).machine.unrecorded = m.unrecorded :=
    Unread.unrecorded_emit m
  have hstart := (unread_script st fuel p.body).of_eq hemit
  rw [← hstart]
  unfold program
  dsimp only
  cases script st fuel p.body (Run.emit st .runStart p.span [] m).machine with
  | done a m₁ => exact congrArg (Outcome.done ()) (Unread.unrecorded_emit m₁)
  | failed f m₁ => exact congrArg (Outcome.failed f) (Unread.unrecorded_emit m₁)
  | exhausted m₁ => rfl

end Eval

namespace Session

private theorem execute_eq_ok {s s' : Session} {fuel : Nat} {p : Program}
    (h : s.execute fuel p = (.ok (), s')) :
    Eval.program s.settings fuel p s.machine = .done () s'.machine ∧ s'.settings = s.settings := by
  unfold execute at h
  split at h
  · rename_i hrun
    cases h
    exact ⟨hrun, rfl⟩
  · cases h
  · cases h

private theorem execute_unrecorded {s s' : Session} {fuel : Nat} {p p' : Program}
    (h : (Eval.program s.settings fuel p s.machine).unrecorded =
      (Eval.program s'.settings fuel p' s'.machine).unrecorded) :
    (s.execute fuel p).1 = (s'.execute fuel p').1 ∧
      (s.execute fuel p).2.machine.unrecorded = (s'.execute fuel p').2.machine.unrecorded := by
  unfold execute
  cases hrun : Eval.program s.settings fuel p s.machine <;>
    cases hrun' : Eval.program s'.settings fuel p' s'.machine <;>
    rw [hrun, hrun'] at h <;> injection h
  case done.done _ m _ m' _ hmachine => exact ⟨rfl, hmachine⟩
  case failed.failed f m f' m' hfailure hmachine => exact ⟨by rw [hfailure], hmachine⟩
  case exhausted.exhausted m m' hmachine => exact ⟨rfl, hmachine⟩

private theorem heap_execute (s : Session) (fuel : Nat) (p : Program) :
    (s.execute fuel p).2.machine.heap =
      (Eval.script s.settings fuel p.body s.machine).machine.heap := by
  have hsame :=
    congrArg (fun o => o.machine.heap) (Eval.unrecorded_program s.settings fuel p s.machine)
  unfold execute
  cases hrun : Eval.program s.settings fuel p s.machine <;>
    cases hscript : Eval.script s.settings fuel p.body s.machine <;>
    rw [hrun, hscript] at hsame <;> exact hsame

private theorem Reached.globals {natives : List Native} {s : Session} (h : s.Reached natives) :
    0 < s.machine.heap.frames.size := by
  induction h with
  | start st _ => exact Nat.one_pos
  | @run s fuel file source _ ih =>
    unfold Session.run
    split
    · exact ih
    · rename_i p _
      have hends := Eval.keeps_script (globalsAgreement s.settings fun _ => True) fuel p.body
        (fun _ _ _ => trivial) s.machine ih
      rw [heap_execute]
      exact hends.inv
  | host _ _ hheap ih => rwa [hheap]

private theorem script_of_execute {s s₁ : Session} {fuel : Nat} {p : Program}
    (h : s.execute fuel p = (.ok (), s₁)) : ∃ m₁, s₁.settings = s.settings ∧
      Eval.script s.settings fuel p.body s.machine = .done () m₁ ∧
      m₁.unrecorded = s₁.machine.unrecorded := by
  obtain ⟨hrun, hsettings⟩ := execute_eq_ok h
  have hsame := Eval.unrecorded_program s.settings fuel p s.machine
  rw [hrun] at hsame
  cases hscript : Eval.script s.settings fuel p.body s.machine <;> rw [hscript] at hsame <;>
    injection hsame
  case done m₁ _ hmachine => exact ⟨m₁, hsettings, rfl, hmachine.symm⟩

/-- A program may be given to a session in two parts. A program that is accepted with the globals of
a session is accepted up to any statement; if that part runs to its end, the rest is accepted with
the globals that there are then, in whatever order they are listed. The hops of the parts are those
of the whole, and running the parts leads to the same result and the same machine as running the
whole, but for the events: each run records two of its own. -/
theorem execute_split {natives : List Native} {s : Session} (h : s.Reached natives)
    {file source : Text} {p p' : Program}
    (hp : Program.parse file source = .ok p) {bound : List Text}
    (hbound : ∀ n, n ∈ bound ↔ n ∈ s.machine.globalNames) (hp' : p.resolve bound = .ok p')
    {a b : List Stmt} (hbody : p.body = a ++ b) (spanA spanB : Span) (fuel : Nat) :
    ∃ a', Program.resolve ⟨spanA, a⟩ bound = .ok ⟨spanA, a'⟩ ∧
      ∀ s₁, s.execute fuel ⟨spanA, a'⟩ = (.ok (), s₁) →
        ∀ bound₁, (∀ n, n ∈ bound₁ ↔ n ∈ s₁.machine.globalNames) →
          ∃ b', Program.resolve ⟨spanB, b⟩ bound₁ = .ok ⟨spanB, b'⟩ ∧ p'.body = a' ++ b' ∧
            (s.execute fuel p').1 = (s₁.execute fuel ⟨spanB, b'⟩).1 ∧
            { (s.execute fuel p').2.machine with events := [] } =
              { (s₁.execute fuel ⟨spanB, b'⟩).2.machine with events := [] } := by
  obtain ⟨ts, -, -, hderives⟩ := Program.parse_derives hp
  have halways : ∀ t ∈ a, t.DeclaresAlways := fun t ht =>
    hderives.declarations t (hbody ▸ List.mem_append_left b ht)
  obtain ⟨a', b', ha', hbody', hsame, halways', hb'⟩ := Program.resolve_append hp' hbody spanA spanB
  refine ⟨a', ha', fun s₁ hs₁ bound₁ hbound₁ => ?_⟩
  obtain ⟨m₁, hsettings, hscript, hmachine⟩ := script_of_execute hs₁
  have hnames : ∀ n, n ∈ s₁.machine.globalNames ↔ n ∈ bound ∨ n ∈ a.flatMap Stmt.declared := by
    intro n
    have hheap : s₁.machine.heap = m₁.heap := (congrArg Machine.heap hmachine).symm
    rw [Machine.globalNames, hheap, hbound, ← hsame]
    exact Eval.mem_globalNames_script (halways' halways) h.globals hscript n
  refine ⟨b', hb' bound₁ fun n => (hbound₁ n).trans (hnames n), hbody', ?_⟩
  refine execute_unrecorded ?_
  rw [Eval.unrecorded_program, Eval.unrecorded_program, hbody', Eval.script_append, hsettings]
  calc ((Eval.script s.settings fuel a' >>= fun _ =>
    Eval.script s.settings fuel b') s.machine).unrecorded
      = (Eval.script s.settings fuel b' m₁).unrecorded := by
        show (Run.andThen _ _ _).unrecorded = _
        unfold Run.andThen
        rw [hscript]
    _ = (Eval.script s.settings fuel b' s₁.machine).unrecorded :=
        (Eval.unread_script s.settings fuel b').of_eq hmachine

/-- A closure that changes a global, which the second part declares again from its value. -/
def regrown : Text :=
  lit "var a = \"x\"; fun f() \x7b a = a + \"y\"; return a; \x7d out(f()); var a = a + \"z\"; print f();"

theorem execute_split_regrown :
    let s : Session :=
      { settings := { limit := 10, natives := #[.out] }, machine := .initial [.out] }
    ∃ p p' a' s₁ b', Program.parse [] regrown = .ok p ∧ p.resolve s.machine.globalNames = .ok p' ∧
      s.execute 50 ⟨p.span, a'⟩ = (.ok (), s₁) ∧
      Program.resolve ⟨p.span, p.body.drop 3⟩ s₁.machine.globalNames = .ok ⟨p.span, b'⟩ ∧
      p'.body = a' ++ b' ∧ (s₁.execute 50 ⟨p.span, b'⟩).1 = (s.execute 50 p').1 ∧
      (s₁.execute 50 ⟨p.span, b'⟩).2.machine.written = lit "xy\nxyzy\n" := by
  intro s
  have hwhole : ((Program.parse [] regrown).toOption.bind fun p =>
      (p.resolve s.machine.globalNames).toOption.map fun p' =>
        (s.execute 50 p').2.machine.written) = some (lit "xy\nxyzy\n") := by decide +kernel
  have hfirst : ((Program.parse [] regrown).toOption.bind fun p =>
      (Program.resolve ⟨p.span, p.body.take 3⟩ s.machine.globalNames).toOption.map fun q =>
        (s.execute 50 q).1.isOk) = some true := by decide +kernel
  obtain ⟨p, hp, hwhole⟩ := Option.bind_eq_some_iff.1 hwhole
  rw [hp] at hfirst
  have hparse := eq_ok_of_toOption hp
  obtain ⟨p', hp', hwritten⟩ := Option.map_eq_some_iff.1 hwhole
  have hresolve := eq_ok_of_toOption hp'
  obtain ⟨a', ha', hrest⟩ := execute_split (.start _ rfl) hparse (fun _ => Iff.rfl) hresolve
    (List.take_append_drop 3 p.body).symm p.span p.span 50
  change Option.map _ (Except.toOption _) = _ at hfirst
  rw [ha'] at hfirst
  have hok : (s.execute 50 ⟨p.span, a'⟩).1.isOk = true := Option.some.inj hfirst
  obtain ⟨s₁, hs₁⟩ : ∃ s₁, s.execute 50 ⟨p.span, a'⟩ = (.ok (), s₁) := by
    revert hok
    obtain ⟨r, s₁⟩ := s.execute 50 ⟨p.span, a'⟩
    cases r with
    | error e => nofun
    | ok u => exact fun _ => ⟨s₁, rfl⟩
  obtain ⟨b', hb', hbody, hresult, hmachine⟩ := hrest s₁ hs₁ _ fun _ => Iff.rfl
  refine ⟨p, p', a', s₁, b', hparse, hresolve, hs₁, hb', hbody, hresult.symm, ?_⟩
  exact (congrArg Machine.written hmachine).symm.trans hwritten

end Session
end Lox
