import Mathlib
import Lox.Proofs.Run.Keeps
import Lox.Session

set_option autoImplicit false
set_option relaxedAutoImplicit false

namespace Lox

/-- Events of calls that were made while some calls were open. No call lies deeper than the limit.
-/
inductive CallWord (limit : Nat) : Nat → List Event → Prop
  | nil (open_ : Nat) : CallWord limit open_ []
  | call {open_ : Nat} {inside after : List Event} (span : Span) (name : Text) :
      open_ + 1 ≤ limit → CallWord limit (open_ + 1) inside → CallWord limit open_ after →
      CallWord limit open_ ({ kind := .callStart, span, name, depth := open_ + 1 } :: (inside ++
        { kind := .callEnd, span, name, depth := open_ + 1 } :: after))

private theorem CallWord.append {limit open_ : Nat} {w w' : List Event} (h : CallWord limit open_ w)
    (h' : CallWord limit open_ w') : CallWord limit open_ (w ++ w') := by
  induction h with
  | nil => exact h'
  | call span name hlimit hinside _ _ ih =>
    rw [List.cons_append, List.append_assoc, List.cons_append]
    exact .call span name hlimit hinside (ih h')

/-- The largest depth of events. -/
def deepest (es : List Event) : Nat := es.foldr (fun e d => max e.depth d) 0

/-- How many calls begin. -/
def starts (es : List Event) : Nat := es.countP (·.kind == .callStart)

@[simp] theorem deepest_nil : deepest [] = 0 := rfl

@[simp] theorem deepest_cons (e : Event) (es : List Event) :
    deepest (e :: es) = max e.depth (deepest es) := rfl

@[simp] theorem deepest_append (es es' : List Event) :
    deepest (es ++ es') = max (deepest es) (deepest es') := by
  induction es with
  | nil => simp
  | cons e es ih => simp [ih, Nat.max_assoc]

@[simp] theorem starts_nil : starts [] = 0 := rfl

@[simp] theorem starts_append (es es' : List Event) : starts (es ++ es') = starts es + starts es' :=
  List.countP_append

structure Accounted (st : Settings) (m m' : Machine) (w : List Event) : Prop where
  word : CallWord st.limit m.depth w
  events : m'.events = if st.traced then w.reverse ++ m.events else m.events
  calls : m'.calls = m.calls + starts w
  depth : m'.depth = m.depth
  peak : m'.peak = max m.peak (deepest w)

namespace Accounted

variable {st : Settings} {m m₁ m₂ : Machine} {w w' : List Event}

private theorem same {m m' : Machine} (hevents : m'.events = m.events) (hcalls : m'.calls = m.calls)
    (hdepth : m'.depth = m.depth) (hpeak : m'.peak = m.peak) : Accounted st m m' [] where
  word := .nil _
  events := by simp [hevents]
  calls := by simp [hcalls]
  depth := hdepth
  peak := by simp [hpeak]

private theorem append (h : Accounted st m m₁ w) (h' : Accounted st m₁ m₂ w') :
    Accounted st m m₂ (w ++ w') where
  word := h.word.append (h.depth ▸ h'.word)
  events := by
    rw [h'.events, h.events]
    split <;> simp
  calls := by rw [h'.calls, h.calls, starts_append, Nat.add_assoc]
  depth := h'.depth.trans h.depth
  peak := by rw [h'.peak, h.peak, deepest_append, Nat.max_assoc]

private theorem call {span : Span} {name : Text} (hlimit : m.depth < st.limit)
    (h : Accounted st (Run.emit st .callStart span name m.enter).machine m₁ w) :
    Accounted st m (Run.emit st .callEnd span name m₁).machine.leave
      ({ kind := .callStart, span, name, depth := m.depth + 1 } :: (w ++
        [{ kind := .callEnd, span, name, depth := m.depth + 1 }])) := by
  rw [Run.machine_emit] at h ⊢
  obtain ⟨hword, hevents, hcalls, hdepth, hpeak⟩ := h
  have hdepth : m₁.depth = m.depth + 1 := hdepth
  refine ⟨.call span name hlimit hword (.nil _), ?_, ?_, ?_, ?_⟩
  · show (if st.traced then _ else _) = _
    rw [hevents, hdepth]
    cases st.traced <;> simp [Machine.enter]
  · show m₁.calls = _
    rw [hcalls]
    simp [starts, Machine.enter]
    omega
  · show m₁.depth - 1 = _
    omega
  · show m₁.peak = _
    rw [hpeak]
    simp [Machine.enter]
    omega

end Accounted

def Outcome.EndsAt {α : Type} (o : Outcome α) (m' : Machine) : Prop :=
  match o with
  | .done _ m | .failed _ m => m = m'
  | .exhausted _ => False

/-- What a word of events says about the machines before and after a whole program. -/
structure RunAccounted (st : Settings) (span : Span) (m m' : Machine) (w : List Event) : Prop where
  word : CallWord st.limit m.depth w
  events : m'.events = if st.traced then { kind := .runEnd, span, name := [], depth := m.depth } ::
    (w.reverse ++ { kind := .runStart, span, name := [], depth := m.depth } ::
      m.events) else m.events
  calls : m'.calls = m.calls + starts w
  depth : m'.depth = m.depth
  peak : m'.peak = max m.peak (deepest w)

private theorem Accounted.run {st : Settings} {span : Span} {m m₁ : Machine} {w : List Event}
    (h : Accounted st (Run.emit st .runStart span [] m).machine m₁ w) :
    RunAccounted st span m (Run.emit st .runEnd span [] m₁).machine w := by
  rw [Run.machine_emit] at h ⊢
  obtain ⟨hword, hevents, hcalls, hdepth, hpeak⟩ := h
  have hdepth : m₁.depth = m.depth := hdepth
  refine ⟨hword, ?_, hcalls, hdepth, hpeak⟩
  show (if st.traced then _ else _) = _
  rw [hevents, hdepth]
  cases st.traced <;> rfl

def callAgreement (st : Settings) : Agreement st where
  inv _ := True
  may _ _ := True
  rel m m' := ∃ w, Accounted st m m' w
  refl _ := ⟨[], .same rfl rfl rfl rfl⟩
  trans := fun ⟨_, h⟩ ⟨_, h'⟩ => ⟨_, h.append h'⟩
  define _ _ _ _ _ := ⟨trivial, [], .same rfl rfl rfl rfl⟩
  newFrame _ _ _ := ⟨fun _ => trivial, trivial, [], .same rfl rfl rfl rfl⟩
  other _ _ _ _ _ := ⟨trivial, [], .same rfl rfl rfl rfl⟩
  call _ _ _ hlimit := ⟨trivial, fun _ _ ⟨_, h⟩ => ⟨trivial, _, h.call hlimit⟩⟩

namespace Eval

theorem program_accounted {st : Settings} {fuel : Nat} {p : Program} {m m' : Machine}
    (h : (program st fuel p m).EndsAt m') : ∃ w, RunAccounted st p.span m m' w := by
  have hscript := keeps_script (callAgreement st) fuel p.body (fun _ _ => trivial)
    (Run.emit st .runStart p.span [] m).machine trivial
  unfold program at h
  dsimp only at h
  cases hrun : script st fuel p.body (Run.emit st .runStart p.span [] m).machine with
  | done a m₁ | failed f m₁ =>
    rw [hrun] at h hscript
    obtain ⟨-, w, haccounted⟩ := hscript
    cases h
    exact ⟨w, haccounted.run⟩
  | exhausted m₁ =>
    rw [hrun] at h
    cases h

end Eval

namespace Session

/-- Sessions together with all events that they have recorded, in order. Between runs the host may
do anything that leaves the counters and the limit alone. -/
inductive Recorded (config : Config) (registry : Registry) (traced : Bool) :
    Session → List Event → Prop
  | start (time : Float) : Recorded config registry traced (.start config registry traced time) []
  | execute {s : Session} {log : List Event} (fuel : Nat) (p : Program) :
      Recorded config registry traced s log → (s.drained.execute fuel p).1 ≠ .error .exhausted →
      Recorded config registry traced (s.drained.execute fuel p).2
        (log ++ (s.drained.execute fuel p).2.machine.events.reverse)
  | host {s s' : Session} {log : List Event} : Recorded config registry traced s log →
      s'.settings.limit = s.settings.limit → s'.settings.traced = s.settings.traced →
      s'.machine.calls = s.machine.calls → s'.machine.depth = s.machine.depth →
      s'.machine.peak = s.machine.peak → Recorded config registry traced s' log

theorem execute_endsAt {s : Session} {fuel : Nat} {p : Program}
    (h : (s.execute fuel p).1 ≠ .error .exhausted) :
    (s.execute fuel p).2.settings = s.settings ∧
      (Eval.program s.settings fuel p s.machine).EndsAt (s.execute fuel p).2.machine := by
  unfold execute at h ⊢
  cases hrun : Eval.program s.settings fuel p s.machine with
  | done a m | failed f m => exact ⟨rfl, rfl⟩
  | exhausted m =>
    rw [hrun] at h
    exact absurd rfl h

private theorem execute_accounted {s : Session} {fuel : Nat} {p : Program}
    (h : (s.drained.execute fuel p).1 ≠ .error .exhausted) :
    (s.drained.execute fuel p).2.settings = s.settings ∧
      ∃ w, RunAccounted s.settings p.span s.drained.machine
        (s.drained.execute fuel p).2.machine w := by
  obtain ⟨hsettings, hends⟩ := execute_endsAt h
  exact ⟨hsettings, Eval.program_accounted hends⟩

private theorem Recorded.counters {config : Config} {registry : Registry}
    {traced : Bool} {s : Session} {log : List Event} (h : Recorded config registry traced s log) :
    s.settings.limit = effectiveLimit config.maxCallDepth ∧ s.settings.traced = traced ∧
      s.machine.depth = 0 ∧ (traced = true → s.machine.peak = deepest log) := by
  induction h with
  | start time => exact ⟨rfl, rfl, rfl, fun _ => rfl⟩
  | @execute s log fuel p _ hend ih =>
    obtain ⟨hlimit, htraced, hdepth, hpeak⟩ := ih
    obtain ⟨hsettings, w, hrun⟩ := execute_accounted hend
    refine ⟨by rw [hsettings, hlimit], by rw [hsettings, htraced], hrun.depth.trans hdepth, ?_⟩
    intro htrue
    have hzero : s.drained.machine.depth = 0 := hdepth
    have hnone : s.drained.machine.events = [] := rfl
    have hbefore : s.drained.machine.peak = deepest log := hpeak htrue
    rw [hrun.events, hrun.peak, htraced, htrue, hzero, hnone, hbefore]
    simp
  | host _ hlimit htraced _ hdepth hpeak ih =>
    rw [hlimit, htraced, hdepth, hpeak]
    exact ih

/-- Calls are accounted for in every run that ends, however it ends. In a session that has recorded
some events, a run of any program under any limit and with any native functions records its two
events at depth zero, and between them a well-bracketed word of call events within the limit. The
calls of the session grow by those that begin in the word, no call is left open, and the peak grows
to the largest depth of the word; so it is the largest depth that the session has recorded. -/
theorem execute_balanced {config : Config} {registry : Registry} {traced : Bool} {s : Session}
    {log : List Event} (h : Recorded config registry traced s log) (fuel : Nat) (p : Program)
    {r : Except RunError Unit} {s' : Session} (hrun : s.drained.execute fuel p = (r, s'))
    (hend : r ≠ .error .exhausted) :
    ∃ w, CallWord (effectiveLimit config.maxCallDepth) 0 w ∧
      s'.machine.events.reverse = (if traced then
        { kind := .runStart, span := p.span, name := [], depth := 0 } :: (w ++
          [{ kind := .runEnd, span := p.span, name := [], depth := 0 }]) else []) ∧
      s'.machine.calls = s.machine.calls + starts w ∧ s'.machine.depth = 0 ∧
      s'.machine.peak = max s.machine.peak (deepest w) ∧
      (traced = true → s'.machine.peak = deepest (log ++ s'.machine.events.reverse)) := by
  have hend' : (s.drained.execute fuel p).1 ≠ .error .exhausted := by rwa [hrun]
  obtain ⟨hlimit, htraced, hdepth, -⟩ := h.counters
  obtain ⟨-, -, hdepth', hpeak'⟩ := (h.execute fuel p hend').counters
  obtain ⟨-, w, hw⟩ := execute_accounted hend'
  have hzero : s.drained.machine.depth = 0 := hdepth
  rw [hrun] at hdepth' hpeak' hw
  refine ⟨w, ?_, ?_, hw.calls, hdepth', hw.peak, hpeak'⟩
  · have hword := hw.word
    rwa [hlimit, hzero] at hword
  · rw [hw.events, htraced, hzero]
    cases traced <;> simp [Session.drained]

def descent : Program :=
  let place : Span := .nowhere []
  let callSelf : Stmt :=
    .exprStmt place (.call place (.name { span := place, name := Text.lit "f", hops := none }) [])
  { span := place, body := [.funDecl (.mk place (Text.lit "f") [] [callSelf]), callSelf] }

theorem execute_balanced_descent :
    let s := start { maxCallDepth := 2 } .standard true 0
    (s.drained.execute 50 descent).1 =
        .error (.failed (.runtime .stackOverflow (some (.nowhere [])))) ∧
      (s.drained.execute 50 descent).2.machine.depth = 0 ∧
      (s.drained.execute 50 descent).2.machine.peak =
        deepest (s.drained.execute 50 descent).2.machine.events.reverse := by
  intro s
  have hresult : (s.drained.execute 50 descent).1 =
      .error (.failed (.runtime .stackOverflow (some (.nowhere [])))) := by cbv
  have hends : (s.drained.execute 50 descent).1 ≠ .error .exhausted := by
    rw [hresult]
    intro h
    cases h
  obtain ⟨w, -, -, -, hdepth, -, hpeak⟩ :=
    execute_balanced (.start 0) 50 descent (Prod.eta (s.drained.execute 50 descent)).symm hends
  exact ⟨hresult, hdepth, hpeak rfl⟩

end Session
end Lox
