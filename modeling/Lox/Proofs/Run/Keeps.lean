import Lox.Proofs.Run.Steps
import Lox.Run.Program

set_option autoImplicit false
set_option relaxedAutoImplicit false

namespace Lox

theorem Run.machine_emit (st : Settings) (kind : EventKind) (span : Span)
    (name : Text) (m : Machine) :
    (Run.emit st kind span name m).machine = { m with
      events := if st.traced then { kind, span, name, depth := m.depth } ::
        m.events else m.events } := by
  unfold Run.emit
  cases st.traced <;> rfl

structure Agreement (st : Settings) where
  /-- The machines that are looked at. -/
  inv : Machine → Prop
  /-- The names that may be declared in a frame. -/
  may : FrameId → Text → Prop
  /-- How a later machine is related to an earlier one. -/
  rel : Machine → Machine → Prop
  refl (m : Machine) : rel m m
  trans {m₁ m₂ m₃ : Machine} : rel m₁ m₂ → rel m₂ m₃ → rel m₁ m₃
  define {m : Machine} (e : FrameId) (name : Text) (v : Value) : inv m →
    may e name ∨ ((m.heap.bindings e).lookup name).isSome = true →
    inv { m with heap := m.heap.define e name v } ∧ rel m { m with heap := m.heap.define e name v }
  newFrame {m : Machine} (parent : FrameId) (bs : Bindings) : inv m →
    (∀ n, may m.heap.frames.size n) ∧ inv { m with heap := (m.heap.child parent bs).2 } ∧
      rel m { m with heap := (m.heap.child parent bs).2 }
  other {m : Machine} (objects : Array Bindings) (fresh : Nat)
    (output : List Text) (canceled : Bool) :
    inv m →
    inv { m with heap := { m.heap with objects, fresh }, output, canceled } ∧
      rel m { m with heap := { m.heap with objects, fresh }, output, canceled }
  call {m : Machine} (span : Span) (name : Text) : inv m → m.depth < st.limit →
    inv (Run.emit st .callStart span name m.enter).machine ∧
      ∀ m', inv m' → rel (Run.emit st .callStart span name m.enter).machine m' →
        inv (Run.emit st .callEnd span name m').machine.leave ∧
          rel m (Run.emit st .callEnd span name m').machine.leave

namespace Agreement

variable {st : Settings} (A : Agreement st) {α : Type}

def Ends (m : Machine) : Outcome α → Prop
  | .done _ m' | .failed _ m' => A.inv m' ∧ A.rel m m'
  | .exhausted m' => A.inv m'

variable {A}

private theorem Ends.after {m₁ m₂ : Machine} {o : Outcome α}
    (h : A.Ends m₂ o) (hrel : A.rel m₁ m₂) :
    A.Ends m₁ o := by
  cases o with
  | done a m' | failed f m' => exact ⟨h.1, A.trans hrel h.2⟩
  | exhausted m' => exact h

theorem Ends.inv {m : Machine} {o : Outcome α} (h : A.Ends m o) : A.inv o.machine := by
  cases o with
  | done a m' | failed f m' => exact h.1
  | exhausted m' => exact h

end Agreement

def Keeps {st : Settings} (A : Agreement st) {α : Type} (x : Run α) : Prop :=
  ∀ m, A.inv m → A.Ends m (x m)

namespace Keeps

variable {st : Settings} {A : Agreement st} {α β : Type}

private theorem of_done {x : Run α} {f : Machine → α} {step : Machine → Machine}
    (hx : ∀ m, x m = .done (f m) (step m)) (h : ∀ m, A.inv m → A.inv (step m) ∧ A.rel m (step m)) :
    Keeps A x := by
  intro m hm
  rw [hx]
  exact h m hm

private theorem give (a : α) : Keeps A (Run.give a) := fun m hm => ⟨hm, A.refl m⟩

private theorem exhaust : Keeps A (Run.exhaust : Run α) := fun _ hm => hm

private theorem fail (f : Failure) : Keeps A (Run.fail f : Run α) := fun m hm => ⟨hm, A.refl m⟩

private theorem settle {x : Run α} {k : Except Failure α → Run β} (hx : Keeps A x)
    (hk : ∀ r, Keeps A (k r)) :
    Keeps A (x.settle k) := by
  intro m hm
  have hfirst := hx m hm
  unfold Run.settle
  cases hrun : x m with
  | done a m' =>
    rw [hrun] at hfirst
    exact (hk (.ok a) m' hfirst.1).after hfirst.2
  | failed f m' =>
    rw [hrun] at hfirst
    exact (hk (.error f) m' hfirst.1).after hfirst.2
  | exhausted m' =>
    rw [hrun] at hfirst
    exact hfirst

private theorem bind {x : Run α} {k : α → Run β} (hx : Keeps A x) (hk : ∀ a, Keeps A (k a)) :
    Keeps A (x >>= k) := by
  rw [Run.bind_eq_settle]
  refine settle hx fun r => ?_
  cases r with
  | ok a => exact hk a
  | error f => exact fail f

private theorem ends_look {f : Heap → α} {k : α → Run β} {m : Machine}
    (h : A.Ends m (k (f m.heap) m)) :
    A.Ends m ((Run.look f >>= k) m) := h

private theorem look (f : Heap → α) : Keeps A (Run.look f) := fun m hm => ⟨hm, A.refl m⟩

private theorem define {e : FrameId} {name : Text} (v : Value) (he : A.may e name) :
    Keeps A (Run.change (·.define e name v)) :=
  of_done (fun _ => rfl) fun _ hm => A.define e name v hm (.inl he)

private theorem declare {e : FrameId} {name : Text} (he : A.may e name) :
    Keeps A (Run.change (·.declare e name)) := by
  refine of_done (fun _ => rfl) fun m hm => ?_
  simp only [Heap.declare]
  split
  · exact ⟨hm, A.refl m⟩
  · exact A.define e name .nil hm (.inl he)

private theorem newFrame {k : FrameId → Run β} (parent : FrameId) (bs : Bindings)
    (hk : ∀ e, (∀ n, A.may e n) → Keeps A (k e)) : Keeps A (Run.newFrame parent bs >>= k) := by
  intro m hm
  obtain ⟨hmay, hinv, hrel⟩ := A.newFrame parent bs hm
  exact (hk m.heap.frames.size hmay _ hinv).after hrel

private theorem setField (object : Nat) (name : Text) (v : Value) :
    Keeps A (Run.change (·.setField object name v)) :=
  of_done (fun _ => rfl) fun m hm => A.other _ m.heap.fresh m.output m.canceled hm

private theorem freshId : Keeps A Run.freshId :=
  of_done (fun _ => rfl) fun m hm => A.other m.heap.objects _ m.output m.canceled hm

private theorem newObject (c : Class) : Keeps A (Run.newObject c) :=
  of_done (fun _ => rfl) fun m hm => A.other _ m.heap.fresh m.output m.canceled hm

private theorem write (line : Text) : Keeps A (Run.write st line) := by
  intro m hm
  unfold Run.write
  cases st.outputFault with
  | some reason => exact ⟨hm, A.refl m⟩
  | none => exact A.other m.heap.objects m.heap.fresh _ m.canceled hm

private theorem checkCanceled (span : Span) : Keeps A (Run.checkCanceled span) := by
  intro m hm
  unfold Run.checkCanceled
  cases m.canceled with
  | true => exact ⟨hm, A.refl m⟩
  | false => exact ⟨hm, A.refl m⟩

private theorem cancel {x : Run α} (hx : Keeps A x) :
    Keeps A fun m => x { m with canceled := true } := by
  intro m hm
  obtain ⟨hinv, hrel⟩ := A.other m.heap.objects m.heap.fresh m.output true hm
  exact (hx _ hinv).after hrel

private theorem counted {callee : Value} {span : Span} {body : Run Value} (hbody : Keeps A body) :
    Keeps A (Eval.counted st callee span body) := by
  refine bind (checkCanceled span) fun _ m hm => ?_
  by_cases hlimit : st.limit ≤ m.depth
  · simp only [if_pos hlimit]
    exact ⟨hm, A.refl m⟩
  · simp only [if_neg hlimit]
    generalize (if st.traced = true then callee.print else []) = name
    obtain ⟨hinv, hleave⟩ := A.call span name hm (Nat.not_le.1 hlimit)
    have hafter := hbody _ hinv
    cases hrun : body (Run.emit st .callStart span name m.enter).machine with
    | done v m' | failed f m' =>
      rw [hrun] at hafter
      exact hleave m' hafter.1 hafter.2
    | exhausted m' =>
      rw [hrun] at hafter
      exact hafter

private theorem reassign {find : Heap → Option FrameId} {name : Text} {otherwise : Run Unit}
    (hfind : ∀ h a, find h = some a → ((h.bindings a).lookup name).isSome = true) (v : Value)
    (hotherwise : Keeps A otherwise) :
    Keeps A (Run.look find >>= fun holder => match holder with
      | some a => Run.change (·.define a name v)
      | none => otherwise) := by
  intro m hm
  refine ends_look ?_
  cases hholder : find m.heap with
  | some a => exact A.define a name v hm (.inr (hfind _ _ hholder))
  | none => exact hotherwise m hm

theorem steps {st : Settings} (A : Agreement st) : Steps st A.may (Keeps A) where
  give := give
  exhaust := exhaust
  fail := fail
  settle := settle
  look := look
  newFrame := newFrame
  define _ v := define v
  declare _ := declare
  reassign v hfind := reassign hfind v
  setField := setField
  freshId := freshId
  newObject := newObject
  write := write
  checkCanceled := checkCanceled
  cancel := cancel
  counted _ _ := counted

end Keeps

def Eval.opening (st : Settings) (p : Program) (m : Machine) : Machine :=
  (Run.emit st .runStart p.span [] m).machine

def Eval.closing (st : Settings) (p : Program) : Outcome Unit → Outcome Unit
  | .done _ m => .done () (Run.emit st .runEnd p.span [] m).machine
  | .failed f m => .failed f (Run.emit st .runEnd p.span [] m).machine
  | .exhausted m => .exhausted m

theorem Eval.program_eq_closing (st : Settings) (fuel : Nat) (p : Program) (m : Machine) :
    program st fuel p m = closing st p (script st fuel p.body (opening st p m)) := rfl

theorem Eval.machine_closing (st : Settings) (p : Program) (o : Outcome Unit) :
    ∃ events, (closing st p o).machine = { o.machine with events } := by
  cases o with
  | done a m | failed f m => exact ⟨_, Run.machine_emit st .runEnd p.span [] m⟩
  | exhausted m => exact ⟨_, rfl⟩

theorem Eval.keeps_script {st : Settings} (A : Agreement st) (fuel : Nat) (ss : List Stmt)
    (h : ∀ n ∈ ss.flatMap Stmt.declared, A.may Heap.globals n) : Keeps A (script st fuel ss) := by
  induction ss with
  | nil => exact .give _
  | cons s r ih =>
    rw [List.flatMap_cons] at h
    have hs := (holdsAt (Keeps.steps A) fuel).stmt (s := s) fun n hn =>
      h n (List.mem_append_left _ hn)
    refine .bind hs fun signal => ?_
    split
    · exact ih fun n hn => h n (List.mem_append_right _ hn)
    · exact .fail _

end Lox
