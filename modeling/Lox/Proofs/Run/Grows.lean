import Lox.Proofs.Run.Keeps

set_option autoImplicit false
set_option relaxedAutoImplicit false

namespace Lox

/-- What a machine has brought about is still there at a later time. -/
structure Machine.Before (m m' : Machine) : Prop where
  output : m.output <:+ m'.output
  events : m.events <:+ m'.events
  calls : m.calls ≤ m'.calls
  peak : m.peak ≤ m'.peak

namespace Machine.Before

variable {m m₁ m₂ m₃ : Machine}

theorem refl (m : Machine) : m.Before m :=
  ⟨List.suffix_rfl, List.suffix_rfl, Nat.le_refl _, Nat.le_refl _⟩

theorem trans (h : m₁.Before m₂) (h' : m₂.Before m₃) : m₁.Before m₃ :=
  ⟨h.output.trans h'.output, h.events.trans h'.events, Nat.le_trans h.calls h'.calls,
    Nat.le_trans h.peak h'.peak⟩

private theorem changed (m : Machine) (heap : Heap) (canceled : Bool) :
    m.Before { m with heap, canceled } :=
  ⟨List.suffix_rfl, List.suffix_rfl, Nat.le_refl _, Nat.le_refl _⟩

private theorem enter (m : Machine) : m.Before m.enter :=
  ⟨List.suffix_rfl, List.suffix_rfl, Nat.le_succ _, Nat.le_max_left _ _⟩

theorem leave (m : Machine) : m.Before m.leave :=
  ⟨List.suffix_rfl, List.suffix_rfl, Nat.le_refl _, Nat.le_refl _⟩

theorem emit (st : Settings) (kind : EventKind) (span : Span) (name : Text) (m : Machine) :
    m.Before (Run.emit st kind span name m).machine := by
  rw [Run.machine_emit]
  refine ⟨List.suffix_rfl, ?_, Nat.le_refl _, Nat.le_refl _⟩
  dsimp only
  split
  · exact List.suffix_cons _ _
  · exact List.suffix_rfl

end Machine.Before

theorem Machine.written_prefix {m m' : Machine} (h : m.output <:+ m'.output) :
    m.written <+: m'.written := by
  obtain ⟨later, hlater⟩ := h
  refine ⟨later.reverse.flatten, ?_⟩
  unfold Machine.written
  rw [← hlater, List.reverse_append, List.flatten_append]

def Run.Grows {α : Type} (x : Run α) : Prop := ∀ m : Machine, m.Before (x m).machine

namespace Run.Grows

variable {st : Settings} {α β : Type}

private theorem of_done {x : Run α} {f : Machine → α} {step : Machine → Machine}
    (hx : ∀ m, x m = .done (f m) (step m)) (hstep : ∀ m : Machine, m.Before (step m)) :
    x.Grows := by
  intro m
  rw [hx]
  exact hstep m

theorem give (a : α) : (Run.give a).Grows := Machine.Before.refl

theorem change (f : Heap → Heap) : (Run.change f).Grows :=
  of_done (fun _ => rfl) fun m => .changed m _ _

theorem settle {x : Run α} {k : Except Failure α → Run β} (hx : x.Grows) (hk : ∀ r, (k r).Grows) :
    (x.settle k).Grows := by
  intro m
  have hfirst := hx m
  unfold Run.settle
  cases hrun : x m with
  | done a m' =>
    rw [hrun] at hfirst
    exact hfirst.trans (hk (.ok a) m')
  | failed f m' =>
    rw [hrun] at hfirst
    exact hfirst.trans (hk (.error f) m')
  | exhausted m' =>
    rw [hrun] at hfirst
    exact hfirst

theorem checkCanceled (span : Span) : (Run.checkCanceled span).Grows := by
  intro m
  unfold Run.checkCanceled
  cases m.canceled <;> exact .refl m

private theorem write (line : Text) : (Run.write st line).Grows := by
  intro m
  unfold Run.write
  cases st.outputFault with
  | some reason => exact .refl m
  | none => exact ⟨List.suffix_cons _ _, List.suffix_rfl, Nat.le_refl _, Nat.le_refl _⟩

theorem bind {x : Run α} {k : α → Run β} (hx : x.Grows) (hk : ∀ a, (k a).Grows) :
    (x >>= k).Grows := by
  rw [Run.bind_eq_settle]
  refine settle hx fun r => ?_
  cases r with
  | ok a => exact hk a
  | error f => exact Machine.Before.refl

theorem counted {body : Run Value} (callee : Value) (span : Span) (hbody : body.Grows) :
    (Eval.counted st callee span body).Grows := by
  refine bind (checkCanceled span) fun _ m => ?_
  by_cases hlimit : st.limit ≤ m.depth
  · simp only [if_pos hlimit]
    exact .refl m
  · simp only [if_neg hlimit]
    generalize (if st.traced = true then callee.print else []) = name
    have henter : m.Before (Run.emit st .callStart span name m.enter).machine :=
      (Machine.Before.enter m).trans (.emit st _ _ _ _)
    have hleave : ∀ m' : Machine, m'.Before (Run.emit st .callEnd span name m').machine.leave :=
      fun m' => (Machine.Before.emit st .callEnd span name m').trans (.leave _)
    have hafter := henter.trans (hbody _)
    cases hrun : body (Run.emit st .callStart span name m.enter).machine with
    | done v m' | failed f m' =>
      rw [hrun] at hafter
      exact hafter.trans (hleave m')
    | exhausted m' =>
      rw [hrun] at hafter
      exact hafter

theorem steps (st : Settings) : Steps st (fun _ _ => True) Run.Grows where
  give := give
  exhaust := Machine.Before.refl
  fail _ := Machine.Before.refl
  settle := settle
  look _ := Machine.Before.refl
  newFrame parent bs hk := fun m =>
    (Machine.Before.changed m _ m.canceled).trans (hk m.heap.frames.size (fun _ => trivial) _)
  define _ _ _ := change _
  declare _ _ := change _
  reassign v _ hotherwise := bind Machine.Before.refl fun holder => by
    cases holder with
    | some a => exact change _
    | none => exact hotherwise
  setField _ _ _ := change _
  freshId := of_done (fun _ => rfl) fun m => .changed m _ _
  newObject _ := of_done (fun _ => rfl) fun m => .changed m _ _
  write := write
  checkCanceled := checkCanceled
  cancel hx := fun m => (Machine.Before.changed m m.heap true).trans (hx _)
  counted := counted

end Run.Grows

theorem Eval.grows (st : Settings) (fuel : Nat) : HoldsAt st (fun _ _ => True) Run.Grows fuel :=
  holdsAt (Run.Grows.steps st) fuel

end Lox
