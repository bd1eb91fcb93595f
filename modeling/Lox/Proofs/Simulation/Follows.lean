import Lox.Proofs.Run.Grows
import Lox.Proofs.Simulation.State

/-!
A computation that follows another one. From matching machines the two end in the same way and leave
matching machines. Where loops may be written in two ways the follower has more steps to go, so it
gets a larger bound on them; if the first computation uses up its steps, the follower has brought
about at least as much, however it goes on. The steps of evaluation that run no code of the program
follow each other.
-/

set_option autoImplicit false
set_option relaxedAutoImplicit false

namespace Lox

open Text (lit)

/-- A bound on steps for a follower: the same one, or a larger one if it may have more steps to go.
-/
def Latitude.Fuel (L : Latitude) (n N : Nat) : Prop := (L.loops → 5 * n ≤ N) ∧ (¬ L.loops → n = N)

namespace Latitude.Fuel

variable {L : Latitude} {n N : Nat}

theorem of_loops (hL : L.loops) (h : 5 * n ≤ N) : L.Fuel n N :=
  ⟨fun _ => h, fun hno => absurd hL hno⟩

theorem of_eq (hL : ¬ L.loops) (n : Nat) : L.Fuel n n :=
  ⟨fun hloops => absurd hloops hL, fun _ => rfl⟩

theorem pos (h : L.Fuel (n + 1) N) : ∃ k, N = k + 1 := by
  by_cases hL : L.loops
  · have hle := h.1 hL
    exact ⟨N - 1, by omega⟩
  · exact ⟨n, (h.2 hL).symm⟩

theorem of_succ (h : L.Fuel (n + 1) (N + 1)) : L.Fuel n N := by
  by_cases hL : L.loops
  · have hle := h.1 hL
    exact of_loops hL (by omega)
  · exact ⟨fun hloops => absurd hloops hL, fun _ => Nat.succ.inj (h.2 hL)⟩

end Latitude.Fuel

inductive Outcome.Matches (L : Latitude) {α β : Type} (Q : α → β → Prop) :
    Outcome α → Outcome β → Prop
  | done {a : α} {b : β} {m m' : Machine} :
      m.Matches L m' → Q a b → Outcome.Matches L Q (.done a m) (.done b m')
  | failed (f : Failure) {m m' : Machine} :
      m.Matches L m' → Outcome.Matches L Q (.failed f m) (.failed f m')
  | exhausted {m m' : Machine} :
      m.Matches L m' → Outcome.Matches L Q (.exhausted m) (.exhausted m')
  | outlasted {m : Machine} {o' : Outcome β} :
      L.loops → m.Before o'.machine → Outcome.Matches L Q (.exhausted m) o'

/-- A computation is followed by another one from every two matching machines. -/
def Follows (L : Latitude) {α β : Type} (x : Run α) (x' : Run β) (Q : α → β → Prop) : Prop :=
  ∀ m m', m.Matches L m' → Outcome.Matches L Q (x m) (x' m')

def Run.Gives {α : Type} (x : Run α) (P : α → Prop) : Prop := ∀ m a m', x m = .done a m' → P a

namespace Run

variable {α β : Type}

theorem Gives.bind {x : Run α} {k : α → Run β} {P : β → Prop} (hk : ∀ a, (k a).Gives P) :
    (x >>= k).Gives P := by
  intro m b m' h
  change andThen x k m = _ at h
  unfold andThen at h
  cases hx : x m with
  | done a m₁ =>
    rw [hx] at h
    exact hk a m₁ b m' h
  | failed f m₁ | exhausted m₁ =>
    rw [hx] at h
    cases h

theorem Gives.give {a : α} {P : α → Prop} (ha : P a) : (Run.give a).Gives P := by
  rintro m _ _ ⟨⟩
  exact ha

end Run

namespace Follows

variable {L : Latitude} {α β γ δ : Type} {Q : α → β → Prop} {R : γ → δ → Prop}

theorem give {a : α} {b : β} (h : Q a b) : Follows L (Run.give a) (Run.give b) Q :=
  fun _ _ hm => .done hm h

theorem fail (f : Failure) : Follows L (Run.fail f : Run α) (Run.fail f : Run β) Q :=
  fun _ _ hm => .failed f hm

theorem error (e : RuntimeError) (span : Span) :
    Follows L (Run.error e span : Run α) (Run.error e span : Run β) Q :=
  fail _

theorem broken (e : InternalError) (span : Span) :
    Follows L (Run.broken e span : Run α) (Run.broken e span : Run β) Q :=
  fail _

theorem outlasted (hL : L.loops) {x' : Run β} (hx' : x'.Grows) :
    Follows L (Run.exhaust : Run α) x' Q := by
  intro m m' hm
  have hafter := hx' m'
  exact .outlasted hL
    ⟨hm.output ▸ hafter.output, hm.events ▸ hafter.events, hm.calls ▸ hafter.calls,
    hm.peak ▸ hafter.peak⟩

theorem exhaust {N : Nat} (x' : Nat → Run β) (hfuel : L.Fuel 0 N) (hzero : x' 0 = Run.exhaust)
    (hgrows : (x' N).Grows) : Follows L (Run.exhaust : Run α) (x' N) Q := by
  by_cases hL : L.loops
  · exact outlasted hL hgrows
  · obtain rfl := hfuel.2 hL
    rw [hzero]
    exact fun _ _ hm => .exhausted hm

theorem and_gives {x : Run α} {x' : Run β} {P : α → Prop} (h : Follows L x x' Q) (hx : x.Gives P) :
    Follows L x x' fun a b => Q a b ∧ P a := by
  intro m m' hm
  have hends := h m m' hm
  have hgives := hx m
  generalize x m = o, x' m' = o' at hends hgives
  cases hends with
  | done hm₁ hab => exact .done hm₁ ⟨hab, hgives _ _ rfl⟩
  | failed f hm₁ => exact .failed f hm₁
  | exhausted hm₁ => exact .exhausted hm₁
  | outlasted hL hbefore => exact .outlasted hL hbefore

/-- What goes on after a follower takes nothing back, also if the first computation got no further.
-/
theorem settle {x : Run α} {x' : Run β} {k : Except Failure α → Run γ}
    {k' : Except Failure β → Run δ}
    (hx : Follows L x x' Q) (hok : ∀ a b, Q a b → Follows L (k (.ok a)) (k' (.ok b)) R)
    (herror : ∀ f, Follows L (k (.error f)) (k' (.error f)) R) (hgrows : ∀ r, (k' r).Grows) :
    Follows L (x.settle k) (x'.settle k') R := by
  intro m m' hm
  have hfirst := hx m m' hm
  unfold Run.settle
  generalize x m = o, x' m' = o' at hfirst
  cases hfirst with
  | done hm₁ hab => exact hok _ _ hab _ _ hm₁
  | failed f hm₁ => exact herror f _ _ hm₁
  | exhausted hm₁ => exact .exhausted hm₁
  | outlasted hL hbefore =>
    refine .outlasted hL ?_
    cases o' with
    | done b m₁' => exact hbefore.trans (hgrows (.ok b) m₁')
    | failed f m₁' => exact hbefore.trans (hgrows (.error f) m₁')
    | exhausted m₁' => exact hbefore

theorem bind {x : Run α} {x' : Run β} {k : α → Run γ} {k' : β → Run δ} (hx : Follows L x x' Q)
    (hk : ∀ a b, Q a b → Follows L (k a) (k' b) R) (hgrows : ∀ b, (k' b).Grows) :
    Follows L (x >>= k) (x' >>= k') R := by
  rw [Run.bind_eq_settle, Run.bind_eq_settle]
  refine hx.settle hk fail fun r => ?_
  cases r with
  | ok b => exact hgrows b
  | error f => exact Machine.Before.refl

private theorem next {x : Run α} {x' : Run β} {k : α → Run γ}
    {k' : β → Run δ} (hx : Follows L x x' Q)
    (hprompt : ∀ m m₁, x m ≠ .exhausted m₁) (hk : ∀ a b, Q a b → Follows L (k a) (k' b) R) :
    Follows L (x >>= k) (x' >>= k') R := by
  intro m m' hm
  have hfirst := hx m m' hm
  have hends := hprompt m
  show Outcome.Matches L R (Run.andThen x k m) (Run.andThen x' k' m')
  unfold Run.andThen
  generalize x m = o, x' m' = o' at hfirst hends
  cases hfirst with
  | done hm₁ hab => exact hk _ _ hab _ _ hm₁
  | failed f hm₁ => exact .failed f hm₁
  | exhausted hm₁ => exact absurd rfl (hends _)
  | outlasted hL hbefore => exact absurd rfl (hends _)

theorem bind_give {x : Run α} {x' : Run β} {f : α → γ} (hx : Follows L x x' Q) {R : γ → β → Prop}
    (hf : ∀ a b, Q a b → R (f a) b) : Follows L (x >>= fun a => Run.give (f a)) x' R := by
  intro m m' hm
  have hends := hx m m' hm
  show Outcome.Matches L R (Run.andThen x _ m) _
  unfold Run.andThen
  generalize x m = o, x' m' = o' at hends
  cases hends with
  | done hm₁ hab => exact .done hm₁ (hf _ _ hab)
  | failed f hm₁ => exact .failed f hm₁
  | exhausted hm₁ => exact .exhausted hm₁
  | outlasted hL hbefore => exact .outlasted hL hbefore

theorem give_bind {x : Run α} {x' : Run β} {f : β → δ} (hx : Follows L x x' Q) {R : α → δ → Prop}
    (hf : ∀ a b, Q a b → R a (f b)) : Follows L x (x' >>= fun b => Run.give (f b)) R := by
  intro m m' hm
  have hends := hx m m' hm
  show Outcome.Matches L R _ (Run.andThen x' _ m')
  unfold Run.andThen
  generalize x m = o, x' m' = o' at hends
  cases hends with
  | done hm₁ hab => exact .done hm₁ (hf _ _ hab)
  | failed f hm₁ => exact .failed f hm₁
  | exhausted hm₁ => exact .exhausted hm₁
  | outlasted hL hbefore =>
    cases o' with
    | done b m₁' | failed f m₁' | exhausted m₁' => exact .outlasted hL hbefore

/-! ### Single steps -/

theorem look {f : Heap → α} {f' : Heap → β} {k : α → Run γ} {k' : β → Run δ}
    (hk : ∀ h h', h.Matches L h' → Follows L (k (f h)) (k' (f' h')) R) :
    Follows L (Run.look f >>= k) (Run.look f' >>= k') R :=
  fun m m' hm => hk m.heap m'.heap hm.heap m m' hm

theorem lookRel {A B : Type} {S : A → B → Prop} {f : Heap → Option A} {f' : Heap → Option B}
    {k : Option A → Run γ} {k' : Option B → Run δ}
    (hf : ∀ h h', h.Matches L h' → Option.Rel S (f h) (f' h'))
    (hnone : Follows L (k none) (k' none) R)
    (hsome : ∀ a b, S a b → Follows L (k (some a)) (k' (some b)) R) :
    Follows L (Run.look f >>= k) (Run.look f' >>= k') R := by
  refine look fun h h' hh => ?_
  have hrel := hf h h' hh
  generalize f h = a, f' h' = b at hrel
  cases hrel with
  | none => exact hnone
  | some hab => exact hsome _ _ hab

theorem change {f f' : Heap → Heap} {k k' : Unit → Run γ} {R : γ → γ → Prop}
    (hf : ∀ h h', h.Matches L h' → (f h).Matches L (f' h')) (hk : Follows L (k ()) (k' ()) R) :
    Follows L (Run.change f >>= k) (Run.change f' >>= k') R :=
  fun _ _ hm => hk _ _ (hm.withHeap (hf _ _ hm.heap))

theorem newFrame (p : FrameId) {bs bs' : Bindings} (hbs : bs.Matches L bs') {k : FrameId → Run γ}
    {k' : FrameId → Run δ} (hk : ∀ e, Follows L (k e) (k' e) R) :
    Follows L (Run.newFrame p bs >>= k) (Run.newFrame p bs' >>= k') R := by
  intro m m' hm
  obtain ⟨hid, hchild⟩ := hm.heap.child p hbs
  show Outcome.Matches L R (k (m.heap.child p bs).1 { m with heap := (m.heap.child p bs).2 })
    (k' (m'.heap.child p bs').1 { m' with heap := (m'.heap.child p bs').2 })
  rw [hid]
  exact hk _ _ _ (hm.withHeap hchild)

theorem freshId {k : Nat → Run γ} {k' : Nat → Run δ} (hk : ∀ i, Follows L (k i) (k' i) R) :
    Follows L (Run.freshId >>= k) (Run.freshId >>= k') R := by
  intro m m' hm
  obtain ⟨hid, hfresh⟩ := hm.heap.freshId
  show Outcome.Matches L R (k m.heap.freshId.1 { m with heap := m.heap.freshId.2 })
    (k' m'.heap.freshId.1 { m' with heap := m'.heap.freshId.2 })
  rw [hid]
  exact hk _ _ _ (hm.withHeap hfresh)

theorem newObject {c c' : Class} (hc : Class.Alike L.likeness c c') {k : Value → Run γ}
    {k' : Value → Run δ} (hk : ∀ v v', v.Matches L v' → Follows L (k v) (k' v') R) :
    Follows L (Run.newObject c >>= k) (Run.newObject c' >>= k') R := by
  intro m m' hm
  obtain ⟨hid, hnew⟩ := hm.heap.newObject
  show Outcome.Matches L R (k (.object m.heap.newObject.1 c) { m with heap := m.heap.newObject.2 })
    (k' (.object m'.heap.newObject.1 c') { m' with heap := m'.heap.newObject.2 })
  rw [hid]
  exact hk _ _ (.object _ hc) _ _ (hm.withHeap hnew)

theorem bound {f f' : Function} (hf : f.Matches L f') {v v' : Value} (hv : v.Matches L v') :
    Follows L (Run.bound f v) (Run.bound f' v') (Value.Matches L) :=
  freshId fun i => give (.method i hf hv)

theorem around (enter enter' leave leave' : Machine → Machine) (onFailure : Failure → Failure)
    {m m' : Machine} (henter : (enter m).Matches L (enter' m'))
    (hleave : ∀ m m', m.Matches L m' → (leave m).Matches L (leave' m'))
    (hafter : ∀ m : Machine, m.Before (leave' m)) {x : Run α} {x' : Run β}
    {o : Outcome α} {o' : Outcome β} (hx : Follows L x x' Q)
    (ho : o = match x (enter m) with
      | .done a m => .done a (leave m)
      | .failed f m => .failed (onFailure f) (leave m)
      | .exhausted m => .exhausted m)
    (ho' : o' = match x' (enter' m') with
      | .done a m => .done a (leave' m)
      | .failed f m => .failed (onFailure f) (leave' m)
      | .exhausted m => .exhausted m) : Outcome.Matches L Q o o' := by
  have hends := hx _ _ henter
  rw [ho, ho']
  generalize x (enter m) = p, x' (enter' m') = p' at hends
  cases hends with
  | done hm₁ hab => exact .done (hleave _ _ hm₁) hab
  | failed f hm₁ => exact .failed _ (hleave _ _ hm₁)
  | exhausted hm₁ => exact .exhausted hm₁
  | outlasted hL hbefore =>
    refine .outlasted hL ?_
    cases p' with
    | done b m₁' | failed f m₁' => exact hbefore.trans (hafter m₁')
    | exhausted m₁' => exact hbefore

variable {st st' : Settings} (hst : st.Matches L st')

theorem checkCanceled (span : Span) {k k' : Unit → Run γ} {R : γ → γ → Prop}
    (hk : Follows L (k ()) (k' ()) R) :
    Follows L (Run.checkCanceled span >>= k) (Run.checkCanceled span >>= k') R := by
  refine next (Q := fun _ _ => True) (fun m m' hm => ?_) (fun m m₁ => ?_) fun _ _ _ => hk
  · unfold Run.checkCanceled
    rw [hm.canceled]
    split
    · exact .failed _ hm
    · exact .done hm trivial
  · unfold Run.checkCanceled
    split <;> nofun

include hst

theorem write (line : Text) {k : Option Text → Run γ} {k' : Option Text → Run δ}
    (hk : ∀ fault, Follows L (k fault) (k' fault) R) :
    Follows L (Run.write st line >>= k) (Run.write st' line >>= k') R := by
  refine next (Q := fun fault fault' => fault' = fault) (fun m m' hm => ?_) (fun m m₁ => ?_)
    fun fault fault' hfault => hfault ▸ hk fault
  · unfold Run.write
    rw [hst.outputFault]
    cases st.outputFault with
    | some reason => exact .done hm rfl
    | none =>
      exact .done ⟨hm.heap, hm.calls, hm.depth, hm.peak, congrArg (List.cons _) hm.output,
        hm.events, hm.canceled⟩ rfl
  · unfold Run.write
    cases st.outputFault <;> nofun

theorem emit (kind : EventKind) (span : Span) (name : Text) {m m' : Machine} (hm : m.Matches L m') :
    (Run.emit st kind span name m).machine.Matches L (Run.emit st' kind span name m').machine := by
  rw [Run.machine_emit, Run.machine_emit]
  refine ⟨hm.heap, hm.calls, hm.depth, hm.peak, hm.output, ?_, hm.canceled⟩
  dsimp only
  rw [hst.traced, hm.events, hm.depth]

theorem counted {callee callee' : Value} (span : Span) (hcallee : callee.print = callee'.print)
    {x x' : Run Value} {Q : Value → Value → Prop} (hx : Follows L x x' Q) :
    Follows L (Eval.counted st callee span x) (Eval.counted st' callee' span x') Q := by
  refine checkCanceled span fun m m' hm => ?_
  rw [hst.limit, hst.traced, hm.depth, hcallee]
  dsimp only
  by_cases hlimit : st.limit ≤ m.depth
  · rw [if_pos hlimit, if_pos hlimit]
    exact .failed _ hm
  · rw [if_neg hlimit, if_neg hlimit]
    generalize (if st.traced then callee'.print else []) = name
    have henter : m.enter.Matches L m'.enter :=
      ⟨hm.heap, congrArg (· + 1) hm.calls, congrArg (· + 1) hm.depth,
        congrArg₂ (fun a b => max a (b + 1)) hm.peak hm.depth, hm.output, hm.events, hm.canceled⟩
    have hleave : ∀ m m' : Machine, m.Matches L m' → m.leave.Matches L m'.leave := fun m m' hm =>
      ⟨hm.heap, hm.calls, congrArg (· - 1) hm.depth, hm.peak, hm.output, hm.events, hm.canceled⟩
    refine around (fun m => (Run.emit st .callStart span name m.enter).machine)
      (fun m => (Run.emit st' .callStart span name m.enter).machine)
      (fun m => (Run.emit st .callEnd span name m).machine.leave)
      (fun m => (Run.emit st' .callEnd span name m).machine.leave) (Failure.attach span)
      (emit hst _ span name henter) (fun m m' hm => hleave _ _ (emit hst _ span name hm))
      (fun m => (Machine.Before.emit st' .callEnd span name m).trans (.leave _)) hx ?_ ?_
    · cases x (Run.emit st .callStart span name m.enter).machine <;> rfl
    · cases x' (Run.emit st' .callStart span name m'.enter).machine <;> rfl

end Follows
end Lox
