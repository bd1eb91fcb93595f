import Lox.Proofs.Bounds.Halts
import Lox.Proofs.Bounds.Roomier
import Lox.Proofs.Core.State
import Lox.Proofs.Grammar.Bare
import Lox.Proofs.Rename.Lockstep

set_option autoImplicit false
set_option relaxedAutoImplicit false

namespace Lox

open Text (lit)

def Failure.bare : Failure → Failure
  | .runtime e s => .runtime e (s.map fun _ => .blank)
  | .internal e s => .internal e (s.map fun _ => .blank)
  | .plain t => .plain t

private theorem Failure.bare_attach {f g : Failure} (h : f.bare = g.bare) (s s' : Span) :
    (f.attach s).bare = (g.attach s').bare := by
  have hbare : ∀ (f : Failure) (s : Span), (f.attach s).bare = f.bare.attach .blank := by
    intro f s
    cases f with
    | runtime e place => cases place <;> rfl
    | internal e place => rfl
    | plain t => rfl
  rw [hbare, hbare, h]

inductive Outcome.Parallel (L : Likeness) {α β : Type} (Q : α → β → Prop) :
    Outcome α → Outcome β → Prop
  | done {a : α} {b : β} {m m' : Machine} :
      m.Alike L m' → Q a b → Outcome.Parallel L Q (.done a m) (.done b m')
  | failed {f g : Failure} {m m' : Machine} :
      f.bare = g.bare → m.Alike L m' → Outcome.Parallel L Q (.failed f m) (.failed g m')

def Run.Parallel (L : Likeness) {α β : Type} (x : Run α) (y : Run β) (Q : α → β → Prop) : Prop :=
  ∀ m m', m.Alike L m' → Outcome.Parallel L Q (x m) (y m')

namespace Run.Parallel

variable {L : Likeness} {α β γ δ : Type} {Q : α → β → Prop} {R : γ → δ → Prop}

theorem give {a : α} {b : β} (h : Q a b) : Parallel L (Run.give a) (Run.give b) Q :=
  fun _ _ hm => .done hm h

theorem fail {f g : Failure} (h : f.bare = g.bare) :
    Parallel L (Run.fail f : Run α) (Run.fail g : Run β) Q :=
  fun _ _ hm => .failed h hm

theorem error (e : RuntimeError) (s s' : Span) :
    Parallel L (Run.error e s : Run α) (Run.error e s' : Run β) Q :=
  fail rfl

theorem broken (e : InternalError) (s s' : Span) :
    Parallel L (Run.broken e s : Run α) (Run.broken e s' : Run β) Q :=
  fail rfl

theorem bind {x : Run α} {y : Run β} {k : α → Run γ} {l : β → Run δ} (hx : Parallel L x y Q)
    (hk : ∀ a b, Q a b → Parallel L (k a) (l b) R) : Parallel L (x >>= k) (y >>= l) R := by
  intro m m' hm
  have hfirst := hx m m' hm
  show Outcome.Parallel L R (andThen x k m) (andThen y l m')
  unfold andThen
  generalize x m = o, y m' = o' at hfirst
  cases hfirst with
  | done hm₁ hab => exact hk _ _ hab _ _ hm₁
  | failed hf hm₁ => exact .failed hf hm₁

theorem look {f : Heap → α} {g : Heap → β} (hfg : ∀ h h', h.Alike L h' → Q (f h) (g h')) :
    Parallel L (Run.look f) (Run.look g) Q :=
  fun m m' hm => .done hm (hfg m.heap m'.heap hm.heap)

theorem change {f g : Heap → Heap} (hfg : ∀ h h', h.Alike L h' → (f h).Alike L (g h')) :
    Parallel L (Run.change f) (Run.change g) fun _ _ => True :=
  fun _ _ hm => .done (hm.withHeap (hfg _ _ hm.heap)) trivial

theorem define (e : FrameId) (name : Text) {v v' : Value} (hv : v.Alike L v') :
    Parallel L (Run.change (·.define e name v)) (Run.change (·.define e name v')) fun _ _ => True :=
  change fun _ _ hh => hh.define e name hv

private theorem newFrame (p : FrameId) {bs bs' : Bindings} (hbs : bs.Alike L bs') :
    Parallel L (Run.newFrame p bs) (Run.newFrame p bs') (· = ·) := by
  intro m m' hm
  obtain ⟨hid, hchild⟩ := hm.heap.child p hbs
  exact .done (hm.withHeap hchild) hid.symm

theorem freshId : Parallel L Run.freshId Run.freshId (· = ·) := by
  intro m m' hm
  obtain ⟨hid, hfresh⟩ := hm.heap.freshId
  exact .done (hm.withHeap hfresh) hid.symm

theorem newObject {c c' : Class} (hc : Class.Alike L c c') :
    Parallel L (Run.newObject c) (Run.newObject c') (Value.Alike L) := by
  intro m m' hm
  obtain ⟨hid, hnew⟩ := hm.heap.newObject
  have hobject : Value.Alike L (.object m.heap.newObject.1 c) (.object m'.heap.newObject.1 c') := by
    rw [hid]
    exact .object _ hc
  exact .done (hm.withHeap hnew) hobject

theorem bound {f f' : Function} (hf : L.member f f') {v v' : Value} (hv : v.Alike L v') :
    Parallel L (Run.bound f v) (Run.bound f' v') (Value.Alike L) := by
  refine bind freshId ?_
  rintro i _ rfl
  exact give (.method i hf hv)

theorem write (st : Settings) (line : Text) :
    Parallel L (Run.write st line) (Run.write st line) (· = ·) := by
  intro m m' hm
  unfold Run.write
  cases st.outputFault with
  | some reason => exact .done hm rfl
  | none =>
    exact .done ⟨hm.heap, hm.calls, hm.depth, hm.peak,
      congrArg (List.cons _) hm.output, hm.canceled⟩ rfl

theorem checkCanceled (s s' : Span) :
    Parallel L (Run.checkCanceled s) (Run.checkCanceled s') fun _ _ => True := by
  intro m m' hm
  unfold Run.checkCanceled
  rw [hm.canceled]
  split
  · exact .failed rfl hm
  · exact .done hm trivial

end Run.Parallel

/-- From every two alike machines, if the first computation ends, the second one ends in parallel,
if it may take enough steps. -/
def Leads (L : Likeness) {α β : Type} (x : Run α) (y : Budgeted β) (Q : α → β → Prop) : Prop :=
  ∀ m m', m.Alike L m' →
    (∃ m₁, x m = .exhausted m₁) ∨ ∃ o, y.Comes m' o ∧ Outcome.Parallel L Q (x m) o

namespace Leads

variable {L : Likeness} {α β γ δ : Type} {Q : α → β → Prop} {R : γ → δ → Prop}

theorem unstarted {x : Run α} {y : Budgeted β} (h : x = Run.exhaust) : Leads L x y Q :=
  fun m _ _ => .inl ⟨m, by rw [h]; rfl⟩

theorem steps {x : Run α} {y : Run β} (h : Run.Parallel L x y Q) : Leads L x (fun _ => y) Q :=
  fun m m' hm => .inr ⟨_, ⟨0, fun _ _ => rfl⟩, h m m' hm⟩

theorem give {a : α} {b : β} (h : Q a b) : Leads L (Run.give a) (fun _ => Run.give b) Q :=
  steps (.give h)

theorem later {x : Run α} {y : Budgeted β} (h : Leads L x (fun n => y (n + 1)) Q) : Leads L x y Q :=
  fun m m' hm => (h m m' hm).imp_right fun ⟨o, hcomes, ho⟩ => ⟨o, hcomes.later, ho⟩

theorem settle {x : Run α} {y : Budgeted β} {k : Except Failure α → Run γ}
    {l : Nat → Except Failure β → Run δ} (hx : Leads L x y Q)
    (hok : ∀ a b, Q a b → Leads L (k (.ok a)) (fun n => l n (.ok b)) R)
    (herror : ∀ f g, f.bare = g.bare → Leads L (k (.error f)) (fun n => l n (.error g)) R) :
    Leads L (x.settle k) (fun n => (y n).settle (l n)) R := by
  -- How the first computation ended decides how both go on.
  have hrest : ∀ (r : Except Failure α) (r' : Except Failure β) (m m' m₁ m₁' : Machine),
      x m = .ofResult r m₁ → y.Comes m' (.ofResult r' m₁') → m₁.Alike L m₁' →
      Leads L (k r) (fun n => l n r') R →
      (∃ m₂, x.settle k m = .exhausted m₂) ∨
        ∃ o, Budgeted.Comes (fun n => (y n).settle (l n)) m' o ∧
          Outcome.Parallel L R (x.settle k m) o := by
    intro r r' m m' m₁ m₁' hrun hcomes hm₁ hk
    rw [Run.settle_ofResult hrun]
    exact (hk m₁ m₁' hm₁).imp_right fun ⟨o, hcomes', ho⟩ => ⟨o, hcomes.settle hcomes', ho⟩
  intro m m' hm
  obtain ⟨m₁, hend⟩ | ⟨o, hcomes, ho⟩ := hx m m' hm
  · exact .inl ⟨m₁, Run.settle_exhausted hend⟩
  · generalize hrun : x m = p at ho
    cases ho with
    | @done a b m₁ m₁' hm₁ hab =>
      exact hrest (.ok a) (.ok b) m m' m₁ m₁' hrun hcomes hm₁ (hok a b hab)
    | @failed f g m₁ m₁' hf hm₁ =>
      exact hrest (.error f) (.error g) m m' m₁ m₁' hrun hcomes hm₁ (herror f g hf)

theorem bind {x : Run α} {y : Budgeted β} {k : α → Run γ} {l : Nat → β → Run δ} (hx : Leads L x y Q)
    (hk : ∀ a b, Q a b → Leads L (k a) (fun n => l n b) R) :
    Leads L (x >>= k) (fun n => y n >>= l n) R := by
  simp only [Run.bind_eq_settle]
  exact settle hx hk fun _ _ hf => steps (.fail hf)

theorem next {x : Run α} {y : Run β} {k : α → Run γ} {l : Nat → β → Run δ}
    (hx : Run.Parallel L x y Q) (hk : ∀ a b, Q a b → Leads L (k a) (fun n => l n b) R) :
    Leads L (x >>= k) (fun n => y >>= l n) R :=
  bind (steps hx) hk

theorem newFrame (p : FrameId) {bs bs' : Bindings} (hbs : bs.Alike L bs') {k : FrameId → Run γ}
    {l : Nat → FrameId → Run δ} (hk : ∀ e, Leads L (k e) (fun n => l n e) R) :
    Leads L (Run.newFrame p bs >>= k) (fun n => Run.newFrame p bs' >>= l n) R := by
  refine next (.newFrame p hbs) ?_
  rintro e _ rfl
  exact hk e

theorem counted {st : Settings} {callee callee' : Value} (s s' : Span)
    {x : Run Value} {y : Budgeted Value} {Q : Value → Value → Prop} (hx : Leads L x y Q) :
    Leads L (Eval.counted st callee s x) (fun n => Eval.counted st callee' s' (y n)) Q := by
  intro m m' hm
  cases hcanceled : m.canceled with
  | true =>
    have hcanceled' := hm.canceled.trans hcanceled
    refine .inr ⟨_, ⟨0, fun _ _ => Eval.counted_of_canceled hcanceled'⟩, ?_⟩
    rw [Eval.counted_of_canceled hcanceled]
    exact .failed rfl hm
  | false =>
    have hcanceled' := hm.canceled.trans hcanceled
    by_cases hlimit : st.limit ≤ m.depth
    · refine .inr ⟨_, ⟨0, fun _ _ => Eval.counted_of_overflow hcanceled' (hm.depth ▸ hlimit)⟩, ?_⟩
      rw [Eval.counted_of_overflow hcanceled hlimit]
      exact .failed rfl hm
    · have hlimit := Nat.not_le.1 hlimit
      have hlimit' : m'.depth < st.limit := hm.depth ▸ hlimit
      have hentry : (Eval.entry st callee s m).Alike L (Eval.entry st callee' s' m') :=
        hm.enter.emit st .callStart ..
      have hexit : ∀ {m m' : Machine}, m.Alike L m' →
          (Eval.exit st callee s m).Alike L (Eval.exit st callee' s' m') :=
        fun hm => (hm.emit st .callEnd ..).leave
      rw [Eval.counted_of_room hcanceled hlimit]
      obtain ⟨m₁, hend⟩ | ⟨o, hcomes, ho⟩ := hx _ _ hentry
      · exact .inl ⟨m₁, by rw [hend]; rfl⟩
      · refine .inr ?_
        generalize x (Eval.entry st callee s m) = p at ho
        cases ho with
        | @done v w m₁ m₁' hm₁ hv =>
          exact ⟨_, Eval.comes_counted (r := .ok w) hcanceled' hlimit' hcomes, .done (hexit hm₁) hv⟩
        | @failed f g m₁ m₁' hf hm₁ =>
          exact ⟨_, Eval.comes_counted (r := .error g) hcanceled' hlimit' hcomes,
            .failed (Failure.bare_attach hf s s') (hexit hm₁)⟩

end Leads

/-! ### Native functions -/

/-- Alike values go together, and failures that are the same but for their places. -/
def Pairing.parallel (L : Likeness) : Pairing Unit where
  value _ := Value.Alike L
  failure f g := f.bare = g.bare
  later _ _ := True

/-- A native function that tells alike values apart as little as it tells places apart, whenever it
is called with as many arguments as it takes. -/
def Native.Impartial (L : Likeness) (n : Native) : Prop := n.Paired (.parallel L) () n

theorem Native.Plain.impartial {n : Native} (h : n.Plain) (L : Likeness) : n.Impartial L :=
  h.paired (fun _ _ => Value.Alike.sameFace) (fun _ _ => Value.Alike.plain L) fun _ => rfl

theorem Registry.impartial_standard (L : Likeness) : ∀ n ∈ standard.natives, n.Impartial L :=
  fun n hn => (plain_standard n hn).impartial L

end Lox
