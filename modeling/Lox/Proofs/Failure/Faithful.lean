import Lox.Proofs.Failure.Calm
import Lox.Proofs.Failure.Chronicle

set_option autoImplicit false
set_option relaxedAutoImplicit false

namespace Lox

open Grammar (Tree)

/-- A call that is noted stands among some trees, and so does the place of a failure of the program.
-/
def Note.Fits (C : Tree → Prop) : Note → Prop
  | .call span => ∃ f args, C (.expr (.call span f args))
  | .fault f => f.At C
  | _ => True

structure Note.Tell (C : Tree → Prop) (m m' : Machine) (l : List Note) : Prop where
  heap : m'.heap.All (Value.From C)
  written : m'.written = m.written ++ Note.written l
  fits : ∀ y ∈ l, y.Fits C

/-- What is known of a computation beforehand: the trees among which the code of the programs
stands, whether failures are handed on directly, whether it is the body of a call, and the failures
that a native function has been told. -/
structure Premises where
  trees : Tree → Prop
  direct : Prop
  inCall : Prop
  told : List Failure

/-- How a computation has ended, and what its notes are. A failure is explained by the notes, and
has its place unless a call gives it one; or it has been told before. -/
inductive Chronicling.Ends (g : Premises) (m : Machine) {α : Type} (Q : α → Prop) :
    Outcome α × List Note → Prop
  | done {a : α} {m' : Machine} {l : List Note} : Note.Tell g.trees m m' l →
      Note.Settled g.direct l → Q a → Ends g m Q (.done a m', l)
  | failed {f : Failure} {m' : Machine} {l : List Note} : Note.Tell g.trees m m' l →
      Note.Balanced l → Note.Explains g.direct l f → g.inCall ∨ f.Placed →
        Ends g m Q (.failed f m', l)
  | passed {f : Failure} {m' : Machine} {l : List Note} : Note.Tell g.trees m m' l →
      Note.Balanced l → f ∈ g.told → Ends g m Q (.failed f m', l)
  | exhausted {m' : Machine} {l : List Note} : Note.Tell g.trees m m' l →
      Ends g m Q (.exhausted m', l)

def Chronicling.Faithful (g : Premises) {α : Type} (t : Noted Note α) (Q : α → Prop) : Prop :=
  ∀ past m, m.heap.All (Value.From g.trees) → Ends g m Q (t past m)

namespace Note.Tell

variable {C : Tree → Prop} {m m₁ m₂ : Machine} {l l' : List Note}

private theorem refl (h : m.heap.All (Value.From C)) : Note.Tell C m m [] :=
  ⟨h, (List.append_nil _).symm, List.forall_mem_nil _⟩

theorem trans (h : Note.Tell C m m₁ l) (h' : Note.Tell C m₁ m₂ l') :
    Note.Tell C m m₂ (l ++ l') where
  heap := h'.heap
  written := by rw [h'.written, h.written, written_append, List.append_assoc]
  fits := List.forall_mem_append.2 ⟨h.fits, h'.fits⟩

theorem unnoted (h : Note.Tell C m m₁ l) (h' : Note.Tell C m₁ m₂ []) : Note.Tell C m m₂ l :=
  List.append_nil l ▸ h.trans h'

theorem silent (hheap : m₁.heap.All (Value.From C)) (houtput : m₁.output = m.output)
    (hwritten : Note.written l = []) (hfits : ∀ y ∈ l, y.Fits C) : Note.Tell C m m₁ l where
  heap := hheap
  written := by
    unfold Machine.written
    rw [houtput, hwritten, List.append_nil]
  fits := hfits

end Note.Tell

namespace Chronicling

open Noted

variable {g : Premises} {α β : Type} {Q : α → Prop} {R : β → Prop} {m m' : Machine}

/-! ### Ends -/

namespace Ends

theorem tell {r : Outcome α × List Note} (hr : Ends g m Q r) :
    Note.Tell g.trees m r.1.machine r.2 := by
  cases hr with
  | done h _ _ => exact h
  | failed h _ _ _ => exact h
  | passed h _ _ => exact h
  | exhausted h => exact h

private theorem fault {f : Failure} {m' : Machine} (hheap : m'.heap.All (Value.From g.trees))
    (houtput : m'.output = m.output) (hf : f.At g.trees) : Ends g m Q (.failed f m', [.fault f]) :=
  .failed (.silent hheap houtput rfl (List.forall_mem_singleton.2 hf))
    (.of_failure rfl) (.single rfl)
    (.inr hf.placed)

private theorem after {l : List Note} {r : Outcome β × List Note} (h : Note.Tell g.trees m m' l)
    (hl : Note.Settled g.direct l) (hr : Ends g m' R r) : Ends g m R (r.1, l ++ r.2) := by
  cases hr with
  | done h' hl' hb => exact .done (h.trans h') (hl.append hl') hb
  | failed h' hl' hf hplace =>
    exact .failed (h.trans h') (hl.balanced.append hl') (hf.after hl) hplace
  | passed h' hl' hf => exact .passed (h.trans h') (hl.balanced.append hl') hf
  | exhausted h' => exact .exhausted (h.trans h')

theorem of_canceled {r : Outcome α × List Note} (hr : Ends g { m with canceled := true } Q r) :
    Ends g m Q r := by
  cases hr with
  | done h' hl ha => exact .done ⟨h'.heap, h'.written, h'.fits⟩ hl ha
  | failed h' hl hf hplace => exact .failed ⟨h'.heap, h'.written, h'.fits⟩ hl hf hplace
  | passed h' hl hf => exact .passed ⟨h'.heap, h'.written, h'.fits⟩ hl hf
  | exhausted h' => exact .exhausted ⟨h'.heap, h'.written, h'.fits⟩

private theorem inside {C : Tree → Prop} {d : Prop} {told : List Failure}
    {r : Outcome α × List Note}
    (hr : Ends ⟨C, d, False, []⟩ m Q r) : Ends ⟨C, d, True, told⟩ m Q r := by
  cases hr with
  | done h' hl ha => exact .done h' hl ha
  | failed h' hl hf hplace => exact .failed h' hl hf (.inl trivial)
  | passed h' hl hf => cases hf
  | exhausted h' => exact .exhausted h'

end Ends

/-! ### One computation after another -/

namespace Faithful

theorem step {x : Run α} (hx : x.Calm g.trees Q) : Faithful g (chronicling.step x) Q := by
  intro past m hm
  have hends := hx m hm
  show Ends g m Q (x m, chronicling.faults (x m))
  generalize x m = o at hends
  cases hends with
  | done hheap ha => exact .done (.silent hheap rfl rfl (List.forall_mem_nil _)) .nil ha
  | failed hheap hf => exact .fault hheap rfl hf
  | exhausted hheap => exact .exhausted (.silent hheap rfl rfl (List.forall_mem_nil _))

theorem bind {t : Noted Note α} {k : α → Noted Note β} (ht : Faithful g t Q)
    (hk : ∀ a, Q a → Faithful g (k a) R) : Faithful g (t >>= k) R := by
  intro past m hm
  have hends := ht past m hm
  rcases hrun : t past m with ⟨o, l⟩
  rw [hrun] at hends
  cases hends with
  | done h hl ha =>
    rw [bind_done hrun]
    exact (hk _ ha _ _ h.heap).after h hl
  | failed h hl hf hplace =>
    rw [bind_failed hrun]
    exact .failed h hl hf hplace
  | passed h hl hf =>
    rw [bind_failed hrun]
    exact .passed h hl hf
  | exhausted h =>
    rw [bind_exhausted hrun]
    exact .exhausted h

theorem give {a : α} (ha : Q a) : Faithful g (chronicling.step (Run.give a)) Q := .step (.give ha)

theorem write (st : Settings) (line : Text) :
    Faithful g (chronicling.write st line) fun _ => True := by
  intro past m hm
  unfold Scribe.write Run.write
  cases st.outputFault with
  | some reason => exact .done (.refl hm) .nil trivial
  | none =>
    show Ends g m _ (_, [.wrote line])
    refine .done ⟨hm, ?_, List.forall_mem_singleton.2 trivial⟩ ⟨fun _ => rfl, fun _ => ?_⟩ trivial
    · simp [Machine.written, Note.written, Note.text]
    · exact List.forall_mem_singleton.2 rfl

theorem round {c : Noted Note Bool} {t : Noted Note α} {span : Span}
    (hspan : Grammar.Spanned g.trees span) (hc : Faithful g c fun _ => True) (ht : Faithful g t Q) :
    Faithful g (chronicling.round span c t) fun r => ∀ a, r = some a → Q a := by
  unfold Scribe.round
  simp only [Chronicling.head, enter, quiet_give_bind]
  refine .bind (.step (.checkCanceled hspan)) fun _ _ => .bind hc fun goOn _ => ?_
  cases goOn with
  | false => exact .give nofun
  | true => exact .bind ht fun a ha => .give fun _ hsome => Option.some.inj hsome ▸ ha

variable {C : Tree → Prop} {d : Prop} {told : List Failure}

theorem inside {t : Noted Note α} (ht : Faithful ⟨C, d, False, []⟩ t Q) :
    Faithful ⟨C, d, True, told⟩ t Q :=
  fun past m hm => (ht past m hm).inside

theorem raise (f : Failure) :
    Faithful ⟨C, d, True, told⟩ (chronicling.raise told f : Noted Note α) Q := by
  intro past m hm
  by_cases hf : f ∈ told
  · rw [raise_of_mem hf]
    exact .passed (.refl hm) .nil hf
  · have hnotes : chronicling.notes (.raised told f) = [.raised f] := if_neg hf
    unfold Scribe.raise
    rw [hnotes]
    exact .failed (.silent hm rfl rfl (List.forall_mem_singleton.2 trivial))
      (.of_failure rfl) (.single rfl)
      (.inl trivial)

/-! ### Calls -/

/-- A native function goes on when a call of its own has ended. If it does not hand a failure on
directly, it may keep it for a while. -/
theorem callback {t : Noted Note α} {k : Except Failure α → Noted Note β}
    (ht : Faithful ⟨C, d, True, []⟩ t Q)
    (hok : ∀ a, Q a → Faithful ⟨C, d, True, told⟩ (k (.ok a)) R)
    (hkept : ¬ d → ∀ f, Faithful ⟨C, d, True, f :: told⟩ (k (.error f)) R)
    (hdirect : d → ∀ f, k (.error f) = .quiet (Run.fail f) ∨ k (.error f) = .quiet Run.exhaust) :
    Faithful ⟨C, d, True, told⟩ (t.settle k) R := by
  intro past m hm
  have hends := ht past m hm
  rcases hrun : t past m with ⟨o, l⟩
  rw [hrun] at hends
  cases hends with
  | @done a m' l h hl ha =>
    rw [settle_ofResult (r := .ok a) hrun]
    exact (hok a ha _ m' h.heap).after h hl
  | @failed f m' l h hl hf _ =>
    rw [settle_ofResult (r := .error f) hrun]
    by_cases hd : d
    · obtain hk | hk := hdirect hd f
      · rw [hk]
        show Ends _ m R (.failed f m', l ++ [])
        rw [List.append_nil]
        exact .failed h hl hf (.inl trivial)
      · rw [hk]
        exact .exhausted (h.trans (.refl h.heap))
    · have hends' := hkept hd f (past ++ l) m' h.heap
      generalize k (.error f) (past ++ l) m' = r at hends'
      have hsettled : Note.Settled d l := ⟨hl, fun hd' => absurd hd' hd⟩
      cases hends' with
      | done h' hl' hb => exact .done (h.trans h') (hsettled.append hl') hb
      | failed h' hl' hf' _ =>
        exact .failed (h.trans h') (hl.append hl') (hf'.after hsettled) (.inl trivial)
      | @passed f' m'' l' h' hl' hf' =>
        rcases List.mem_cons.1 hf' with rfl | hf'
        · exact .failed (h.trans h') (hl.append hl') (hf.kept hd l') (.inl trivial)
        · exact .passed (h.trans h') (hl.append hl') hf'
      | exhausted h' => exact .exhausted (h.trans h')
  | passed _ _ hf => cases hf
  | exhausted h =>
    rw [settle_exhausted hrun]
    exact .exhausted h

end Faithful

private theorem Ends.around {C : Tree → Prop} {d : Prop} {st : Settings}
    {callee : Value} {span : Span}
    {Q : Value → Prop} {r : Outcome Value × List Note}
    (hcall : ∃ f args, C (.expr (.call span f args))) (hm : m.heap.All (Value.From C))
    (hr : Ends ⟨C, d, True, []⟩ (Eval.entry st callee span m) Q r) :
    Ends ⟨C, d, False, []⟩ m Q
      (Eval.afterBody st callee span r.1, .call span :: chronicling.ended r) := by
  have hentry : Note.Tell C m (Eval.entry st callee span m) [.call span] := by
    refine .silent ?_ ?_ rfl (List.forall_mem_singleton.2 hcall)
    · rw [Eval.heap_entry]
      exact hm
    · unfold Eval.entry
      rw [Run.machine_emit]
      rfl
  have hexit : ∀ m', m'.heap.All (Value.From C) →
      Note.Tell C m' (Eval.exit st callee span m') [.back] := by
    intro m' hm'
    refine .silent ?_ ?_ rfl (List.forall_mem_singleton.2 trivial)
    · rw [Eval.heap_exit]
      exact hm'
    · unfold Eval.exit
      rw [Run.machine_emit]
      rfl
  cases hr with
  | done h hl ha => exact .done (hentry.trans (h.trans (hexit _ h.heap))) (hl.around span) ha
  | @failed f m' l h hl hf _ =>
    exact .failed (hentry.trans (h.trans (hexit _ h.heap))) (hl.around span) (hf.around span)
      (.inr (f.placed_attach span))
  | passed _ _ hf => cases hf
  | exhausted h => exact .exhausted (hentry.trans h)

/-- A call that is refused fails at its own place; any other call gives its place to a failure that
has none. -/
theorem Faithful.counted {C : Tree → Prop} {d : Prop} {st : Settings} {callee : Value} {span : Span}
    {Q : Value → Prop} {t : Noted Note Value} (ht : Faithful ⟨C, d, True, []⟩ t Q)
    (hcall : ∃ f args, C (.expr (.call span f args))) :
    Faithful ⟨C, d, False, []⟩ (chronicling.counted st callee span t) Q := by
  intro past m hm
  obtain ⟨f, args, htree⟩ := hcall
  have hat : ∀ {e : RuntimeError}, e.code.isRuntime = true → (Failure.runtime e (some span)).At C :=
    fun he => ⟨he, span, rfl, _, htree, rfl⟩
  unfold Scribe.counted
  dsimp only
  by_cases hrefused : m.canceled = true ∨ st.limit ≤ m.depth
  · rw [if_pos hrefused]
    by_cases hcanceled : m.canceled = true
    · rw [Eval.counted_of_canceled hcanceled]
      exact .fault hm rfl (hat rfl)
    · have hgoes := eq_false_of_ne_true hcanceled
      have hlimit := hrefused.resolve_left hcanceled
      rw [Eval.counted_of_overflow hgoes hlimit]
      exact .fault hm rfl (hat rfl)
  · obtain ⟨hcanceled, hroom⟩ := not_or.1 hrefused
    have hgoes := eq_false_of_ne_true hcanceled
    have hlimit := Nat.lt_of_not_le hroom
    have hheap : (Eval.entry st callee span m).heap.All (Value.From C) := by
      rw [Eval.heap_entry]
      exact hm
    rw [if_neg hrefused, Eval.counted_of_room hgoes hlimit]
    exact (ht _ _ hheap).around ⟨f, args, htree⟩ hm

end Chronicling
end Lox
