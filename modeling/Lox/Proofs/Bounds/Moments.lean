import Lox.Proofs.Bounds.Twins

set_option autoImplicit false
set_option relaxedAutoImplicit false

namespace Lox

/-! ### Canceled runs -/

/-- Once a run has been canceled, it is canceled at every later moment. -/
def StaysCanceled (l : List Moment) : Prop :=
  l.Pairwise fun x y => x.canceled = true → y.canceled = true

/-- The moments of a part of a run agree with whether the run is canceled when it begins and ends.
-/
structure Lasting (before : Bool) (l : List Moment) (after : Bool) : Prop where
  stays : StaysCanceled l
  begins : before = true → ∀ x ∈ l, x.canceled = true
  ends : ∀ x ∈ l, x.canceled = true → after = true
  across : before = true → after = true

namespace Lasting

variable {a b c : Bool} {l l' : List Moment}

private theorem nil (h : a = true → b = true) : Lasting a [] b :=
  ⟨.nil, fun _ _ hx => absurd hx List.not_mem_nil, fun _ hx => absurd hx List.not_mem_nil, h⟩

private theorem of_all (h : ∀ x ∈ l, x.canceled = a) : Lasting a l a where
  stays := List.pairwise_of_forall_mem_list fun x hx y hy hcanceled =>
    (h y hy).trans ((h x hx).symm.trans hcanceled)
  begins ha x hx := (h x hx).trans ha
  ends x hx hcanceled := (h x hx).symm.trans hcanceled
  across := id

private theorem append (h : Lasting a l b) (h' : Lasting b l' c) : Lasting a (l ++ l') c where
  stays := List.pairwise_append.2
    ⟨h.stays, h'.stays, fun x hx y hy hcanceled => h'.begins (h.ends x hx hcanceled) y hy⟩
  begins ha x hx := (List.mem_append.1 hx).elim (h.begins ha x) (h'.begins (h.across ha) x)
  ends x hx hcanceled := (List.mem_append.1 hx).elim
    (fun hx => h'.across (h.ends x hx hcanceled)) fun hx => h'.ends x hx hcanceled
  across ha := h'.across (h.across ha)

end Lasting

/-! ### Rounds -/

def momentsAt (kind : MomentKind) (span : Span) (l : List Moment) : Nat :=
  l.countP fun x => x.kind = kind ∧ x.span = span

private theorem momentsAt_append (kind : MomentKind) (span : Span) (l l' : List Moment) :
    momentsAt kind span (l ++ l') = momentsAt kind span l + momentsAt kind span l' :=
  List.countP_append

/-- At no time has the body of a loop been entered more often than a round of it has begun. -/
def WithinRounds (l : List Moment) : Prop :=
  ∀ k span, momentsAt .body span (l.take k) ≤ momentsAt .round span (l.take k)

namespace WithinRounds

variable {l l' : List Moment}

private theorem of_no_body (h : ∀ x ∈ l, x.kind ≠ .body) : WithinRounds l := by
  intro k span
  have hnone : momentsAt .body span (l.take k) = 0 := by
    refine List.countP_eq_zero.2 fun x hx => ?_
    simp [h x (List.mem_of_mem_take hx)]
  exact hnone ▸ Nat.zero_le _

private theorem nil : WithinRounds [] := of_no_body fun _ hx => absurd hx List.not_mem_nil

private theorem append (h : WithinRounds l) (h' : WithinRounds l') : WithinRounds (l ++ l') := by
  intro k span
  rw [List.take_append, momentsAt_append, momentsAt_append]
  exact Nat.add_le_add (h k span) (h' _ span)

private theorem body (h : WithinRounds l) (span : Span) (c c' : Bool) :
    WithinRounds ({ kind := .round, span, canceled := c } ::
      (l ++ [{ kind := .body, span, canceled := c' }])) := by
  intro k place
  cases k with
  | zero => exact Nat.le_refl _
  | succ k =>
    have hlast : momentsAt .body place
      ([{ kind := .body, span, canceled := c' }].take (k - l.length)) ≤
        momentsAt .round place [{ kind := .round, span, canceled := c }] := by
      refine Nat.le_trans (List.Sublist.countP_le (List.take_sublist _ _)) (Nat.le_of_eq ?_)
      simp [momentsAt]
    rw [List.take_succ_cons, List.take_append, ← List.singleton_append]
    simp only [momentsAt_append]
    have hnone : momentsAt .body place [{ kind := .round, span, canceled := c }] = 0 := by
      simp [momentsAt]
    have hl := h k place
    omega

end WithinRounds

/-! ### Computations -/

namespace Watching

open Noted

variable {st : Settings} {α β : Type}

/-- The moments of a computation agree with whether the run is canceled before and after it. -/
def Lasts (t : Noted Moment α) : Prop :=
  ∀ past (m : Machine), Lasting m.canceled (t past m).2 (t past m).1.machine.canceled

def KeepsRounds (t : Noted Moment α) : Prop := ∀ past m, WithinRounds (t past m).2

private theorem Lasts.settle {t : Noted Moment α}
    {k : Except Failure α → Noted Moment β} (ht : Lasts t)
    (hk : ∀ r, Lasts (k r)) : Lasts (t.settle k) := by
  intro past m
  have hfirst := ht past m
  rcases hrun : t past m with ⟨o, l⟩
  rw [hrun] at hfirst
  obtain ⟨r, m', rfl⟩ | ⟨m', rfl⟩ := o.eq_ofResult_or_exhausted
  · rw [settle_ofResult hrun]
    rw [Outcome.machine_ofResult] at hfirst
    exact hfirst.append (hk r _ m')
  · rw [settle_exhausted hrun]
    exact hfirst

private theorem KeepsRounds.settle {t : Noted Moment α} {k : Except Failure α → Noted Moment β}
    (ht : KeepsRounds t) (hk : ∀ r, KeepsRounds (k r)) : KeepsRounds (t.settle k) := by
  intro past m
  have hfirst := ht past m
  rcases hrun : t past m with ⟨o, l⟩
  rw [hrun] at hfirst
  obtain ⟨r, m', rfl⟩ | ⟨m', rfl⟩ := o.eq_ofResult_or_exhausted
  · rw [settle_ofResult hrun]
    exact hfirst.append (hk r _ m')
  · rw [settle_exhausted hrun]
    exact hfirst

private theorem Lasts.quiet {x : Run α}
    (h : ∀ m : Machine, m.canceled = true → (x m).machine.canceled = true) :
    Lasts (Noted.quiet x) :=
  fun _ m => .nil (h m)

private theorem Lasts.bind {t : Noted Moment α} {k : α → Noted Moment β} (ht : Lasts t)
    (hk : ∀ a, Lasts (k a)) : Lasts (t >>= k) := by
  rw [bind_eq_settle]
  refine ht.settle fun r => ?_
  cases r with
  | ok a => exact hk a
  | error f => exact .quiet fun _ => id

structure Orderly (t : Noted Moment α) : Prop where
  lasts : Lasts t
  rounds : KeepsRounds t

namespace Orderly

private theorem quiet {x : Run α}
    (h : ∀ m : Machine, m.canceled = true → (x m).machine.canceled = true) :
    Orderly (Noted.quiet x) :=
  ⟨.quiet h, fun _ _ => .nil⟩

private theorem fail (f : Failure) : Orderly (Noted.quiet (Run.fail f : Run α)) := quiet fun _ => id

private theorem brief {x : Run α} {Q : α → Prop} (hx : x.Brief True Q) :
    Orderly (Noted.quiet x) := by
  refine quiet fun m hm => ?_
  have hends := hx.ends m (m.heap.loopsIf_of trivial)
  generalize x m = o at hends
  cases hends <;> exact hm

private theorem settle {t : Noted Moment α} {k : Except Failure α → Noted Moment β} (ht : Orderly t)
    (hk : ∀ r, Orderly (k r)) : Orderly (t.settle k) :=
  ⟨ht.lasts.settle fun r => (hk r).lasts, ht.rounds.settle fun r => (hk r).rounds⟩

private theorem bind {t : Noted Moment α} {k : α → Noted Moment β} (ht : Orderly t)
    (hk : ∀ a, Orderly (k a)) :
    Orderly (t >>= k) := by
  rw [bind_eq_settle]
  refine ht.settle fun r => ?_
  cases r with
  | ok a => exact hk a
  | error f => exact fail f

private theorem rounds_round (span : Span) {c : Noted Moment Bool}
    {t : Noted Moment α} (hc : KeepsRounds c)
    (ht : KeepsRounds t) : KeepsRounds (watching.round span c t) := by
  intro past m
  unfold Scribe.round
  cases hcanceled : m.canceled with
  | true =>
    rw [bind_failed (head_of_canceled hcanceled)]
    exact .of_no_body (by simp)
  | false =>
    rw [bind_done (head_of_live hcanceled)]
    generalize past ++ _ = past'
    have hcondition := hc past' m
    rcases hrun : c past' m with ⟨o, l⟩
    rw [hrun] at hcondition
    have hchecked : WithinRounds [{ kind := .check, span, canceled := false }] :=
      .of_no_body (by simp)
    have hbegun : WithinRounds [{ kind := .check, span, canceled := false },
        { kind := .round, span, canceled := false }] := .of_no_body (by simp)
    cases o with
    | done goOn m' =>
      rw [bind_done hrun]
      cases goOn with
      | false => exact hbegun.append (hcondition.append .nil)
      | true =>
        have hbody := hchecked.append (hcondition.body span false m'.canceled)
        have hrest : KeepsRounds (t >>= fun a => watching.step (Run.give (some a))) := by
          rw [bind_eq_settle]
          refine KeepsRounds.settle ht fun r => ?_
          cases r <;> exact fun _ _ => .nil
        simpa [bind_done enter] using hbody.append (hrest _ m')
    | failed f m' =>
      rw [bind_failed hrun]
      exact hbegun.append hcondition
    | exhausted m' =>
      rw [bind_exhausted hrun]
      exact hbegun.append hcondition

private theorem round (span : Span) {c : Noted Moment Bool} {t : Noted Moment α} (hc : Orderly c)
    (ht : Orderly t) : Orderly (watching.round span c t) := by
  refine ⟨?_, rounds_round span hc.rounds ht.rounds⟩
  have hhead : Lasts (watching.head span) := by
    intro past m
    cases hcanceled : m.canceled with
    | true =>
      rw [head_of_canceled hcanceled]
      exact (congrArg (Lasting true _) hcanceled).mpr (.of_all (by simp))
    | false =>
      rw [head_of_live hcanceled]
      exact (congrArg (Lasting false _) hcanceled).mpr (.of_all (by simp))
  unfold Scribe.round
  refine hhead.bind fun _ => hc.lasts.bind fun goOn => ?_
  cases goOn with
  | false => exact .quiet fun _ => id
  | true =>
    have hbody : Lasts (watching.note fun m => .body span m.canceled) := fun past m => by
      rw [enter]
      exact .of_all (by simp)
    exact hbody.bind fun _ => ht.lasts.bind fun a => .quiet fun _ => id

private theorem counted (callee : Value) (span : Span) {t : Noted Moment Value} (ht : Orderly t) :
    Orderly (watching.counted st callee span t) := by
  suffices h : ∀ past m, Lasting m.canceled (watching.counted st callee span t past m).2
      (watching.counted st callee span t past m).1.machine.canceled ∧
      WithinRounds (watching.counted st callee span t past m).2 from
    ⟨fun past m => (h past m).1, fun past m => (h past m).2⟩
  intro past m
  cases hcanceled : m.canceled with
  | true =>
    rw [counted_of_canceled hcanceled]
    refine ⟨?_, .of_no_body (by simp)⟩
    show Lasting true _ m.canceled
    exact hcanceled ▸ .of_all (by simp)
  | false =>
    by_cases hlimit : st.limit ≤ m.depth
    · rw [counted_of_overflow hcanceled hlimit]
      refine ⟨?_, .of_no_body (by simp)⟩
      show Lasting false _ m.canceled
      exact hcanceled ▸ .of_all (by simp)
    · have hlimit := Nat.not_le.1 hlimit
      rw [counted_of_room hcanceled hlimit]
      dsimp only
      generalize past ++ _ = past'
      have hbody := ht.lasts past' (Eval.entry st callee span m)
      rw [Eval.canceled_entry, hcanceled] at hbody
      refine ⟨?_, .append (.of_no_body (by simp)) (ht.rounds _ _)⟩
      rw [Eval.canceled_afterBody]
      exact .append (.of_all (by simp)) hbody

private theorem perform {n : Nat}
    (happly : ∀ callee args, Orderly (watching.apply st n callee args))
    (hperform : ∀ told a, Orderly (watching.perform st n told a))
    (told : List Failure) (a : Action) :
    Orderly (watching.perform st (n + 1) told a) := by
  cases a with
  | give v =>
    rw [Scribe.perform]
    exact quiet fun _ => id
  | fail f =>
    rw [Scribe.perform, Watching.raise]
    exact fail f
  | write line next =>
    rw [Scribe.perform, Watching.write]
    exact bind (brief (.write st line)) fun fault => hperform told (next fault)
  | clock next =>
    rw [Scribe.perform]
    exact hperform told _
  | cancel next =>
    have hnext := hperform told next
    rw [Scribe.perform]
    refine ⟨fun past m => ?_, fun past m => hnext.rounds past _⟩
    have hlasting := hnext.lasts past { m with canceled := true }
    exact ⟨hlasting.stays, fun _ => hlasting.begins rfl, hlasting.ends,
      fun _ => hlasting.across rfl⟩
  | invoke callee args next =>
    rw [Scribe.perform]
    split
    · refine settle (happly callee args) fun r => ?_
      cases r <;> exact hperform _ _
    · exact hperform told _

private theorem twins (st : Settings) :
    Twins st st (fun a a' => a = a') fun n t _ => Orderly (t n) where
  natives i := by
    cases st.natives[i]? with
    | none => exact .none
    | some n => exact .some ⟨rfl, fun _ => rfl⟩
  outputFault := rfl
  later h := h
  brief := brief
  bind := bind
  round span := round span
  counted callee span ht := counted callee span ht
  perform happly hperform := by
    rintro told a _ rfl
    exact perform happly (fun told a => hperform told rfl) told a

end Orderly

theorem orderly_script (st : Settings) (n : Nat) (ss : List Stmt) :
    Orderly (watching.script st n ss) :=
  (Eval.holdsBoth (Orderly.twins st) (Eval.holdsBoth_zero fun ht _ _ => by
    rw [ht]
    exact .quiet fun _ => id) n).script (Orderly.twins st) ss

end Watching

end Lox
