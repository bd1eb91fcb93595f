import Lox.Proofs.Natives.Evaluation
import Lox.Proofs.Receiver.Rooted

set_option autoImplicit false
set_option relaxedAutoImplicit false

namespace Lox

open Text (lit)

private theorem Upheld.step {ρ : Record} {h h' : Heap} (hu : Upheld ρ h)
    (hlater : Later ρ.origins h ρ.origins h') (hall : h'.All (Value.Rooted ρ.origins h)) :
    Upheld ρ h' :=
  ⟨hall.imp fun _ hv => hv.mono hlater, hu.right⟩

namespace Record

variable (ρ : Record)

private theorem origins_saw (x : Sighting (Option Activation)) :
    origins (ρ ++ [.saw x]) = ρ.origins :=
  List.foldl_append

private theorem origins_made (f : Function) (a : Option Activation) :
    origins (ρ ++ [.made f a]) = ρ.origins.make f a :=
  List.foldl_append

theorem origins_declared (members : List (Text × Function)) (c : Class) :
    origins (ρ ++ [.declared members c]) = ρ.origins.declare members c :=
  List.foldl_append

private theorem seen_saw (x : Sighting (Option Activation)) :
    seen (ρ ++ [.saw x]) = ρ.seen ++ [x] :=
  List.filterMap_append

private theorem seen_made (f : Function) (a : Option Activation) :
    seen (ρ ++ [.made f a]) = ρ.seen :=
  List.filterMap_append.trans (List.append_nil _)

theorem seen_declared (members : List (Text × Function)) (c : Class) :
    seen (ρ ++ [.declared members c]) = ρ.seen :=
  List.filterMap_append.trans (List.append_nil _)

end Record

/-- A computation upholds what holds throughout a run, and a value that it gives is as told. -/
structure Upholds {α : Type} (t : Noted Observation α) (ρ : Record) (m : Machine)
    (Q : α → Origins → Heap → Prop) : Prop where
  later : Later ρ.origins m.heap (Record.origins (ρ ++ (t ρ m).2)) (t ρ m).1.machine.heap
  upheld : Upheld (ρ ++ (t ρ m).2) (t ρ m).1.machine.heap
  done : ∀ a m', (t ρ m).1 = .done a m' → Q a (Record.origins (ρ ++ (t ρ m).2)) m'.heap

theorem Noted.quiet_of_done {N α : Type} {x : Run α} {m m' : Machine} {a : α} (h : x m = .done a m')
    (past : List N) : quiet x past m = (.done a m', []) := by
  unfold quiet
  rw [h]

namespace Upholds

variable {α β : Type} {t : Noted Observation α} {x : Run α} {ρ : Record} {m : Machine}
  {Q : α → Origins → Heap → Prop} {R : β → Origins → Heap → Prop}

theorem of_run {o : Outcome α} {l : List Observation} (hrun : t ρ m = (o, l))
    (hlater : Later ρ.origins m.heap (Record.origins (ρ ++ l)) o.machine.heap)
    (hupheld : Upheld (ρ ++ l) o.machine.heap)
    (hdone : ∀ a m', o = .done a m' → Q a (Record.origins (ρ ++ l)) m'.heap) : Upholds t ρ m Q where
  later := by rwa [hrun]
  upheld := by rwa [hrun]
  done := by rwa [hrun]

private theorem of_silent {o : Outcome α} (hrun : t ρ m = (o, []))
    (hlater : Later ρ.origins m.heap ρ.origins o.machine.heap) (hupheld : Upheld ρ o.machine.heap)
    (hdone : ∀ a m', o = .done a m' → Q a ρ.origins m'.heap) : Upholds t ρ m Q := by
  refine of_run hrun ?_ ?_ ?_
  all_goals rwa [List.append_nil]

private theorem after {k : Noted Observation β} {l : List Observation} {m' : Machine}
    {t' : Noted Observation β} (hrun : t' ρ m = ((k (ρ ++ l) m').1, l ++ (k (ρ ++ l) m').2))
    (hlater : Later ρ.origins m.heap (Record.origins (ρ ++ l)) m'.heap)
    (hk : Upholds k (ρ ++ l) m' R) :
    Upholds t' ρ m R := by
  refine of_run hrun ?_ ?_ ?_
  all_goals rw [← List.append_assoc]
  · exact hlater.trans hk.later
  · exact hk.upheld
  · exact hk.done

theorem imp {Q' : α → Origins → Heap → Prop} (ht : Upholds t ρ m Q)
    (h : ∀ a o h, Q a o h → Q' a o h) : Upholds t ρ m Q' :=
  ⟨ht.later, ht.upheld, fun a m' hrun => h a _ _ (ht.done a m' hrun)⟩

/-! ### One computation after another -/

theorem settle {k : Except Failure α → Noted Observation β} (ht : Upholds t ρ m Q)
    (hok : ∀ a (ρ' : Record) m', Later ρ.origins m.heap ρ'.origins m'.heap → Upheld ρ' m'.heap →
      Q a ρ'.origins m'.heap → Upholds (k (.ok a)) ρ' m' R)
    (herror : ∀ f (ρ' : Record) m', Later ρ.origins m.heap ρ'.origins m'.heap → Upheld ρ' m'.heap →
      Upholds (k (.error f)) ρ' m' R) : Upholds (t.settle k) ρ m R := by
  obtain ⟨hlater, hupheld, hdone⟩ := ht
  rcases hrun : t ρ m with ⟨o, l⟩
  rw [hrun] at hlater hupheld hdone
  cases o with
  | done a m' =>
    exact after (Noted.settle_ofResult (r := .ok a) hrun) hlater
      (hok a _ m' hlater hupheld (hdone a m' rfl))
  | failed f m' =>
    exact after (Noted.settle_ofResult (r := .error f) hrun) hlater (herror f _ m' hlater hupheld)
  | exhausted m' => exact of_run (Noted.settle_exhausted hrun) hlater hupheld nofun

/-! ### Steps that leave the heap alone -/

private theorem same (hu : Upheld ρ m.heap) (hheap : (x m).machine.heap = m.heap)
    (hdone : ∀ a m', x m = .done a m' → Q a ρ.origins m.heap) : Upholds (.quiet x) ρ m Q := by
  refine of_silent rfl ?_ ?_ fun a m' hrun => ?_
  · rw [hheap]
    exact .refl _ _
  · rwa [hheap]
  · rw [hrun] at hheap
    have hsame : m'.heap = m.heap := hheap
    rw [hsame]
    exact hdone a m' hrun

theorem give {a : α} (hu : Upheld ρ m.heap) (hQ : Q a ρ.origins m.heap) :
    Upholds (.quiet (Run.give a)) ρ m Q := by
  refine same hu rfl ?_
  rintro _ _ ⟨⟩
  exact hQ

theorem exhaust (hu : Upheld ρ m.heap) : Upholds (.quiet Run.exhaust) ρ m Q := same hu rfl nofun

theorem fail {f : Failure} (hu : Upheld ρ m.heap) : Upholds (.quiet (Run.fail f)) ρ m Q :=
  same hu rfl nofun

theorem error {e : RuntimeError} {span : Span} (hu : Upheld ρ m.heap) :
    Upholds (.quiet (Run.error e span)) ρ m Q := fail hu

theorem broken {e : InternalError} {span : Span} (hu : Upheld ρ m.heap) :
    Upholds (.quiet (Run.broken e span)) ρ m Q := fail hu

theorem write {st : Settings} {line : Text} (hu : Upheld ρ m.heap) :
    Upholds (.quiet (Run.write st line)) ρ m fun _ _ _ => True := by
  refine same hu ?_ fun _ _ _ => trivial
  unfold Run.write
  split <;> rfl

private theorem checkCanceled {span : Span} (hu : Upheld ρ m.heap) :
    Upholds (.quiet (Run.checkCanceled span)) ρ m fun _ _ _ => True := by
  refine same hu ?_ fun _ _ _ => trivial
  unfold Run.checkCanceled
  split <;> rfl

theorem bind {k : α → Noted Observation β} (ht : Upholds t ρ m Q)
    (hk : ∀ a (ρ' : Record) m', Later ρ.origins m.heap ρ'.origins m'.heap → Upheld ρ' m'.heap →
      Q a ρ'.origins m'.heap → Upholds (k a) ρ' m' R) : Upholds (t >>= k) ρ m R :=
  settle ht hk fun _ _ _ _ hu => fail hu

theorem look {f : Heap → α} {k : α → Run β} (hk : Upholds (.quiet (k (f m.heap))) ρ m R) :
    Upholds (.quiet (Run.look f >>= k)) ρ m R := ⟨hk.later, hk.upheld, hk.done⟩

theorem consult {f : Record → α} {k : α → Noted Observation β} (hk : Upholds (k (f ρ)) ρ m R) :
    Upholds (Noted.consult f >>= k) ρ m R := by
  have hrun := Noted.consult_bind_apply f k ρ m
  exact of_run hrun hk.later hk.upheld hk.done

theorem see {what : Machine → Outcome α → Sighting (Option Activation)} (ht : Upholds t ρ m Q)
    (hright : (what m (t ρ m).1).Right) : Upholds (observing.see t what) ρ m Q := by
  have hrun : observing.see t what ρ m = ((t ρ m).1, (t ρ m).2 ++ [.saw (what m (t ρ m).1)]) := rfl
  refine of_run hrun ?_ ?_ ?_
  all_goals rw [← List.append_assoc]
  · rw [Record.origins_saw]
    exact ht.later
  · refine ⟨?_, ?_⟩
    · rw [Record.origins_saw]
      exact ht.upheld.rooted
    · rw [Record.seen_saw]
      exact List.forall_mem_append.2 ⟨ht.upheld.right, List.forall_mem_singleton.2 hright⟩
  · rw [Record.origins_saw]
    exact ht.done

theorem round {c : Noted Observation Bool} {span : Span} (hu : Upheld ρ m.heap)
    (hc : ∀ {ρ' : Record} {m' : Machine},
    Later ρ.origins m.heap ρ'.origins m'.heap → Upheld ρ' m'.heap →
      Upholds c ρ' m' fun _ _ _ => True)
    (ht : ∀ {ρ' : Record} {m' : Machine},
    Later ρ.origins m.heap ρ'.origins m'.heap → Upheld ρ' m'.heap →
      Upholds t ρ' m' Q) :
    Upholds (observing.round span c t) ρ m fun r o h => ∀ a, r = some a → Q a o h := by
  unfold Scribe.round
  simp only [Observing.head, Observing.enter, Observing.step, Noted.quiet_give_bind]
  refine .bind (.checkCanceled hu) fun _ ρ₁ m₁ h₁ hu₁ _ =>
    .bind (hc h₁ hu₁) fun goOn ρ₂ m₂ h₂ hu₂ _ => ?_
  cases goOn with
  | false => exact .give hu₂ nofun
  | true =>
    refine .bind (ht (h₁.trans h₂) hu₂) fun a ρ₃ m₃ h₃ hu₃ ha => .give hu₃ ?_
    rintro _ ⟨⟩
    exact ha

/-! ### Steps that change the heap -/

private theorem step {a : α} {m' : Machine} (hu : Upheld ρ m.heap) (hrun : x m = .done a m')
    (hfixes : m.heap.Fixes m'.heap) (hfresh : m.heap.fresh ≤ m'.heap.fresh)
    (hall : m'.heap.All (Value.Rooted ρ.origins m.heap)) (hQ : Q a ρ.origins m'.heap) :
    Upholds (.quiet x) ρ m Q := by
  have hlater : Later ρ.origins m.heap ρ.origins m'.heap := .of_heap hfixes hfresh
  refine of_silent (Noted.quiet_of_done hrun ρ) hlater (hu.step hlater hall) ?_
  rintro _ _ ⟨⟩
  exact hQ

theorem define {e : FrameId} {name : Text} {v : Value}
    (hu : Upheld ρ m.heap) (hname : Ordinary name) (hv : v.Rooted ρ.origins m.heap) :
    Upholds (.quiet (Run.change (·.define e name v))) ρ m fun _ _ _ => True :=
  step hu rfl (.define m.heap e hname v) (Nat.le_refl _) (hu.rooted.define e name hv) trivial

theorem declare {e : FrameId} {name : Text} (hu : Upheld ρ m.heap) (hname : Ordinary name) :
    Upholds (.quiet (Run.change (·.declare e name))) ρ m fun _ _ _ => True := by
  refine step hu rfl (.declare m.heap e hname) ?_ (hu.rooted.declare e name trivial) trivial
  show m.heap.fresh ≤ (m.heap.declare e name).fresh
  unfold Heap.declare
  split <;> exact Nat.le_refl _

theorem setField {i : Nat} {name : Text} {v : Value} (hu : Upheld ρ m.heap)
    (hv : v.Rooted ρ.origins m.heap) :
    Upholds (.quiet (Run.change (·.setField i name v))) ρ m fun _ _ _ => True :=
  step hu rfl (.of_frames rfl) (Nat.le_refl _) (hu.rooted.setField i name hv) trivial

theorem newObject {c : Class} (hu : Upheld ρ m.heap)
    (hc : (Value.cls c).Rooted ρ.origins m.heap) :
    Upholds (.quiet (Run.newObject c)) ρ m fun v o h => v.Rooted o h := by
  have hfixes : m.heap.Fixes m.heap.newObject.2 := .of_frames rfl
  have hlater : Later ρ.origins m.heap ρ.origins m.heap.newObject.2 :=
    .of_heap hfixes (Nat.le_refl _)
  exact step hu rfl hfixes (Nat.le_refl _) hu.rooted.newObject (Value.Rooted.mono hlater hc)

theorem bound {f : Function} {receiver : Value} (hu : Upheld ρ m.heap)
    (hf : f.Belongs ρ.origins m.heap) (hreceiver : receiver.Rooted ρ.origins m.heap) :
    Upholds (.quiet (Run.bound f receiver)) ρ m fun v o h => v.Rooted o h := by
  have hfixes : m.heap.Fixes m.heap.freshId.2 := .of_frames rfl
  have hlater : Later ρ.origins m.heap ρ.origins m.heap.freshId.2 := .of_heap hfixes (Nat.le_succ _)
  exact step hu rfl hfixes (Nat.le_succ _) hu.rooted.freshId
    ⟨hf.mono hlater, Value.Rooted.mono hlater hreceiver⟩

private theorem newFrame {p : FrameId} {bs : Bindings} (hu : Upheld ρ m.heap)
    (hbs : ∀ n v, bs.lookup n = some v → v.Rooted ρ.origins m.heap) :
    Upholds (.quiet (Run.newFrame p bs)) ρ m fun e _ h =>
      e = (m.heap.child p bs).1 ∧ h = (m.heap.child p bs).2 :=
  step hu rfl (.child m.heap p bs) (Nat.le_refl _) (hu.rooted.child p hbs) ⟨rfl, rfl⟩

theorem newInside {p : FrameId} {bs : Bindings} {r : Option Reach} {a : Option Activation}
    (hu : Upheld ρ m.heap) (hosts : m.heap.Hosts p r a)
    (hbs : ∀ n v, bs.lookup n = some v → v.Rooted ρ.origins m.heap) :
    Upholds (.quiet (Run.newFrame p bs)) ρ m fun e _ h => h.Hosts e (r.map .deeper) a := by
  refine (newFrame hu hbs).imp ?_
  rintro e o h ⟨rfl, rfl⟩
  exact hosts.child bs

theorem newBlock {p : FrameId} {r : Option Reach} {a : Option Activation} (hu : Upheld ρ m.heap)
    (hosts : m.heap.Hosts p r a) :
    Upholds (.quiet (Run.newFrame p [])) ρ m fun e _ h => h.Hosts e (r.map .deeper) a :=
  newInside hu hosts Bindings.all_nil

theorem newSingle {p : FrameId} {name : Text} {v : Value} (hu : Upheld ρ m.heap)
    (hv : v.Rooted ρ.origins m.heap) :
    Upholds (.quiet (Run.newFrame p [(name, v)])) ρ m fun e _ h =>
      e = (m.heap.child p [(name, v)]).1 ∧ h = (m.heap.child p [(name, v)]).2 := by
  refine newFrame hu fun n w hw => ?_
  rw [List.lookup_cons] at hw
  split at hw
  · cases hw
    exact hv
  · cases hw

theorem newReceiver {f : Function} {c : Class} {receiver : Value} (hu : Upheld ρ m.heap)
    (hf : f.DeclaredBy m.heap c) (hreceiver : receiver.Rooted ρ.origins m.heap) :
    Upholds (.quiet (Run.newFrame f.closure [(lit "this", receiver)])) ρ m fun e _ h =>
      h.Hosts e (some (.members c.superclass.isSome)) (some ⟨c, receiver⟩) ∧
        h.getAt? e 0 (lit "this") = some receiver := by
  refine (newSingle hu hreceiver).imp ?_
  rintro e o h ⟨rfl, rfl⟩
  have hthis := (Heap.getAt?_child m.heap f.closure [(lit "this", receiver)] (lit "this")).trans
    List.lookup_cons_self
  refine ⟨?_, hthis⟩
  rintro _ ⟨⟩
  refine ⟨_, rfl, hthis, rfl, fun sup hsup => ?_⟩
  have hsuper := (hf.mono (.child m.heap f.closure [(lit "this", receiver)])).super sup hsup
  exact (Heap.getAt?_child_succ m.heap f.closure _ 0 _).trans hsuper

theorem newFunction {name : Text} {params : List Param} {body : List Stmt} {env : FrameId}
    {r : Option Reach} {a : Option Activation} (hu : Upheld ρ m.heap) (hosts : m.heap.Hosts env r a)
    (hbody : Stmt.HostedAll (r.map .deeper) body) :
    Upholds (observing.newFunction a name params body env) ρ m fun f o h =>
      (Value.function f).Rooted o h := by
  let f : Function := { id := m.heap.fresh, name, params, body, closure := env, isInit := false }
  have hlater : Later ρ.origins m.heap (ρ.origins.make f a) m.heap.freshId.2 :=
    ⟨.of_frames rfl, Nat.le_succ _, fun i hi =>
      Origins.lookup_make a (Nat.ne_of_lt hi), fun _ _ => rfl⟩
  have hrun : observing.newFunction a name params body env ρ m =
      (.done f { m with heap := m.heap.freshId.2 }, [.made f a]) := rfl
  refine of_run hrun ?_ ⟨?_, ?_⟩ ?_
  · rw [Record.origins_made]
    exact hlater
  · rw [Record.origins_made]
    exact hu.rooted.freshId.imp fun _ hv => hv.mono hlater
  · rw [Record.seen_made]
    exact hu.right
  · rintro _ _ ⟨⟩
    rw [Record.origins_made]
    refine ⟨Nat.lt_succ_self _, r, ?_, hbody⟩
    rw [Origins.home_make]
    exact hosts.mono hlater.fixes

theorem counted {st : Settings} {callee : Value} {span : Span} {t : Noted Observation Value}
    {Q : Value → Origins → Heap → Prop} (hu : Upheld ρ m.heap)
    (ht : ∀ m', m'.heap = m.heap → Upholds t ρ m' Q) :
    Upholds (observing.counted st callee span t) ρ m Q := by
  have hpast : ρ ++
      (observing.notes (.check span m.canceled) ++ observing.notes (.call span m.canceled)) = ρ :=
    List.append_nil ρ
  by_cases hrefused : m.canceled = true ∨ st.limit ≤ m.depth
  · have hfails : ∃ f, Eval.counted st callee span (t.run ρ) m = .failed f m := by
      by_cases hcanceled : m.canceled = true
      · exact ⟨_, Eval.counted_of_canceled hcanceled⟩
      · have hlimit := hrefused.resolve_left hcanceled
        exact ⟨_, Eval.counted_of_overflow (eq_false_of_ne_true hcanceled) hlimit⟩
    obtain ⟨f, hfails⟩ := hfails
    have hrun : observing.counted st callee span t ρ m = (.failed f m, []) := by
      unfold Scribe.counted
      simp only [hpast, hfails, if_pos hrefused]
      rfl
    exact of_silent hrun (.refl _ _) hu nofun
  · obtain ⟨hcanceled, hroom⟩ := not_or.1 hrefused
    have hheap : (Eval.entry st callee span m).heap = m.heap := Eval.heap_entry ..
    have hbody := ht _ hheap
    have hrun : observing.counted st callee span t ρ m =
        (Eval.afterBody st callee span (t ρ (Eval.entry st callee span m)).1,
          (t ρ (Eval.entry st callee span m)).2) := by
      unfold Scribe.counted
      simp only [hpast, if_neg hrefused, Scribe.ended_of_silent (S := observing) rfl,
        Eval.counted_of_room (eq_false_of_ne_true hcanceled) (Nat.lt_of_not_le hroom)]
      rfl
    refine of_run hrun ?_ ?_ fun v m' hend => ?_
    · rw [Eval.heap_afterBody, ← hheap]
      exact hbody.later
    · rw [Eval.heap_afterBody]
      exact hbody.upheld
    · obtain ⟨m'', hdone, hleft⟩ := Eval.done_of_afterBody hend
      exact hleft ▸ hbody.done v m'' hdone

end Upholds

end Lox
