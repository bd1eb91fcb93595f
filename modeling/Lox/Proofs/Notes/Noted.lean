import Lox.Proofs.Run.Keeps

set_option autoImplicit false
set_option relaxedAutoImplicit false

namespace Lox

/-! ### Computations with notes -/

/-- A computation that goes on from what has been noted before, and adds its own notes. -/
def Noted (N α : Type) := List N → Machine → Outcome α × List N

namespace Noted

variable {N α β : Type}

def run (t : Noted N α) (past : List N) : Run α := fun m => (t past m).1

def quiet (x : Run α) : Noted N α := fun _ m => (x m, [])

def consult (f : List N → α) : Noted N α := fun past m => (.done (f past) m, [])

/-- What is done with the outcome of a computation, unless its steps were used up. -/
def settle (t : Noted N α) (k : Except Failure α → Noted N β) : Noted N β := fun past m =>
  match t past m with
  | (.done a m', l) => ((k (.ok a) (past ++ l) m').1, l ++ (k (.ok a) (past ++ l) m').2)
  | (.failed f m', l) => ((k (.error f) (past ++ l) m').1, l ++ (k (.error f) (past ++ l) m').2)
  | (.exhausted m', l) => (.exhausted m', l)

def orFail (k : α → Noted N β) : Except Failure α → Noted N β
  | .ok a => k a
  | .error f => quiet (Run.fail f)

instance : Monad (Noted N) where
  pure a := quiet (Run.give a)
  bind t k := t.settle (orFail k)

theorem bind_eq_settle (t : Noted N α) (k : α → Noted N β) : t >>= k = t.settle (orFail k) := rfl

section

variable {t : Noted N α} {past l : List N} {m m' : Machine}

theorem settle_ofResult {k : Except Failure α → Noted N β} {r : Except Failure α}
    (h : t past m = (.ofResult r m', l)) :
    t.settle k past m = ((k r (past ++ l) m').1, l ++ (k r (past ++ l) m').2) := by
  unfold settle
  rw [h]
  cases r <;> rfl

theorem settle_exhausted {k : Except Failure α → Noted N β} (h : t past m = (.exhausted m', l)) :
    t.settle k past m = (.exhausted m', l) := by
  unfold settle
  rw [h]

theorem bind_done {k : α → Noted N β} {a : α} (h : t past m = (.done a m', l)) :
    (t >>= k) past m = ((k a (past ++ l) m').1, l ++ (k a (past ++ l) m').2) :=
  settle_ofResult (r := .ok a) h

theorem bind_failed {k : α → Noted N β} {f : Failure} (h : t past m = (.failed f m', l)) :
    (t >>= k) past m = (.failed f m', l) :=
  (settle_ofResult (r := .error f) h).trans (congrArg _ (List.append_nil l))

theorem bind_exhausted {k : α → Noted N β} (h : t past m = (.exhausted m', l)) :
    (t >>= k) past m = (.exhausted m', l) := settle_exhausted h

end

theorem consult_bind_apply (f : List N → α) (k : α → Noted N β) (past : List N) (m : Machine) :
    (consult f >>= k) past m = k (f past) past m := by
  rw [bind_done (t := consult f) rfl, List.append_nil]
  rfl

@[simp] theorem consult_unit_bind (f : List N → Unit) (k : Unit → Noted N β) :
    consult f >>= k = k () :=
  funext fun past => funext fun m => consult_bind_apply f k past m

@[simp] theorem quiet_give_bind (a : α) (k : α → Noted N β) : quiet (Run.give a) >>= k = k a :=
  funext fun past => funext fun m => consult_bind_apply (fun _ => a) k past m

/-! ### The computation itself -/

/-- Whatever has been noted before, a computation with notes is the computation itself. -/
def Erases (t : Noted N α) (x : Run α) : Prop := ∀ past, t.run past = x

namespace Erases

variable {t : Noted N α} {x : Run α}

theorem fst (h : t.Erases x) (past : List N) (m : Machine) : (t past m).1 = x m :=
  congrFun (h past) m

theorem quiet (x : Run α) : (Noted.quiet x : Noted N α).Erases x := fun _ => rfl

theorem settle {k : Except Failure α → Noted N β} {l : Except Failure α → Run β} (h : t.Erases x)
    (hk : ∀ r, (k r).Erases (l r)) : (t.settle k).Erases (x.settle l) := by
  intro past
  funext m
  show (t.settle k past m).1 = _
  have hfirst := h.fst past m
  rcases hrun : t past m with ⟨o, notes⟩
  rw [hrun] at hfirst
  obtain ⟨r, m', rfl⟩ | ⟨m', rfl⟩ := o.eq_ofResult_or_exhausted
  · rw [settle_ofResult hrun, Run.settle_ofResult hfirst.symm]
    exact (hk r).fst _ m'
  · rw [settle_exhausted hrun, Run.settle_exhausted hfirst.symm]

theorem bind {k : α → Noted N β} {l : α → Run β} (h : t.Erases x) (hk : ∀ a, (k a).Erases (l a)) :
    (t >>= k).Erases (x >>= l) := by
  rw [Run.bind_eq_settle]
  refine settle h fun r => ?_
  cases r with
  | ok a => exact hk a
  | error f => exact quiet _

theorem consult {f : List N → α} {k : α → Noted N β} {y : Run β} (hk : ∀ a, (k a).Erases y) :
    (Noted.consult f >>= k).Erases y := by
  intro past
  funext m
  show ((Noted.consult f >>= k) past m).1 = _
  rw [consult_bind_apply]
  exact (hk _).fst past m

end Erases

end Noted

/-! ### What is noted -/

/-- What is seen of receivers and methods, where code stands in a scope of type `A`: `this`, `super`
with the name of a method, the call of a method, which begins a scope, and the making of an object
by a class with an initializer. -/
inductive Sighting (A : Type)
  | this (a : A) (m : Machine) (o : Outcome Value)
  | super (a : A) (name : Text) (span : Span) (m : Machine) (o : Outcome Value)
  | call (f : Function) (receiver : Value) (a : A) (o : Outcome Value)
  | construction (object : Value) (o : Outcome Value)

inductive Happening (A : Type)
  /-- The run asks whether it has been canceled. -/
  | check (span : Span) (canceled : Bool)
  | call (span : Span) (canceled : Bool)
  /-- The innermost call has ended. -/
  | back
  /-- A loop begins a round. -/
  | round (span : Span) (canceled : Bool)
  /-- The body of a loop is entered. -/
  | body (span : Span) (canceled : Bool)
  | wrote (line : Text)
  /-- The program itself fails. -/
  | fault (f : Failure)
  /-- A native function fails, with the failures of the calls that it has made. -/
  | raised (told : List Failure) (f : Failure)
  | saw (x : Sighting A)
  | made (f : Function) (a : A)
  | declared (members : List (Text × Function)) (c : Class)

/-- How a run is noted: in which scopes code stands, and what is noted of everything that happens.
-/
structure Scribe (A N : Type) where
  outside : A
  /-- The scope in which a function was made. -/
  home : List N → Function → A
  /-- The scope that the call of a method begins. -/
  activation : List N → Function → Value → A
  notes : Happening A → List N

namespace Scribe

variable {A N α β : Type} (S : Scribe A N)

def note (what : Machine → Happening A) : Noted N Unit := fun _ m => (.done () m, S.notes (what m))

def faults : Outcome α → List N
  | .failed f _ => S.notes (.fault f)
  | _ => []

def step (x : Run α) : Noted N α := fun _ m => (x m, S.faults (x m))

def raise (told : List Failure) (f : Failure) : Noted N α :=
  fun _ m => (.failed f m, S.notes (.raised told f))

def write (st : Settings) (line : Text) : Noted N (Option Text) := fun _ m =>
  (Run.write st line m, if st.outputFault.isSome then [] else S.notes (.wrote line))

def see (t : Noted N α) (what : Machine → Outcome α → Sighting A) : Noted N α := fun past m =>
  ((t past m).1, (t past m).2 ++ S.notes (.saw (what m (t past m).1)))

def newFunction (a : A) (name : Text) (params : List Param) (body : List Stmt) (closure : FrameId) :
    Noted N Function := do
  let f ← S.step (Eval.newFunction name params body closure false)
  S.note fun _ => .made f a
  S.step (Run.give f)

def newClass (name : Text) (superclass : Option Class) (methods statics : List FunDecl)
    (closure env : FrameId) : Noted N Unit := do
  let methods ← S.step (Eval.methodTable closure true [] methods)
  let statics ← S.step (Eval.methodTable closure false [] statics)
  let id ← S.step Run.freshId
  let c : Class := .mk id name superclass methods statics
  S.note fun _ => .declared (methods ++ statics) c
  S.step (Run.change (·.define env name (.cls c)))

def head (span : Span) : Noted N Unit := fun _ m =>
  (Run.checkCanceled span m, S.notes (.check span m.canceled) ++
    if m.canceled then S.faults (Run.checkCanceled span m) else S.notes (.round span m.canceled))

def round (span : Span) (condition : Noted N Bool) (body : Noted N α) : Noted N (Option α) := do
  S.head span
  if ← condition then
    S.note fun m => .body span m.canceled
    let a ← body
    S.step (Run.give (some a))
  else S.step (Run.give none)

def ended : Outcome Value × List N → List N
  | (.exhausted _, l) => l
  | (_, l) => l ++ S.notes .back

/-- A call with its count, its events and its place on failures. A call that is refused is a failure
of the program. -/
def counted (st : Settings) (callee : Value) (span : Span) (body : Noted N Value) : Noted N Value :=
  fun past m =>
    let asked := S.notes (.check span m.canceled)
    let begun := asked ++ S.notes (.call span m.canceled)
    let o := Eval.counted st callee span (body.run (past ++ begun)) m
    (o, if m.canceled = true ∨ st.limit ≤ m.depth then asked ++ S.faults o
      else begun ++ S.ended (body (past ++ begun) (Eval.entry st callee span m)))

/-! ### What is not noted -/

variable {S}

theorem step_of_silent (h : ∀ f, S.notes (.fault f) = []) (x : Run α) : S.step x = .quiet x := by
  funext past m
  refine Prod.ext rfl ?_
  show S.faults (x m) = []
  cases x m with
  | failed f m' => exact h f
  | _ => rfl

theorem note_of_silent {what : Machine → Happening A} (h : ∀ m, S.notes (what m) = []) :
    S.note what = .quiet (Run.give ()) :=
  funext fun _ => funext fun m => Prod.ext rfl (h m)

theorem raise_of_silent {told : List Failure} {f : Failure} (h : S.notes (.raised told f) = []) :
    (S.raise told f : Noted N α) = .quiet (Run.fail f) :=
  funext fun _ => funext fun _ => Prod.ext rfl h

theorem write_of_silent {line : Text} (h : S.notes (.wrote line) = []) (st : Settings) :
    S.write st line = .quiet (Run.write st line) := by
  unfold write Noted.quiet
  rw [h, ite_self]

theorem see_of_silent (h : ∀ x, S.notes (.saw x) = []) (t : Noted N α)
    (what : Machine → Outcome α → Sighting A) : S.see t what = t := by
  funext past m
  unfold see
  rw [h, List.append_nil]

theorem head_of_silent {span : Span} (hcheck : ∀ canceled, S.notes (.check span canceled) = [])
    (hround : ∀ canceled, S.notes (.round span canceled) = []) :
    S.head span = S.step (Run.checkCanceled span) := by
  funext past m
  refine Prod.ext rfl ?_
  show S.notes _ ++ _ = S.faults (Run.checkCanceled span m)
  rw [hcheck, hround, List.nil_append]
  unfold Run.checkCanceled
  cases m.canceled <;> rfl

theorem ended_of_silent (h : S.notes .back = []) (r : Outcome Value × List N) :
    S.ended r = r.2 := by
  obtain ⟨o, l⟩ := r
  cases o with
  | exhausted m => rfl
  | _ => exact (congrArg (l ++ ·) h).trans (List.append_nil l)

private theorem step_bind_step (x : Run α) (y : α → Run β) :
    (S.step x >>= fun a => S.step (y a)) = S.step (x >>= y) := by
  funext past m
  have hstep : S.step x past m = (x m, S.faults (x m)) := rfl
  show _ = (x.andThen y m, S.faults (x.andThen y m))
  unfold Run.andThen
  cases hx : x m with
  | done a m' => exact Noted.bind_done (hstep.trans (by rw [hx]))
  | failed f m' => exact Noted.bind_failed (hstep.trans (by rw [hx]; rfl))
  | exhausted m' => exact Noted.bind_exhausted (hstep.trans (by rw [hx]; rfl))

theorem newFunction_of_silent (h : ∀ f a, S.notes (.made f a) = []) (a : A) (name : Text)
    (params : List Param) (body : List Stmt) (closure : FrameId) :
    S.newFunction a name params body closure =
      S.step (Eval.newFunction name params body closure false) := by
  have hnote (f : Function) : (S.note fun _ => .made f a) = .quiet (Run.give ()) :=
    note_of_silent fun _ => h f a
  simp only [newFunction, hnote, Noted.quiet_give_bind, step_bind_step]
  rfl

theorem newClass_of_silent (h : ∀ ms c, S.notes (.declared ms c) = []) (name : Text)
    (superclass : Option Class) (methods statics : List FunDecl) (closure env : FrameId) :
    S.newClass name superclass methods statics closure env =
      S.step (Eval.newClass name superclass methods statics closure env) := by
  have hnote (ms : List (Text × Function)) (c : Class) :
      (S.note fun _ => .declared ms c) = .quiet (Run.give ()) :=
    note_of_silent fun _ => h ms c
  simp only [newClass, hnote, Noted.quiet_give_bind, step_bind_step]
  rfl

end Scribe

def Run.round {α : Type} (span : Span) (condition : Run Bool) (body : Run α) : Run (Option α) := do
  Run.checkCanceled span
  if ← condition then
    let a ← body
    Run.give (some a)
  else Run.give none

namespace Noted.Erases

variable {A N α β : Type} {S : Scribe A N} {t : Noted N α} {x : Run α}

private theorem note {what : Machine → Happening A} {k : Unit → Noted N β} {y : Run β}
    (hk : (k ()).Erases y) :
    (S.note what >>= k).Erases y := by
  intro past
  funext m
  show ((S.note what >>= k) past m).1 = _
  rw [bind_done (t := S.note what) rfl]
  exact hk.fst _ m

theorem step (x : Run α) : (S.step x).Erases x := fun _ => rfl

theorem raise (told : List Failure) (f : Failure) :
    (S.raise told f : Noted N α).Erases (Run.fail f) := fun _ => rfl

theorem write (st : Settings) (line : Text) : (S.write st line).Erases (Run.write st line) :=
  fun _ => rfl

theorem see (h : t.Erases x) (what : Machine → Outcome α → Sighting A) : (S.see t what).Erases x :=
  h

theorem newFunction (a : A) (name : Text) (params : List Param)
    (body : List Stmt) (closure : FrameId) :
    (S.newFunction a name params body closure).Erases
      (Eval.newFunction name params body closure false) :=
  .bind (l := Run.give) (.step _) fun _ => .note (.step _)

theorem newClass (name : Text) (superclass : Option Class) (methods statics : List FunDecl)
    (closure env : FrameId) : (S.newClass name superclass methods statics closure env).Erases
      (Eval.newClass name superclass methods statics closure env) :=
  .bind (.step _) fun _ => .bind (.step _) fun _ => .bind (.step _) fun _ => .note (.step _)

theorem round {c : Noted N Bool} {p : Run Bool} (span : Span) (hc : c.Erases p) (h : t.Erases x) :
    (S.round span c t).Erases (Run.round span p x) := by
  have hhead : (S.head span).Erases (Run.checkCanceled span) := fun _ => rfl
  refine hhead.bind fun _ => hc.bind fun goOn => ?_
  cases goOn with
  | false => exact .step _
  | true => exact .note (h.bind fun a => .step _)

theorem counted {t : Noted N Value} {x : Run Value} (h : t.Erases x)
    (st : Settings) (callee : Value)
    (span : Span) : (S.counted st callee span t).Erases (Eval.counted st callee span x) :=
  fun past => funext fun m => by
    show Eval.counted st callee span (t.run _) m = _
    rw [h]

end Noted.Erases

end Lox
