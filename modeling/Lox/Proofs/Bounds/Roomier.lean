import Lox.Proofs.Bounds.Twins
import Lox.Proofs.Run.Calls
import Lox.Proofs.Run.Session
import Lox.Run.Native

set_option autoImplicit false
set_option relaxedAutoImplicit false

namespace Lox

open Text (lit)

def Outcome.EndedBut (E : Failure → Prop) {α : Type} : Outcome α → Prop
  | .done _ _ => True
  | .failed f _ => ¬ E f
  | .exhausted _ => False

/-- What ends under a bound on steps, but not by an excluded failure, ends in the same way under
every bound that is no smaller. -/
def Kept (E : Failure → Prop) {α : Type} (n : Nat) (x x' : Budgeted α) : Prop :=
  ∀ N, n ≤ N → ∀ m, (x n m).EndedBut E → x' N m = x n m

/-- Whether a failure says that calls went too deep. -/
def Failure.IsOverflow : Failure → Prop
  | .runtime .stackOverflow _ => True
  | _ => False

theorem Failure.IsOverflow.eq_runtime {f : Failure} (h : f.IsOverflow) :
    ∃ span, f = .runtime .stackOverflow span := by
  unfold IsOverflow at h
  split at h
  · exact ⟨_, rfl⟩
  · exact h.elim

private theorem Failure.IsOverflow.attach (f : Failure) (span : Span) (h : f.IsOverflow) :
    (f.attach span).IsOverflow := by
  obtain ⟨place, rfl⟩ := h.eq_runtime
  cases place <;> exact h

/-- An action that fails as its calls do when these fail in some ways. -/
def Action.HandsOn (E : Failure → Prop) : Action → Prop
  | .give _ => True
  | .fail _ => True
  | .write _ next => ∀ fault, (next fault).HandsOn E
  | .clock next => ∀ t, (next t).HandsOn E
  | .cancel next => next.HandsOn E
  | .invoke _ _ next =>
    (∀ f, E f → next (some (.error f)) = .fail f) ∧ ∀ r, (next r).HandsOn E

/-- A native function that fails as its calls do when these fail in some ways. -/
def Native.HandsOn (E : Failure → Prop) (n : Native) : Prop := ∀ args, (n.act args).HandsOn E

private theorem Action.handsOn_nothing (a : Action) : a.HandsOn fun _ => False := by
  induction a with
  | give v => trivial
  | fail f => trivial
  | write line next ih => exact ih
  | clock next ih => exact ih
  | cancel next ih => exact ih
  | invoke callee args next ih => exact ⟨nofun, ih⟩

namespace Kept

variable {E : Failure → Prop} {α β : Type} {n : Nat}

theorem later {x x' : Budgeted α} (h : Kept E n (fun k => x (k + 1)) (fun k => x' (k + 1))) :
    Kept E (n + 1) x x' := by
  intro N hN m hend
  obtain ⟨k, rfl⟩ := Nat.exists_eq_add_of_le' hN
  exact h (k + n) (Nat.le_add_left n k) m hend

theorem unstarted {x x' : Budgeted α} (h : x 0 = Run.exhaust) : Kept E 0 x x' := by
  intro N _ m hend
  rw [h] at hend
  exact hend.elim

theorem same (x : Run α) : Kept E n (fun _ => x) (fun _ => x) := fun _ _ _ _ => rfl

theorem settle {x x' : Budgeted α} {k k' : Nat → Except Failure α → Run β} (hx : Kept E n x x')
    (hok : ∀ a, Kept E n (fun i => k i (.ok a)) (fun i => k' i (.ok a)))
    (herror : ∀ f, ¬ E f → Kept E n (fun i => k i (.error f)) (fun i => k' i (.error f)))
    (hexcluded : ∀ f, E f → ∀ m, ¬ (k n (.error f) m).EndedBut E) :
    Kept E n (fun i => (x i).settle (k i)) (fun i => (x' i).settle (k' i)) := by
  intro N hN m hend
  have hfirst := hx N hN m
  change ((x n).settle (k n) m).EndedBut E at hend
  show (x' N).settle (k' N) m = (x n).settle (k n) m
  unfold Run.settle at hend ⊢
  cases hrun : x n m with
  | done a m' =>
    rw [hrun] at hfirst hend
    rw [hfirst trivial]
    exact hok a N hN m' hend
  | failed f m' =>
    rw [hrun] at hfirst hend
    by_cases hf : E f
    · exact absurd hend (hexcluded f hf m')
    · rw [hfirst hf]
      exact herror f hf N hN m' hend
  | exhausted m' =>
    rw [hrun] at hend
    exact hend.elim

private theorem bind {x x' : Budgeted α} {k k' : Nat → α → Run β} (hx : Kept E n x x')
    (hk : ∀ a, Kept E n (fun i => k i a) (fun i => k' i a)) :
    Kept E n (fun i => x i >>= k i) (fun i => x' i >>= k' i) := by
  simp only [Run.bind_eq_settle]
  exact settle hx hk (fun f _ => same (Run.fail f)) fun f hf m hend => hend hf

private theorem round (span : Span) {c c' : Budgeted Bool} {x x' : Budgeted α} (hc : Kept E n c c')
    (hx : Kept E n x x') :
    Kept E n (fun i => Run.round span (c i) (x i)) (fun i => Run.round span (c' i) (x' i)) := by
  refine bind (same _) fun _ => bind hc fun goOn => ?_
  cases goOn with
  | false => exact same _
  | true => exact bind hx fun a => same _

/-- Settings that differ only in the limit, which may be larger if overflows are excluded. -/
structure Room (E : Failure → Prop) (st st' : Settings) : Prop where
  natives : st'.natives = st.natives
  traced : st'.traced = st.traced
  outputFault : st'.outputFault = st.outputFault
  time : st'.time = st.time
  handsOn : ∀ n ∈ st.natives, n.HandsOn E
  /-- A failure is excluded with every place that a call may give it. -/
  attach (f : Failure) (span : Span) : E f → E (f.attach span)
  limit : st.limit = st'.limit ∨
    st.limit ≤ st'.limit ∧ ∀ span, E (.runtime .stackOverflow (some span))

theorem Room.same (st : Settings) : Room (fun _ => False) st st :=
  ⟨rfl, rfl, rfl, rfl, fun n _ args => (n.act args).handsOn_nothing, fun _ _ => id, .inl rfl⟩

variable {st st' : Settings}

private theorem emit_eq (h : st'.traced = st.traced) (kind : EventKind)
    (span : Span) (name : Text) :
    Run.emit st' kind span name = Run.emit st kind span name := by
  unfold Run.emit
  rw [h]

theorem counted (h : Room E st st') {x x' : Budgeted Value} (callee : Value) (span : Span)
    (hx : Kept E n x x') :
    Kept E n (fun i => Eval.counted st callee span (x i))
      (fun i => Eval.counted st' callee span (x' i)) := by
  unfold Eval.counted
  refine bind (same _) fun _ N hN m hend => ?_
  dsimp only at hend ⊢
  rw [h.traced, emit_eq h.traced, emit_eq h.traced]
  by_cases hlimit : st.limit ≤ m.depth
  · rw [if_pos hlimit] at hend ⊢
    rcases h.limit with heq | ⟨-, hE⟩
    · rw [if_pos (heq ▸ hlimit)]
    · exact absurd (hE span) hend
  · have hlimit' : ¬ st'.limit ≤ m.depth := by
      rcases h.limit with heq | ⟨hle, -⟩ <;> omega
    rw [if_neg hlimit] at hend ⊢
    rw [if_neg hlimit']
    generalize (Run.emit st .callStart span _ m.enter).machine = m₁ at hend ⊢
    have hbody := hx N hN m₁
    cases hrun : x n m₁ with
    | done v m' =>
      rw [hrun] at hbody
      rw [hbody trivial]
    | failed f m' =>
      rw [hrun] at hbody hend
      rw [hbody fun hf => hend (h.attach f span hf)]
    | exhausted m' =>
      rw [hrun] at hend
      exact hend.elim

private theorem perform (h : Room E st st')
    (happly : ∀ callee args, Kept E n (Eval.apply st · callee args) (Eval.apply st' · callee args))
    (hperform : ∀ {a a' : Action}, a = a' ∧ a.HandsOn E →
      Kept E n (Eval.perform st · a) (Eval.perform st' · a'))
    (harity : ∀ v, Eval.arity? st' v = Eval.arity? st v) {a : Action} (ha : a.HandsOn E) :
    Kept E n (fun i => Eval.perform st (i + 1) a) (fun i => Eval.perform st' (i + 1) a) := by
  cases a with
  | give v =>
    simp only [Eval.perform]
    exact same _
  | fail f =>
    simp only [Eval.perform]
    exact same _
  | write line next =>
    have hwrite : Run.write st' line = Run.write st line := by
      unfold Run.write
      rw [h.outputFault]
    simp only [Eval.perform, hwrite]
    exact bind (same _) fun fault => hperform ⟨rfl, ha fault⟩
  | clock next =>
    simp only [Eval.perform, h.time]
    exact hperform ⟨rfl, ha st.time⟩
  | cancel next =>
    simp only [Eval.perform]
    exact fun N hN m => hperform (a := next) ⟨rfl, ha⟩ N hN { m with canceled := true }
  | invoke callee args next =>
    by_cases hargs : Eval.arity? st callee = some args.length
    · simp only [Eval.perform_invoke _ next hargs,
        Eval.perform_invoke _ next ((harity callee).trans hargs)]
      refine settle (happly callee args) (fun v => hperform ⟨rfl, ha.2 _⟩)
        (fun f _ => hperform ⟨rfl, ha.2 _⟩) fun f hf m hend => ?_
      -- The native function hands on what is excluded.
      rw [ha.1 f hf] at hend
      cases n with
      | zero =>
        rw [Eval.perform] at hend
        exact hend
      | succ n =>
        rw [Eval.perform] at hend
        exact hend hf
    · simp only [Eval.perform_refused _ next hargs,
        Eval.perform_refused _ next (fun heq => hargs ((harity callee).symm.trans heq))]
      exact hperform ⟨rfl, ha.2 none⟩

def Watched (E : Failure → Prop) {α : Type} (n : Nat) (t : Budgeted.Watched α) (x : Budgeted α) :
    Prop :=
  ∃ y : Budgeted α, (t n).Erases (y n) ∧ Kept E n y x

private theorem Watched.kept {t : Budgeted.Watched α} {x y : Budgeted α} (h : Watched E n t x)
    (hy : (t n).Erases (y n)) : Kept E n y x := by
  obtain ⟨z, hz, hkept⟩ := h
  have hsame : y n = z n := (hy []).symm.trans (hz [])
  intro N hN m hend
  rw [hsame] at hend ⊢
  exact hkept N hN m hend

private theorem twins (h : Room E st st') :
    Twins st st' (fun a a' => a = a' ∧ a.HandsOn E) (Watched E) where
  natives i := by
    rw [h.natives]
    cases hi : st.natives[i]? with
    | none => exact .none
    | some n => exact .some ⟨rfl, fun args => ⟨rfl, h.handsOn n (Array.mem_of_getElem? hi) args⟩⟩
  outputFault := h.outputFault
  later := fun ⟨y, hy, hkept⟩ => ⟨fun k => y (k - 1), hy, later hkept⟩
  brief _ := ⟨_, .quiet _, same _⟩
  bind := fun ⟨y, hy, hkept⟩ hk => by
    choose z hz hrest using hk
    exact ⟨fun i => y i >>= fun a => z a i, hy.bind hz, bind hkept hrest⟩
  round span := fun ⟨p, hp, hcondition⟩ ⟨y, hy, hbody⟩ =>
    ⟨fun i => Run.round span (p i) (y i), .round span hp hy, round span hcondition hbody⟩
  counted callee span := fun ⟨y, hy, hkept⟩ =>
    ⟨fun i => Eval.counted st callee span (y i), hy.counted st callee span,
      counted h callee span hkept⟩
  perform {n} happly hperform := by
    rintro told a _ ⟨rfl, ha⟩
    have herases := watching.erasesAt st n
    refine ⟨fun i => Eval.perform st (i + 1) a, (watching.erasesAt st (n + 1)).perform told a, ?_⟩
    refine perform h (fun callee args => (happly callee args).kept (herases.apply callee args))
      (fun ha' => (hperform told ha').kept ?_) (fun v => ?_) ha
    · exact herases.perform told _
    · unfold Eval.arity?
      rw [h.natives]

end Kept

namespace Eval

variable {E : Failure → Prop} {st st' : Settings}

private theorem kept_all (h : Kept.Room E st st') (n : Nat) :
    HoldsBoth st st' (fun a a' => a = a' ∧ a.HandsOn E) (Kept.Watched E) n :=
  holdsBoth (Kept.twins h) (holdsBoth_zero fun ht _ _ =>
    ⟨fun _ => Run.exhaust, ht ▸ .quiet _, .unstarted rfl⟩) n

theorem kept_expr (h : Kept.Room E st st') (n : Nat) (e : Expr) (env : FrameId) :
    Kept E n (expr st · e env) (expr st' · e env) :=
  ((kept_all h n).expr e env).kept ((watching.erasesAt st n).expr () e env)

/-- More steps, and more room for calls if overflows are excluded, change nothing in what has ended.
-/
theorem kept_script (h : Kept.Room E st st') (n : Nat) (ss : List Stmt) :
    Kept E n (script st · ss) (script st' · ss) :=
  ((kept_all h n).script (Kept.twins h) ss).kept (watching.erases_script st n ss)

theorem kept_program (h : Kept.Room E st st') (n : Nat) (p : Program) :
    Kept E n (program st · p) (program st' · p) := by
  intro N hN m hend
  have hscript := kept_script h n p.body N hN
  unfold program at hend ⊢
  dsimp only at hend hscript ⊢
  rw [Kept.emit_eq h.traced, Kept.emit_eq h.traced]
  generalize (Run.emit st .runStart p.span [] m).machine = m₁ at hend ⊢
  have hbody := hscript m₁
  cases hrun : script st n p.body m₁ with
  | done a m' =>
    rw [hrun] at hbody
    rw [hbody trivial]
  | failed f m' =>
    rw [hrun] at hbody hend
    rw [hbody hend]
  | exhausted m' =>
    rw [hrun] at hend
    exact hend.elim

end Eval

/-! ### The natives of the language -/

private theorem Action.Plain.handsOn {F : Failure → Prop} {a : Action}
    (h : a.Plain F) (E : Failure → Prop) :
    a.HandsOn E := by
  induction a with
  | give v => trivial
  | fail f => trivial
  | write line next ih => exact fun fault => ih fault (h fault)
  | clock next ih => exact fun t => ih t (h t)
  | cancel next ih => exact ih h
  | invoke callee args next _ => exact h.elim

theorem Registry.handsOn_standard (E : Failure → Prop) : ∀ n ∈ standard.natives, n.HandsOn E :=
  fun n hn args => ((plain_standard n hn).act args).handsOn E

/-! ### Sessions -/

namespace Session

/-- The session with another limit on the depth of calls. -/
def withLimit (s : Session) (limit : Nat) : Session :=
  { s with settings := { s.settings with limit } }

/-- What becomes of a session when a program has ended. -/
def conclude (s : Session) : Outcome Unit → Except RunError Unit × Session
  | .done _ m => (.ok (), { s with machine := m })
  | .failed f m => (.error (.failed f), { s with machine := m })
  | .exhausted m => (.error .exhausted, { s with machine := m })

theorem execute_eq_conclude (s : Session) (fuel : Nat) (p : Program) :
    s.execute fuel p = s.conclude (Eval.program s.settings fuel p s.machine) := rfl

theorem settings_conclude (s : Session) (o : Outcome Unit) :
    (s.conclude o).2.settings = s.settings := by
  cases o <;> rfl

theorem machine_conclude (s : Session) (o : Outcome Unit) :
    (s.conclude o).2.machine = o.machine := by
  cases o <;> rfl

theorem conclude_withLimit (s : Session) (limit : Nat) (o : Outcome Unit) :
    (s.withLimit limit).conclude o = ((s.conclude o).1, (s.conclude o).2.withLimit limit) := by
  cases o <;> rfl

theorem endedBut_of_conclude {s : Session} {E : Failure → Prop} {o : Outcome Unit}
    (hend : (s.conclude o).1 ≠ .error .exhausted)
    (hbut : ∀ f, (s.conclude o).1 = .error (.failed f) → ¬ E f) : o.EndedBut E := by
  cases o with
  | done a m => trivial
  | failed f m => exact hbut f rfl
  | exhausted m => exact hend rfl

theorem program_withLimit {s : Session}
    (hnatives : ∀ n ∈ s.settings.natives, n.HandsOn Failure.IsOverflow)
    {limit : Nat} (hlimit : s.settings.limit ≤ limit) {fuel fuel' : Nat}
    (hfuel : fuel ≤ fuel') {p : Program}
    (hend : (Eval.program s.settings fuel p s.machine).EndedBut Failure.IsOverflow) :
    Eval.program (s.withLimit limit).settings fuel' p s.machine =
      Eval.program s.settings fuel p s.machine := by
  have hroom : Kept.Room Failure.IsOverflow s.settings (s.withLimit limit).settings :=
    ⟨rfl, rfl, rfl, rfl, hnatives, Failure.IsOverflow.attach, .inr ⟨hlimit, fun _ => trivial⟩⟩
  exact Eval.kept_program hroom fuel p fuel' hfuel s.machine hend

/-- A larger limit on the depth of calls never changes a run that fits, provided that native
functions hand on that a call of theirs went too deep. If a program has ended, with a value or a
failure, but not because calls went too deep, then under every limit that is no smaller and every
bound on steps that is no smaller it ends in the same way and leaves the same machine: the same heap
with its globals, the same output and events, and the same counts of calls. -/
theorem execute_withLimit {s : Session}
    (hnatives : ∀ n ∈ s.settings.natives, n.HandsOn Failure.IsOverflow)
    {limit : Nat} (hlimit : s.settings.limit ≤ limit) {fuel : Nat} {p : Program}
    {r : Except RunError Unit} {s' : Session} (hrun : s.execute fuel p = (r, s'))
    (hend : r ≠ .error .exhausted) (hfits : ∀ f, r = .error (.failed f) → ¬ f.IsOverflow)
    {fuel' : Nat} (hfuel : fuel ≤ fuel') :
    (s.withLimit limit).execute fuel' p = (r, s'.withLimit limit) := by
  rw [execute_eq_conclude] at hrun
  have hended : (Eval.program s.settings fuel p s.machine).EndedBut Failure.IsOverflow := by
    refine endedBut_of_conclude (s := s) ?_ ?_
    · rwa [hrun]
    · rwa [hrun]
  calc (s.withLimit limit).execute fuel' p
      = (s.withLimit limit).conclude (Eval.program s.settings fuel p s.machine) := by
        rw [← program_withLimit hnatives hlimit hfuel hended]
        rfl
    _ = (r, s'.withLimit limit) := by rw [conclude_withLimit, hrun]

def announcement : Program :=
  let place : Span := .nowhere []
  let name (n : Text) (hops : Option Int) : Expr := .name { span := place, name := n, hops }
  { span := place
    body := [
      .funDecl (.mk place (lit "f") [{ span := place, name := lit "x" }]
        [.printStmt place (name (lit "x") (some 0))]),
      .exprStmt place (.call place (name (lit "f") none) [.literal place (.string (lit "a"))])] }

theorem execute_withLimit_announcement :
    let s : Session := {
      settings := { limit := 1, natives := Registry.standard.natives.toArray }
      machine := .initial Registry.standard.natives }
    (s.execute 20 announcement).1 = .ok () ∧
      (s.withLimit 5).execute 30 announcement =
        (.ok (), (s.execute 20 announcement).2.withLimit 5) := by
  intro s
  have hresult : (s.execute 20 announcement).1 = .ok () := by decide +kernel
  have hnatives : ∀ n ∈ s.settings.natives, n.HandsOn Failure.IsOverflow := by
    intro n hn
    exact Registry.handsOn_standard _ n (List.mem_toArray.1 hn)
  have hrun : s.execute 20 announcement = (.ok (), (s.execute 20 announcement).2) :=
    Prod.ext hresult rfl
  exact ⟨hresult, execute_withLimit hnatives (by decide) hrun nofun nofun (by decide)⟩

/-- A native function that calls its argument and gives nil, also if that call fails. -/
def forgiving : Native where
  name := lit "attempt"
  arity := 1
  act
    | [f] => .invoke f [] fun _ => .give .nil
    | _ => .give .nil

/-- A native function that takes an overflow for an answer shows the program how deep calls may go.
-/
theorem execute_withLimit_forgiving :
    let s : Session := {
      settings := { limit := 1, natives := #[forgiving] }
      machine := .initial [forgiving] }
    ∃ p, s.prepare []
        (lit "fun g() \x7b print 1; \x7d fun f() \x7b g(); \x7d attempt(f);") = .ok p ∧
      (s.execute 30 p).1 = .ok () ∧ (s.execute 30 p).2.machine.written = [] ∧
      ((s.withLimit 2).execute 30 p).1 = .ok () ∧
      ((s.withLimit 2).execute 30 p).2.machine.written = lit "1\n" := by
  intro s
  obtain ⟨p, hp, hends⟩ := exists_prepare s []
    (lit "fun g() \x7b print 1; \x7d fun f() \x7b g(); \x7d attempt(f);")
    (fun p => decide ((s.execute 30 p).1.toOption = some () ∧
      (s.execute 30 p).2.machine.written = [] ∧
      ((s.withLimit 2).execute 30 p).1.toOption = some () ∧
      ((s.withLimit 2).execute 30 p).2.machine.written = lit "1\n")) (by decide +kernel)
  obtain ⟨hok, hwritten, hok', hwritten'⟩ := of_decide_eq_true hends
  exact ⟨p, hp, eq_ok_of_toOption hok, hwritten, eq_ok_of_toOption hok', hwritten'⟩

end Session

end Lox
