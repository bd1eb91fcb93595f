import Lox.Proofs.Bounds.Cancellation
import Lox.Proofs.Bounds.Loopless
import Lox.Proofs.Failure.Evaluation
import Lox.Proofs.Rename.Session

set_option autoImplicit false
set_option relaxedAutoImplicit false

namespace Lox

open Text (lit)
open Grammar (Tree)

namespace Note

/-- How a failure that is noted shows at the end of a run, by the calls that were being evaluated
when it arose. The program gives a place to its own failures, and a native function may give one to
its failures. Any other failure of a native function gets the place of the innermost call, and is an
error of native functions if it was none of the program. -/
inductive Shows (C : Tree → Prop) (calls : List Span) : Note → Failure → Prop
  | located {e : RuntimeError} {t : Tree} : C t → e.code.isRuntime = true →
      Shows C calls (.fault (.runtime e (some t.span))) (.runtime e (some t.span))
  | broken {e : InternalError} {span : Option Span} :
      Shows C calls (.fault (.internal e span)) (.internal e span)
  | supplied {e : RuntimeError} {place : Span} :
      Shows C calls (.raised (.runtime e (some place))) (.runtime e (some place))
  | bare {e : RuntimeError} {place : Span} {f : Expr} {args : List Expr} :
      calls.head? = some place →
      C (.expr (.call place f args)) → Shows C calls (.raised (.runtime e none))
        (.runtime e (some place))
  | plain {message : Text} {place : Span} {f : Expr} {args : List Expr} : calls.head? = some place →
      C (.expr (.call place f args)) →
      Shows C calls (.raised (.plain message)) (.runtime (.raised .native message) (some place))
  | reported {e : InternalError} {span : Option Span} :
      Shows C calls (.raised (.internal e span)) (.internal e span)

variable {C : Tree → Prop} {l : List Note} {f : Failure}

private theorem mem_of_mem_calls {outer : List Span} {span : Span} (h : span ∈ calls outer l) :
    span ∈ outer ∨ .call span ∈ l := by
  fun_induction calls outer l with
  | case1 outer => exact .inl h
  | case2 outer place r ih =>
    rcases ih h with h | h
    · rcases List.mem_cons.1 h with rfl | h
      · exact .inr List.mem_cons_self
      · exact .inl h
    · exact .inr (List.mem_cons_of_mem _ h)
  | case3 outer r ih =>
    exact (ih h).imp List.mem_of_mem_tail (List.mem_cons_of_mem _)
  | case4 _ _ _ ih | case5 _ _ _ ih | case6 _ _ _ ih =>
    exact (ih h).imp_right (List.mem_cons_of_mem _)

private theorem shows_leave {x : Note} {before : List Note}
    (hx : x.failure? = some f) (hfits : x.Fits C)
    (hcalls : ∀ y ∈ before, y.Fits C) (hplaced : (f.leave (calls [] before)).Placed) :
    x.Shows C (calls [] before) (f.leave (calls [] before)) := by
  have hinner : ∀ {span : Span} {r : List Span}, calls [] before = span :: r →
      ∃ g args, C (.expr (.call span g args)) := by
    intro span r h
    have hmem : span ∈ calls [] before := h ▸ List.mem_cons_self
    exact hcalls _ ((mem_of_mem_calls hmem).resolve_left List.not_mem_nil)
  cases x with
  | fault g =>
    cases hx
    cases f with
    | runtime e span =>
      obtain ⟨he, place, rfl, t, ht, rfl⟩ := hfits
      cases calls [] before <;> exact .located ht he
    | internal e span => cases calls [] before <;> exact .broken
    | plain message => exact hfits.elim
  | raised g =>
    cases hx
    generalize hpending : calls [] before = pending at hplaced hinner ⊢
    cases pending with
    | nil =>
      cases f with
      | runtime e span =>
        cases span with
        | none => exact hplaced.elim
        | some place => exact .supplied
      | internal e span => exact .reported
      | plain message => exact hplaced.elim
    | cons span r =>
      obtain ⟨g, args, hcall⟩ := hinner rfl
      cases f with
      | runtime e place =>
        cases place with
        | none => exact .bare rfl hcall
        | some place => exact .supplied
      | internal e place => exact .reported
      | plain message => exact .plain rfl hcall
  | _ => cases hx

/-- An error of the program has a place: that of a tree, or one that a native function has given it.
-/
theorem Shows.place {calls : List Span} {x : Note} {e : RuntimeError} {span : Option Span}
    (h : x.Shows C calls (.runtime e span)) :
    ∃ place, span = some place ∧
      (Grammar.Spanned C place ∨ x = .raised (.runtime e (some place))) := by
  cases h with
  | located ht _ => exact ⟨_, rfl, .inl ⟨_, ht, rfl⟩⟩
  | supplied => exact ⟨_, rfl, .inr rfl⟩
  | bare _ hcall | plain _ hcall => exact ⟨_, rfl, .inl ⟨_, hcall, rfl⟩⟩

/-- An error of the program has a code of running programs, unless a native function has given it
another. -/
theorem Shows.code {calls : List Span} {x : Note} {e : RuntimeError} {span : Option Span}
    (h : x.Shows C calls (.runtime e span))
    (hraised : ∀ e' span', x = .raised (.runtime e' span') → e'.code.isRuntime = true) :
    e.code.isRuntime = true := by
  cases h with
  | located _ he => exact he
  | supplied => exact hraised _ _ rfl
  | bare _ _ => exact hraised _ _ rfl
  | plain _ _ => rfl

/-- Where the notes of a run tell of its failure. If failures are handed on directly, nothing but
ends of calls is noted after it. -/
theorem Explains.shows {direct : Prop} (h : Explains direct l f) (hfits : ∀ y ∈ l, y.Fits C)
    (hplaced : f.Placed) : ∃ before x later, l = before ++ x :: later ∧ x.failure?.isSome = true ∧
      x.Shows C (calls [] before) f ∧
      (direct → (∀ y ∈ before, y.failure? = none) ∧ ∀ y ∈ later, y = .back) := by
  cases h with
  | @arises before later x f inner hx hcalls hdirect =>
    have hinner : calls [] before = inner := (hcalls []).trans (List.append_nil inner)
    obtain ⟨hbefore, hrest⟩ := List.forall_mem_append.1 hfits
    refine ⟨before, x, later, rfl, by rw [hx]; rfl, ?_, hdirect⟩
    rw [← hinner] at hplaced ⊢
    exact shows_leave hx (List.forall_mem_cons.1 hrest).1 hbefore hplaced

private theorem eq_of_only {before before' later later' : List Note} {x x' : Note}
    (h : before ++ x :: later = before' ++ x' :: later') (hx : x.failure?.isSome = true)
    (hbefore : ∀ y ∈ before', y.failure? = none) (hlater : ∀ y ∈ later', y = .back) :
    before = before' ∧ x = x' := by
  rcases List.append_eq_append_iff.1 h with ⟨r, hr, hrest⟩ | ⟨r, hr, hrest⟩
  · cases r with
    | nil =>
      cases hrest
      exact ⟨(hr.trans (List.append_nil _)).symm, rfl⟩
    | cons y r =>
      cases hrest
      have hnone := hbefore x (hr ▸ List.mem_append_right _ List.mem_cons_self)
      rw [hnone] at hx
      cases hx
  · cases r with
    | nil =>
      cases hrest
      exact ⟨hr.trans (List.append_nil _), rfl⟩
    | cons y r =>
      cases hrest
      have hback := hlater x (List.mem_append_right _ List.mem_cons_self)
      rw [hback] at hx
      cases hx

end Note

/-! ### Sessions -/

/-- A tree of one of some programs. -/
def Program.AnyHas (ps : List Program) (t : Tree) : Prop := ∃ p ∈ ps, p.Has t

private theorem Program.AnyHas.cons {ps : List Program} {t : Tree} (p : Program) (h : AnyHas ps t) :
    AnyHas (p :: ps) t :=
  h.imp fun _ hq => ⟨List.mem_cons_of_mem _ hq.1, hq.2⟩

private theorem Machine.from_initial (C : Tree → Prop) (natives : List Native) :
    (Machine.initial natives).heap.All (Value.From C) :=
  .initial (Bindings.foldl_all (fun (q : Native × Nat) => q.1.name) (fun q => .native q.2)
    (fun _ _ => rfl) (fun _ _ => trivial) Bindings.all_nil)

namespace Session

/-- Runs a source that is told, unless something is statically wrong with it. -/
def recount (s : Session) (fuel : Nat) (file source : Text) :
    (Except RunError Unit × Session) × List Note :=
  match s.prepare file source with
  | .error ds => ((.error (.rejected ds), s), [])
  | .ok p =>
    let told := chronicling.program s.settings fuel p [] s.machine
    (s.conclude told.1, told.2)

/-- The sessions that runs lead to, with the programs that were run, the last one first. Between
runs the host may change everything but the native functions and the heap. -/
inductive Ran (natives : List Native) : Session → List Program → Prop
  | start (st : Settings) : st.natives = natives.toArray →
      Ran natives { settings := st, machine := .initial natives } []
  | run {s : Session} {ps : List Program} {file source : Text} {p : Program} (fuel : Nat) :
      Ran natives s ps → s.prepare file source = .ok p →
      Ran natives (s.run fuel file source).2 (p :: ps)
  | host {s s' : Session} {ps : List Program} : Ran natives s ps →
      s'.settings.natives = s.settings.natives → s'.machine.heap = s.machine.heap →
      Ran natives s' ps

variable {natives : List Native} {s : Session} {ps : List Program}

private theorem Ran.reached (h : s.Ran natives ps) : s.Reached natives := by
  induction h with
  | start st hst => exact .start st hst
  | run fuel _ _ ih => exact .run fuel _ _ ih
  | host _ hnatives hheap ih => exact .host ih hnatives hheap

theorem Ran.of_reached (h : s.Reached natives) : ∃ ps, s.Ran natives ps := by
  induction h with
  | start st hst => exact ⟨[], .start st hst⟩
  | @run s fuel file source _ ih =>
    obtain ⟨ps, hps⟩ := ih
    cases hp : s.prepare file source with
    | error faults =>
      rw [run_eq_rejected hp]
      exact ⟨ps, hps⟩
    | ok p => exact ⟨p :: ps, .run fuel hps hp⟩
  | host _ hnatives hheap ih =>
    obtain ⟨ps, hps⟩ := ih
    exact ⟨ps, .host hps hnatives hheap⟩

private theorem Ran.natives_eq (h : s.Ran natives ps) : s.settings.natives = natives.toArray :=
  h.reached.natives_eq

def code (natives : List Native) (ps : List Program) : Chronicling.Code where
  trees := Program.AnyHas ps
  closed ht hu := ht.imp fun _ hq => ⟨hq.1, hq.2.child hu⟩
  direct := ∀ n ∈ natives, n.HandsOn fun _ => True

private theorem Ran.faithful (hnatives : ∀ n ∈ natives, n.Borrows)
    (h : s.Ran natives ps) (p : Program)
    (fuel : Nat) : Chronicling.Faithful (code natives (p :: ps)).running
      (chronicling.program s.settings fuel p) fun _ => True := by
  refine Chronicling.faithful_program (fun n hn => ?_) (fun hdirect n hn => ?_) fuel fun t ht =>
    ⟨p, List.mem_cons_self, .statement ht⟩
  · rw [h.natives_eq] at hn
    exact hnatives n (List.mem_toArray.1 hn)
  · rw [h.natives_eq] at hn
    exact hdirect n (List.mem_toArray.1 hn)

private theorem Ran.heap (hnatives : ∀ n ∈ natives, n.Borrows) (h : s.Ran natives ps) :
    s.machine.heap.All (Value.From (Program.AnyHas ps)) := by
  induction h with
  | start st hst => exact Machine.from_initial _ natives
  | @run s ps file source p fuel hran hp ih =>
    have hlarger := ih.imp fun _ hv => Value.From.imp (fun _ ht => ht.cons p) hv
    have hends := hran.faithful hnatives p fuel [] s.machine hlarger
    rw [run_eq_conclude hp,
      machine_conclude, ← (chronicling.erases_program s.settings fuel p).fst []]
    exact hends.tell.heap
  | host _ _ hheap ih => exact hheap ▸ ih

end Session

/-- What a failed run reports, by its notes and by the programs that were run up to it. A note tells
where the failure arose; if native functions hand the failures of their calls on, nothing failed
before, only calls end afterwards, and all output was written before. An error of the program has a
place, in a program or given by a native function; it has a code of running programs, unless native
functions raise others; the exit code is 3, and there is one diagnostic, of that code, wording and
place. If native functions are honest, a run fails in no other way. -/
structure Failure.Located (natives : List Native) (ps : List Program)
    (l : List Note) (f : Failure) :
    Prop where
  origin : ∃ before x later, l = before ++ x :: later ∧
    x.Shows (Program.AnyHas ps) (Note.calls [] before) f ∧
      ((∀ n ∈ natives, n.HandsOn fun _ => True) → (∀ y ∈ before, y.failure? = none) ∧
        (∀ y ∈ later, y = .back) ∧ Note.written l = Note.written before)
  place : ∀ e span, f = .runtime e span → ∃ place, span = some place ∧
    ((∃ p ∈ ps, ∃ t, p.Has t ∧ t.span = place) ∨ .raised (.runtime e (some place)) ∈ l)
  code : (∀ e span, .raised (.runtime e span) ∈ l → e.code.isRuntime = true) →
    ∀ e span, f = .runtime e span → e.code.isRuntime = true
  report : ∀ e span, f = .runtime e span → (RunError.failed f).exitCode = 3 ∧
    (RunError.failed f).diagnostics = [{ code := e.code, message := e.message, span }]
  honest : (∀ n ∈ natives, n.Honest) → ∃ e span, f = .runtime e span

namespace Session

variable {natives : List Native} {s : Session} {ps : List Program}
  {file source : Text} {p : Program}

private theorem recount_eq (hp : s.prepare file source = .ok p) (fuel : Nat) :
    s.recount fuel file source =
    (s.conclude (chronicling.program s.settings fuel p [] s.machine).1,
      (chronicling.program s.settings fuel p [] s.machine).2) := by
  unfold recount
  rw [hp]

private theorem Ran.ends (hnatives : ∀ n ∈ natives, n.Borrows) (h : s.Ran natives ps)
    (p : Program) (fuel : Nat) :
    Chronicling.Ends (code natives (p :: ps)).running s.machine (fun _ => True)
      (chronicling.program s.settings fuel p [] s.machine) :=
  h.faithful hnatives p fuel [] s.machine
    ((h.heap hnatives).imp fun _ hv => hv.imp fun _ ht => ht.cons p)

private theorem located_of_explains {l : List Note} {f : Failure}
    (hexplains : Note.Explains (∀ n ∈ natives, n.HandsOn fun _ => True) l f)
    (hfits : ∀ y ∈ l, y.Fits (Program.AnyHas ps)) (hplaced : f.Placed)
    (hhonest : (∀ n ∈ natives, n.Honest) → f.isInternal = false) : f.Located natives ps l := by
  obtain ⟨before, x, later, rfl, -, hshows, hdirect⟩ := hexplains.shows hfits hplaced
  have hx : x ∈ before ++ x :: later := List.mem_append_right _ List.mem_cons_self
  refine ⟨⟨before, x, later, rfl, hshows, fun hd => ?_⟩, ?_, ?_, ?_, fun hall => ?_⟩
  · obtain ⟨hbefore, hlater⟩ := hdirect hd
    refine ⟨hbefore, hlater, ?_⟩
    have hsilent : Note.written (x :: later) = [] := by
      refine List.flatMap_eq_nil_iff.2 (List.forall_mem_cons.2 ⟨?_, fun y hy => ?_⟩)
      · cases hshows <;> rfl
      · rw [hlater y hy]
        rfl
    rw [Note.written_append, hsilent, List.append_nil]
  · rintro e span rfl
    obtain ⟨place, hspan, hplace⟩ := hshows.place
    refine ⟨place, hspan, hplace.imp ?_ ?_⟩
    · rintro ⟨t, ⟨q, hq, ht⟩, hplace⟩
      exact ⟨q, hq, t, ht, hplace⟩
    · rintro rfl
      exact hx
  · rintro hraised e span rfl
    exact hshows.code fun e' span' h => hraised e' span' (h ▸ hx)
  · rintro e span rfl
    exact ⟨rfl, rfl⟩
  · cases f with
    | runtime e span => exact ⟨e, span, rfl⟩
    | internal e span => cases hhonest hall
    | plain message => exact hplaced.elim

/-- Every failed run is classified and located. Native functions may do anything but make up
functions, classes or objects. A run that is told is the run itself, and has written what is noted;
if it fails, the failure is located by the notes. If native functions hand the failures of their
calls on, every failure that arises is the one of the run, unless the steps are used up. -/
theorem run_located (hnatives : ∀ n ∈ natives, n.Borrows) (h : s.Ran natives ps)
    (hp : s.prepare file source = .ok p) (fuel : Nat) {r : Except RunError Unit} {s' : Session}
    (hrun : s.run fuel file source = (r, s')) :
    ∃ l, s.recount fuel file source = ((r, s'), l) ∧
      s'.machine.written = s.machine.written ++ Note.written l ∧
      (∀ f, r = .error (.failed f) → f.Located natives (p :: ps) l) ∧
      ((∀ n ∈ natives, n.HandsOn fun _ => True) → ∀ before x later, l = before ++ x :: later →
        x.failure?.isSome = true → r = .error .exhausted ∨
          ∃ f, r = .error (.failed f) ∧
            x.Shows (Program.AnyHas (p :: ps)) (Note.calls [] before) f) := by
  have hends := h.ends hnatives p fuel
  have hconclude : s.conclude (chronicling.program s.settings fuel p [] s.machine).1 = (r, s') := by
    rw [(chronicling.erases_program s.settings fuel p).fst [], ← run_eq_conclude hp, hrun]
  have hhonest : (∀ n ∈ natives, n.Honest) → ∀ f, r = .error (.failed f) →
      f.isInternal = false := by
    rintro hall f rfl
    obtain ⟨hsettings, hsound⟩ := h.reached.sound hall
    exact (run_sound hsettings hsound fuel file source).2.2 f (congrArg Prod.fst hrun)
  refine ⟨_, (recount_eq hp fuel).trans (Prod.ext hconclude rfl), ?_, fun f hf => ?_, ?_⟩
  · rw [← hends.tell.written, ← machine_conclude, hconclude]
  all_goals generalize chronicling.program s.settings fuel p [] s.machine = o at hends hconclude
  · cases hends with
    | failed htell hl hexplains hplaced =>
      cases hconclude
      cases hf
      exact located_of_explains hexplains htell.fits (hplaced.resolve_left id)
        fun hall => hhonest hall _ rfl
    | passed _ _ htold => cases htold
    | done _ _ _ | exhausted _ =>
      cases hconclude
      cases hf
  · intro hdirect before x later hl hx
    cases hends with
    | done _ hsettled _ =>
      cases hl
      have hclean := hsettled.clean hdirect x (List.mem_append_right _ List.mem_cons_self)
      rw [hclean] at hx
      cases hx
    | failed htell _ hexplains hplaced =>
      cases hconclude
      obtain ⟨before', x', later', hl', -, hshows, honly⟩ :=
        hexplains.shows htell.fits (hplaced.resolve_left id)
      obtain ⟨rfl, rfl⟩ :=
        Note.eq_of_only (hl.symm.trans hl') hx (honly hdirect).1 (honly hdirect).2
      exact .inr ⟨_, rfl, hshows⟩
    | passed _ _ htold => cases htold
    | exhausted _ =>
      cases hconclude
      exact .inl rfl

def refusing : Native where
  name := lit "refuse"
  arity := 0
  act _ := .fail (.plain (lit "refused"))

def announcing : Native where
  name := lit "announce"
  arity := 1
  act
    | [f] => .write (lit "calling") fun _ => .invoke f [] fun
      | some (.ok v) => .give v
      | some (.error f) => .fail f
      | none => .give .nil
    | _ => .give .nil

private theorem borrows_announcing : announcing.Borrows := by
  intro args hargs
  obtain ⟨f, rfl⟩ := List.length_eq_one_iff.1 hargs
  exact fun _ => ⟨.given List.mem_cons_self, List.forall_mem_nil _, .nil,
    fun _ => .given List.mem_cons_self, fun _ _ => trivial⟩

/-- The function that is called back stands in an earlier program. -/
theorem run_located_calledBack :
    let natives := [refusing, announcing]
    let s := ((hosted natives).run 40 (lit "first") (lit "fun f() \x7b print 1; refuse(); \x7d")).2
    let source := lit "announce(f); print 2;"
    let outer : Span := { file := lit "second", start := ⟨1, 1⟩, stop := ⟨1, 12⟩ }
    let inner : Span := { file := lit "first", start := ⟨1, 20⟩, stop := ⟨1, 28⟩ }
    let l : List Note := [.call outer, .wrote (lit "calling"), .wrote (lit "1"), .call inner,
      .raised (.plain (lit "refused")), .back, .back]
    let f : Failure := .runtime (.raised .native (lit "refused")) (some inner)
    (∀ n ∈ natives, n.Borrows) ∧ ∃ p q s', s.Ran natives [p] ∧
      s.prepare (lit "second") source = .ok q ∧
      s.recount 40 (lit "second") source = ((.error (.failed f), s'), l) ∧
      s'.machine.written = lit "calling\n1\n" ∧ f.Located natives [q, p] l := by
  intro natives s source outer inner l f
  have hnatives : ∀ n ∈ natives, n.Borrows :=
    List.forall_mem_cons.2 ⟨fun _ _ => trivial, List.forall_mem_singleton.2 borrows_announcing⟩
  obtain ⟨p, hp, -⟩ := exists_prepare (hosted natives) (lit "first")
    (lit "fun f() \x7b print 1; refuse(); \x7d") (fun _ => true) (by decide +kernel)
  obtain ⟨q, hq, hends⟩ := exists_prepare s (lit "second") source (fun _ => decide (
    (s.run 40 (lit "second") source).1 = .error (.failed f) ∧
    (s.run 40 (lit "second") source).2.machine.written = lit "calling\n1\n" ∧
    (s.recount 40 (lit "second") source).2 = l)) (by decide +kernel)
  have hstart : (hosted natives).Ran natives [] := .start _ rfl
  have hran : s.Ran natives [p] := .run 40 hstart hp
  obtain ⟨hfails, hwritten, hnotes⟩ := of_decide_eq_true hends
  generalize hrun : s.run 40 (lit "second") source = after at hfails hwritten
  obtain ⟨r, s'⟩ := after
  obtain ⟨l', hrecount, -, hlocated, -⟩ := run_located hnatives hran hq 40 hrun
  obtain rfl : r = .error (.failed f) := hfails
  obtain rfl : l' = l := (congrArg Prod.snd hrecount).symm.trans hnotes
  exact ⟨hnatives, p, q, s', hran, hq, hrecount, hwritten, hlocated f rfl⟩

end Session
end Lox
