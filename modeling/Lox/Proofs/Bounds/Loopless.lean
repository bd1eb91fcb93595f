import Lox.Proofs.Bounds.Halts
import Lox.Proofs.Bounds.Roomier
import Lox.Proofs.Run.Session

set_option autoImplicit false
set_option relaxedAutoImplicit false

namespace Lox

open Text (lit)

/-! ### The natives of the language -/

private theorem Action.Plain.returns {V : Value → Prop} (hV : ∀ v, v.IsPlain → V v)
    {natives : Array Native}
    {F : Failure → Prop} {a : Action} (h : a.Plain F) : a.Returns V natives := by
  induction a with
  | give v => exact .give (hV v h)
  | fail f => exact .fail f
  | write line next ih => exact .write fun fault => ih fault (h fault)
  | clock next ih => exact .clock fun t => ih t (h t)
  | cancel next ih => exact .cancel (ih h)
  | invoke callee args next _ => exact h.elim

private theorem Registry.returns_standard (c : Prop) (natives : Array Native) :
    ∀ n ∈ standard.natives, n.Returns (Value.LoopsIf c) natives :=
  fun n hn args _ => ((plain_standard n hn).act args).returns fun v hv => by cases hv <;> trivial

/-! ### Sessions -/

/-- A source without loops: if it can be read, no `while` and no `for` statement stands in it. -/
def Loopless (file source : Text) : Prop :=
  ∀ p, Program.parse file source = .ok p → Stmt.LoopsIfAll False p.body

private theorem Machine.loopsIf_initial (c : Prop) (natives : List Native) :
    (Machine.initial natives).heap.LoopsIf c := by
  have hempty : ∀ n v, List.lookup n ([] : Bindings) = some v → v.LoopsIf c := by
    intro n v h
    cases h
  exact Heap.loopsIf_initial (Bindings.foldl_all (fun (q : Native × Nat) => q.1.name)
    (fun q => .native q.2) (fun _ _ => rfl) (fun _ _ => trivial) hempty)

private theorem Eval.eq_of_comes {st : Settings} {p : Program} {m : Machine} {o : Outcome Unit}
    (hcomes : Budgeted.Comes (program st · p) m o) {fuel : Nat}
    (hend : (program st fuel p m).EndedBut fun _ => False) : program st fuel p m = o := by
  obtain ⟨N, hN⟩ := hcomes
  have hkept : program st (max fuel N) p m = program st fuel p m :=
    kept_program (.same st) fuel p _ (Nat.le_max_left ..) m hend
  exact hkept.symm.trans (hN _ (Nat.le_max_right ..))

namespace Session

/-- The sessions that runs of sources without loops lead to, however the runs end. Between runs the
host may change everything but the native functions and the heap. -/
inductive Unlooped (natives : List Native) : Session → Prop
  | start (st : Settings) : st.natives = natives.toArray →
      Unlooped natives { settings := st, machine := .initial natives }
  | run {s : Session} (fuel : Nat) {file source : Text} :
      Unlooped natives s → Loopless file source →
      (s.run fuel file source).1 ≠ .error .exhausted → Unlooped natives (s.run fuel file source).2
  | host {s s' : Session} : Unlooped natives s → s'.settings.natives = s.settings.natives →
      s'.machine.heap = s.machine.heap → Unlooped natives s'

private theorem Unlooped.reached {natives : List Native} {s : Session} (h : s.Unlooped natives) :
    s.Reached natives := by
  induction h with
  | start st hst => exact .start st hst
  | run fuel _ _ _ ih => exact .run fuel _ _ ih
  | host _ hnatives hheap ih => exact .host ih hnatives hheap

private theorem loopsIf_of_prepare {s : Session} {file source : Text}
    (hsource : Loopless file source)
    {p : Program} (hp : s.prepare file source = .ok p) : Stmt.LoopsIfAll False p.body := by
  obtain ⟨q, hparse, hresolve⟩ := parse_of_prepare hp
  obtain ⟨-, rfl⟩ := Program.resolve_eq_ok.1 hresolve
  exact Resolve.loopsIf_stmts _ _ (hsource q hparse)

theorem run_eq_rejected {s : Session} {file source : Text} {faults : List Diagnostic}
    (hp : s.prepare file source = .error faults) (fuel : Nat) :
    s.run fuel file source = (.error (.rejected faults), s) := by
  unfold run
  rw [hp]

theorem run_eq_conclude {s : Session} {file source : Text} {p : Program}
    (hp : s.prepare file source = .ok p) (fuel : Nat) :
    s.run fuel file source = s.conclude (Eval.program s.settings fuel p s.machine) := by
  unfold run
  rw [hp]
  rfl

private theorem comes_of_loopless {natives : List Native}
    (hnatives : ∀ n ∈ natives, n ∈ Registry.standard.natives)
    {s : Session} (hst : s.settings.natives = natives.toArray)
    (hheap : s.machine.heap.LoopsIf False) {p : Program} (hp : Stmt.LoopsIfAll False p.body) :
    ∃ o, Budgeted.Comes (Eval.program s.settings · p) s.machine o ∧
      o.Lands (Machine.Fit s.settings False s.settings.limit) Failure.Placed fun _ => True := by
  refine Eval.halts_program (fun n hn => ?_) hp s.machine
    ⟨hheap, False.elim, .inr (Nat.le_add_left _ _)⟩
  rw [hst] at hn
  exact Registry.returns_standard _ _ n (hnatives n (List.mem_toArray.1 hn))

private theorem Unlooped.heap {natives : List Native}
    (hnatives : ∀ n ∈ natives, n ∈ Registry.standard.natives)
    {s : Session} (h : s.Unlooped natives) :
    s.settings.natives = natives.toArray ∧ s.machine.heap.LoopsIf False := by
  induction h with
  | start st hst => exact ⟨hst, Machine.loopsIf_initial _ natives⟩
  | @run s fuel file source _ hsource hend ih =>
    cases hp : s.prepare file source with
    | error faults =>
      rw [run_eq_rejected hp]
      exact ih
    | ok p =>
      rw [run_eq_conclude hp] at hend ⊢
      obtain ⟨o, hcomes, ho⟩ := comes_of_loopless hnatives ih.1 ih.2 (loopsIf_of_prepare hsource hp)
      rw [Eval.eq_of_comes hcomes (endedBut_of_conclude hend fun _ _ => id)]
      cases ho with
      | done hm _ | failed hm _ => exact ⟨ih.1, hm.heap⟩
  | host _ hst hheap ih =>
    rw [hst, hheap]
    exact ih

/-- Only loops can run forever. In a session whose sources hold no loops and which has only native
functions of the language, under any limit on the depth of calls, every run of a source without
loops comes to an end: however many more steps it may take, it ends with success, with static
faults, or with an error of the program that has a place. Unless that error is an overflow, it ends
in the same way under every larger limit; so recursion without end, which no limit has room for, is
an overflow. -/
theorem run_comes {natives : List Native} (hnatives : ∀ n ∈ natives, n ∈ Registry.standard.natives)
    {s : Session} (h : s.Unlooped natives) {file source : Text} (hsource : Loopless file source) :
    ∃ fuel r s', (∀ fuel', fuel ≤ fuel' → s.run fuel' file source = (r, s')) ∧
      (r = .ok () ∨ (∃ faults, r = .error (.rejected faults)) ∨
        ∃ e span, r = .error (.failed (.runtime e (some span)))) ∧
      ((∃ span, r = .error (.failed (.runtime .stackOverflow (some span)))) ∨
        ∀ limit fuel', s.settings.limit ≤ limit → fuel ≤ fuel' →
          (s.withLimit limit).run fuel' file source = (r, s'.withLimit limit)) := by
  obtain ⟨hst, hheap⟩ := h.heap hnatives
  -- Reading and resolving a source does not depend on the limit.
  cases hp : s.prepare file source with
  | error faults =>
    exact ⟨0, _, _, fun fuel' _ => run_eq_rejected hp fuel', .inr (.inl ⟨faults, rfl⟩),
      .inr fun limit fuel' _ _ => run_eq_rejected (s := s.withLimit limit) hp fuel'⟩
  | ok p =>
    obtain ⟨o, ⟨fuel, hfuel⟩, ho⟩ :=
      comes_of_loopless hnatives hst hheap (loopsIf_of_prepare hsource hp)
    have hrun : ∀ fuel', fuel ≤ fuel' → s.run fuel' file source = s.conclude o := fun fuel' hle =>
      (run_eq_conclude hp fuel').trans (congrArg _ (hfuel fuel' hle))
    have hlarger : o.EndedBut Failure.IsOverflow → ∀ limit fuel', s.settings.limit ≤ limit →
        fuel ≤ fuel' → (s.withLimit limit).run fuel' file source =
          ((s.conclude o).1, (s.conclude o).2.withLimit limit) := by
      intro hends limit fuel' hlimit hle
      have hnow : Eval.program s.settings fuel p s.machine = o := hfuel fuel (Nat.le_refl _)
      have hhandsOn : ∀ n ∈ s.settings.natives, n.HandsOn Failure.IsOverflow := by
        rw [hst]
        exact fun n hn => Registry.handsOn_standard _ n (hnatives n (List.mem_toArray.1 hn))
      calc (s.withLimit limit).run fuel' file source
          = (s.withLimit limit).conclude
            (Eval.program (s.withLimit limit).settings fuel' p s.machine) :=
            run_eq_conclude (s := s.withLimit limit) hp fuel'
        _ = (s.withLimit limit).conclude o := by
            rw [program_withLimit hhandsOn hlimit hle (hnow.symm ▸ hends), hnow]
        _ = ((s.conclude o).1, (s.conclude o).2.withLimit limit) := conclude_withLimit s limit o
    refine ⟨fuel, _, _, hrun, ?_⟩
    cases ho with
    | done _ _ => exact ⟨.inl rfl, .inr (hlarger trivial)⟩
    | @failed f m _ hplaced =>
      have hsound := h.reached.sound fun n hn => Registry.honest_standard n (hnatives n hn)
      have hinternal : f.isInternal = false :=
        (run_sound hsound.1 hsound.2 fuel file source).2.2 f
          (congrArg Prod.fst (hrun fuel (Nat.le_refl _)))
      obtain ⟨e, span, rfl⟩ : ∃ e span, f = .runtime e (some span) := by
        match f with
        | .runtime e (some span) => exact ⟨e, span, rfl⟩
      refine ⟨.inr (.inr ⟨e, span, rfl⟩), ?_⟩
      by_cases hover : (Failure.runtime e (some span)).IsOverflow
      · obtain ⟨_, heq⟩ := hover.eq_runtime
        cases heq
        exact .inl ⟨span, rfl⟩
      · exact .inr (hlarger hover)

/-- A method that calls itself without end, each time on a new object that a class in a field makes.
-/
def growth : Text :=
  lit "class A \x7b init() \x7b this.kind = A; \x7d grow() \x7b return this.kind().grow(); \x7d \x7d A().grow();"

theorem run_comes_growth :
    let s : Session := {
      settings := { limit := 3, natives := Registry.standard.natives.toArray }
      machine := .initial Registry.standard.natives }
    Loopless [] growth ∧
      ((s.run 100 [] growth).1 matches .error (.failed (.runtime .stackOverflow _))) ∧
      ∃ fuel r s', ∀ fuel', fuel ≤ fuel' → s.run fuel' [] growth = (r, s') := by
  intro s
  have hsource : Loopless [] growth := by
    have hread :
        (Program.parse [] growth).toOption.all (fun p => Stmt.LoopsIfAll False p.body) = true := by
      decide +kernel
    intro p hp
    rw [hp] at hread
    exact of_decide_eq_true hread
  obtain ⟨fuel, r, s', hrun, -⟩ := run_comes (fun _ h => h) (.start s.settings rfl) hsource
  exact ⟨hsource, by decide +kernel, fuel, r, s', hrun⟩

end Session

end Lox
