import Lox.Proofs.Bounds.Loopless
import Lox.Proofs.Receiver.Evaluation

set_option autoImplicit false
set_option relaxedAutoImplicit false

namespace Lox

open Text (lit)

namespace Observing

variable {st : Settings}

private theorem upholds_script (hnatives : ∀ n ∈ st.natives, n.Borrows)
    (fuel : Nat) {ss : List Stmt}
    {ρ : Record} {m : Machine} (hu : Upheld ρ m.heap) (hhosted : Stmt.HostedAll none ss) :
    Upholds (observing.script st fuel ss) ρ m fun _ _ _ => True := by
  induction ss generalizing ρ m with
  | nil => exact .give hu trivial
  | cons s r ih =>
    simp only [Scribe.script, Observing.step]
    refine .bind ((upholdsAt hnatives fuel).stmt hu (.outside _ _ _) hhosted.1)
      fun signal ρ₁ m₁ h₁ hu₁ _ => ?_
    cases signal with
    | normal => exact ih hu₁ hhosted.2
    | _ => exact .broken hu₁

private theorem upheld_program (hnatives : ∀ n ∈ st.natives, n.Borrows) (fuel : Nat) {p : Program}
    {ρ : Record} {m : Machine} (hu : Upheld ρ m.heap) (hhosted : Stmt.HostedAll none p.body) :
    Upheld (ρ ++ (observing.program st fuel p ρ m).2)
      (observing.program st fuel p ρ m).1.machine.heap := by
  have hopening : (Eval.opening st p m).heap = m.heap := Run.heap_emit ..
  have hupheld := (upholds_script hnatives fuel (hopening.symm ▸ hu) hhosted).upheld
  have hclosing (o : Outcome Unit) : (Eval.closing st p o).machine.heap = o.machine.heap := by
    obtain ⟨events, hmachine⟩ := Eval.machine_closing st p o
    rw [hmachine]
  unfold Scribe.program
  dsimp only
  rw [hclosing]
  exact hupheld

end Observing

private theorem Machine.upheld_initial (natives : List Native) :
    Upheld [] (Machine.initial natives).heap := by
  refine ⟨.initial ?_, List.forall_mem_nil _⟩
  exact Bindings.foldl_all (fun (q : Native × Nat) => q.1.name) (fun q => .native q.2)
    (fun _ _ => rfl) (fun _ _ => trivial) Bindings.all_nil

namespace Session

/-- Runs a source that is observed, unless something is statically wrong with it. -/
def observe (s : Session) (fuel : Nat) (file source : Text) (ρ : Record) :
    (Except RunError Unit × Session) × Record :=
  match s.prepare file source with
  | .error ds => ((.error (.rejected ds), s), ρ)
  | .ok p =>
    let (o, notes) := observing.program s.settings fuel p ρ s.machine
    (s.conclude o, ρ ++ notes)

/-- The sessions that observed runs lead to, with their records. Between runs the host may change
everything but the native functions and the heap. -/
inductive Observed (natives : List Native) : Session → Record → Prop
  | start (st : Settings) : st.natives = natives.toArray →
      Observed natives { settings := st, machine := .initial natives } []
  | run {s : Session} {ρ : Record} (fuel : Nat) (file source : Text) : Observed natives s ρ →
      Observed natives (s.observe fuel file source ρ).1.2 (s.observe fuel file source ρ).2
  | host {s s' : Session} {ρ : Record} : Observed natives s ρ →
      s'.settings.natives = s.settings.natives → s'.machine.heap = s.machine.heap →
      Observed natives s' ρ

variable {natives : List Native} {s : Session} {ρ : Record}

private theorem observe_fst (s : Session) (fuel : Nat) (file source : Text) (ρ : Record) :
    (s.observe fuel file source ρ).1 = s.run fuel file source := by
  unfold observe
  cases hp : s.prepare file source with
  | error faults => exact (run_eq_rejected hp fuel).symm
  | ok p =>
    rw [run_eq_conclude hp]
    exact congrArg s.conclude ((observing.erases_program s.settings fuel p).fst ρ s.machine)

namespace Observed

private theorem reached (h : s.Observed natives ρ) : s.Reached natives := by
  induction h with
  | start st hst => exact .start st hst
  | run fuel file source _ ih =>
    rw [observe_fst]
    exact .run fuel file source ih
  | host _ hnatives hheap ih => exact .host ih hnatives hheap

private theorem of_reached (h : s.Reached natives) : ∃ ρ, s.Observed natives ρ := by
  induction h with
  | start st hst => exact ⟨[], .start st hst⟩
  | run fuel file source _ ih =>
    obtain ⟨ρ, hρ⟩ := ih
    have hrun := Observed.run fuel file source hρ
    rw [observe_fst] at hrun
    exact ⟨_, hrun⟩
  | host _ hnatives hheap ih =>
    obtain ⟨ρ, hρ⟩ := ih
    exact ⟨ρ, .host hρ hnatives hheap⟩

end Observed

private theorem upheld_observe (hnatives : ∀ n ∈ s.settings.natives, n.Borrows)
    (hu : Upheld ρ s.machine.heap) (fuel : Nat) (file source : Text) :
    (s.observe fuel file source ρ).1.2.settings = s.settings ∧
      Upheld (s.observe fuel file source ρ).2 (s.observe fuel file source ρ).1.2.machine.heap := by
  unfold observe
  cases hp : s.prepare file source with
  | error faults => exact ⟨rfl, hu⟩
  | ok p =>
    refine ⟨s.settings_conclude _, ?_⟩
    dsimp only
    rw [machine_conclude]
    exact Observing.upheld_program hnatives fuel hu (hosted_of_prepare hp)

private theorem Observed.upheld (hnatives : ∀ n ∈ natives, n.Borrows) (h : s.Observed natives ρ) :
    (∀ n ∈ s.settings.natives, n.Borrows) ∧ Upheld ρ s.machine.heap := by
  induction h with
  | start st hst =>
    refine ⟨fun n hn => ?_, Machine.upheld_initial natives⟩
    rw [hst] at hn
    exact hnatives n (by simpa using hn)
  | run fuel file source _ ih =>
    obtain ⟨hsettings, hupheld⟩ := upheld_observe ih.1 ih.2 fuel file source
    exact ⟨hsettings ▸ ih.1, hupheld⟩
  | host _ hsame hheap ih => exact ⟨hsame ▸ ih.1, hheap ▸ ih.2⟩

/-- In every session whose native functions make up no functions, classes or objects the receiver is
bound as it should be. Every session can be observed from its start, and a run that is observed is
the run itself. Whatever is seen in it was right: of `this` and `super`, wherever and whenever the
code runs that belongs to the call of a method, and of what initializers and the making of objects
give. -/
theorem observe_right (hnatives : ∀ n ∈ natives, n.Borrows) :
    (s.Reached natives ↔ ∃ ρ, s.Observed natives ρ) ∧
      ∀ ρ, s.Observed natives ρ → ∀ (fuel : Nat) (file source : Text),
        (s.observe fuel file source ρ).1 = s.run fuel file source ∧
          ∀ x ∈ (s.observe fuel file source ρ).2.seen, x.Right := by
  refine ⟨⟨Observed.of_reached, fun ⟨ρ, h⟩ => h.reached⟩, fun ρ h fuel file source => ?_⟩
  obtain ⟨hborrows, hu⟩ := h.upheld hnatives
  exact ⟨observe_fst s fuel file source ρ, (upheld_observe hborrows hu fuel file source).2.right⟩

def opened : Session :=
  { settings := { limit := 100, natives := Registry.standard.natives.toArray }
    machine := .initial Registry.standard.natives }

/-- A method that makes an object of a class of its own and gives a closure; then the names of the
classes around are bound anew. -/
def rebinding : Text := lit "class A \x7b
  init() \x7b this.me = this; \x7d
  name() \x7b return this; \x7d
  class make() \x7b return this; \x7d
\x7d
class B < A \x7b
  init() \x7b super.init(); \x7d
  name() \x7b
    class C < A \x7b name() \x7b return super.name(); \x7d \x7d
    C().name();
    return fun () \x7b return super.name(); \x7d;
  \x7d
  class make() \x7b return super.make(); \x7d
\x7d
var f = B().name();
B.make();
A = nil;
B = nil;
"

set_option maxRecDepth 4000 in
theorem observe_right_rebinding :
    (∀ n ∈ Registry.standard.natives, n.Borrows) ∧
      let before := opened.observe 100 [] rebinding []
      let after := before.1.2.observe 100 [] (lit "f();") before.2
      before.1.2.Observed Registry.standard.natives before.2 ∧ after.2.seen.length = 22 ∧
        ∀ x ∈ after.2.seen, x.Right := by
  have hopened : opened.Observed Registry.standard.natives [] := .start _ rfl
  have hbefore := Observed.run 100 [] rebinding hopened
  have hrebinding : rebinding = Text.encoded _ := Text.lit_ofList _
  refine ⟨Registry.borrows_standard, hbefore, ?_,
    ((observe_right Registry.borrows_standard).2 _ hbefore 100 _ _).2⟩
  rw [hrebinding]
  decide +kernel

end Session
end Lox
