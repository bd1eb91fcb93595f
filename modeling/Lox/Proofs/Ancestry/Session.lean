import Lox.Proofs.Ancestry.Evaluation
import Lox.Proofs.Receiver.Session

set_option autoImplicit false
set_option relaxedAutoImplicit false

namespace Lox

open Text (lit)

namespace Eval

open Proceeds

variable {st : Settings} {cs : List Class} {m : Machine}

private theorem proceeds_script (hnatives : ∀ n ∈ st.natives, n.Borrows)
    (fuel : Nat) (ss : List Stmt)
    (hS : (m.scene cs).Founded) : Proceeds (script st fuel ss) cs m fun _ _ => True := by
  induction ss generalizing cs m with
  | nil => exact give trivial
  | cons s r ih =>
    refine .bind ((proceedsAt hnatives fuel).stmt s hS hS.layered.globals_lt)
      fun signal cs₁ m₁ h₁ _ => ?_
    cases signal with
    | normal => exact ih (hS.onward h₁)
    | _ => exact broken

private theorem proceeds_program (hnatives : ∀ n ∈ st.natives, n.Borrows) (fuel : Nat) (p : Program)
    (hS : (m.scene cs).Founded) : Proceeds (program st fuel p) cs m fun _ _ => True := by
  have hopening : (opening st p m).scene cs = m.scene cs :=
    Machine.scene_congr (Run.heap_emit st .runStart p.span [] m) cs
  obtain ⟨cs', hon, -⟩ := proceeds_script hnatives fuel p.body (hopening ▸ hS)
  obtain ⟨events, hclosing⟩ := machine_closing st p (script st fuel p.body (opening st p m))
  refine ⟨cs', ?_, fun _ _ _ => trivial⟩
  rw [program_eq_closing, hclosing]
  exact hopening ▸ hon

end Eval

private theorem Machine.founded_initial (natives : List Native) :
    ((Machine.initial natives).scene []).Founded where
  layered := by
    refine ⟨Nat.one_pos, rfl, fun e he hne => ?_⟩
    exact absurd (Nat.lt_one_iff.1 he) hne
  held := by
    refine .initial ?_
    exact Bindings.foldl_all (fun (q : Native × Nat) => q.1.name) (fun q => .native q.2)
      (fun _ _ => rfl) (fun _ _ => trivial) Bindings.all_nil
  admitted := List.forall_mem_nil _
  ids := .nil

namespace Session

variable {natives : List Native} {s s' : Session} {cs : List Class}

/-- The later sessions, to which further runs lead, whatever their sources are and however they end.
Between runs the host may change everything but the native functions and the heap. -/
inductive Onward (s : Session) : Session → Prop
  | here : Onward s s
  | run {t : Session} (fuel : Nat) (file source : Text) : Onward s t →
      Onward s (t.run fuel file source).2
  | host {t t' : Session} : Onward s t → t'.settings.natives = t.settings.natives →
      t'.machine.heap = t.machine.heap → Onward s t'

private theorem Reached.onward (h : s.Reached natives) :
    ∃ st : Settings, st.natives = natives.toArray ∧
      Onward { settings := st, machine := .initial natives } s := by
  induction h with
  | start st hst => exact ⟨st, hst, .here⟩
  | run fuel file source _ ih =>
    obtain ⟨st, hst, hon⟩ := ih
    exact ⟨st, hst, .run fuel file source hon⟩
  | host _ hnatives hheap ih =>
    obtain ⟨st, hst, hon⟩ := ih
    exact ⟨st, hst, .host hon hnatives hheap⟩

private theorem exists_scene_run (hnatives : ∀ n ∈ s.settings.natives, n.Borrows)
    (hS : (s.machine.scene cs).Founded) (fuel : Nat) (file source : Text) :
    (s.run fuel file source).2.settings = s.settings ∧
      ∃ cs', (s.machine.scene cs).Onward ((s.run fuel file source).2.machine.scene cs') := by
  cases hp : s.prepare file source with
  | error faults =>
    rw [run_eq_rejected hp]
    exact ⟨rfl, cs, .refl⟩
  | ok p =>
    obtain ⟨cs', hon, -⟩ := Eval.proceeds_program hnatives fuel p hS
    rw [run_eq_conclude hp, machine_conclude]
    exact ⟨s.settings_conclude _, cs', hon⟩

private theorem Onward.exists_scene (hnatives : ∀ n ∈ s.settings.natives, n.Borrows)
    (hS : (s.machine.scene cs).Founded) (h : s.Onward s') :
    s'.settings.natives = s.settings.natives ∧
      ∃ cs', (s.machine.scene cs).Onward (s'.machine.scene cs') := by
  induction h with
  | here => exact ⟨rfl, cs, .refl⟩
  | run fuel file source _ ih =>
    obtain ⟨hsame, cs₁, h₁⟩ := ih
    obtain ⟨hsettings, cs₂, h₂⟩ :=
      exists_scene_run (hsame ▸ hnatives) (hS.onward h₁) fuel file source
    exact ⟨hsettings ▸ hsame, cs₂, h₁.trans h₂⟩
  | host _ hsame' hheap ih =>
    obtain ⟨hsame, cs₁, h₁⟩ := ih
    exact ⟨hsame'.trans hsame, cs₁, Machine.scene_congr hheap cs₁ ▸ h₁⟩

/-- A session stands on a scene from which on there are no cycles and no class changes. -/
structure Grounded (s : Session) (S : Scene) : Prop where
  heap : S.heap = s.machine.heap
  /-- Runs lead to later scenes, whatever their sources are and however they end. -/
  runs : ∀ s', s.Onward s' → ∃ S', S.Onward S' ∧ S'.heap = s'.machine.heap
  /-- So does every part of a run. -/
  parts : ∀ fuel, Eval.ProceedsAt s.settings fuel
  founded : ∀ S', S.Onward S' → S'.Founded
  grounded : ∀ S', S.Onward S' → S'.Grounded
  /-- The classes of a scene are classes of every later scene, and no other class has the number of
  one of them. -/
  lasting : ∀ S₁ S₂, S.Onward S₁ → S₁.Onward S₂ →
    S₁.classes ⊆ S₂.classes ∧ ∀ c ∈ S₁.classes, ∀ d ∈ S₂.classes, c.id = d.id → c = d

/-- The heap of every session whose native functions make up no functions, classes or objects is
well founded, and it stays so. -/
theorem exists_grounded (hnatives : ∀ n ∈ natives, n.Borrows) (hs : s.Reached natives) :
    ∃ S, s.Grounded S := by
  obtain ⟨st, hst, hbefore⟩ := hs.onward
  have hborrows : ∀ n ∈ st.natives, n.Borrows := fun n hn => hnatives n (by simpa [hst] using hn)
  have hinitial := Machine.founded_initial natives
  obtain ⟨hsame, cs, hon⟩ := hbefore.exists_scene hborrows hinitial
  have hS : (s.machine.scene cs).Founded := hinitial.onward hon
  have hborrows' : ∀ n ∈ s.settings.natives, n.Borrows := hsame ▸ hborrows
  refine ⟨s.machine.scene cs, {
    heap := rfl
    runs := fun s' h => ?_
    parts := Eval.proceedsAt hborrows'
    founded := fun S' h => hS.onward h
    grounded := fun S' h => (hS.onward h).grounded
    lasting := fun S₁ S₂ h₁ h₂ => ?_ }⟩
  · obtain ⟨-, cs', hlater⟩ := h.exists_scene hborrows' hS
    exact ⟨s'.machine.scene cs', hlater, rfl⟩
  · have hsub := h₂.classes_suffix.subset
    exact ⟨hsub, fun c hc d hd => (hS.onward (h₁.trans h₂)).unique (hsub hc) hd⟩

/-- A class below an older class of the same name, and a method that fails when the name is bound
anew. -/
def redeclaring : Text :=
  lit "class A \x7b init(x) \x7b this.x = x; \x7d fail() \x7b return nil(); \x7d \x7d
class B < A \x7b\x7d
class A < B \x7b class make() \x7b return A(1); \x7d \x7d
var a = A.make();
A = nil;
a.fail();
"

def redeclared : Session := (opened.run 100 [] redeclaring).2

set_option maxRecDepth 4000 in
/-- An object of the later class still has three classes above one another, the first one with the
initializer that takes its one argument. -/
theorem exists_grounded_redeclared :
    (∀ n ∈ Registry.standard.natives, n.Borrows) ∧ redeclared.Reached Registry.standard.natives ∧
      ((redeclared.machine.heap.get? Heap.globals (lit "a")).map fun v => match v with
        | .object _ c => (c.lineage.map Class.id, c.arity)
        | _ => ([], 0)) = some ([5, 3, 2], 1) ∧
      ∃ S, redeclared.Grounded S := by
  have hreached : redeclared.Reached Registry.standard.natives := by
    rw [redeclared]
    exact .run 100 _ _ (.start _ rfl)
  have hredeclaring : redeclaring = Text.encoded _ := Text.lit_ofList _
  refine ⟨Registry.borrows_standard, hreached, ?_,
    exists_grounded Registry.borrows_standard hreached⟩
  rw [redeclared, hredeclaring]
  decide +kernel

end Session
end Lox
