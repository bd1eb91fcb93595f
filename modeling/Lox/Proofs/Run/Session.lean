import Lox.Proofs.Parse
import Lox.Proofs.Run.Safety
import Lox.Proofs.Scope.Resolution
import Lox.Session

set_option autoImplicit false
set_option relaxedAutoImplicit false

namespace Lox

open Text (lit)
open Layers

def Takes.nothing : Takes := { leaveLoop := false, leaveFunction := false }

namespace Eval

variable {st : Settings} {m : Machine}

private theorem safe_script (hnatives : ∀ n ∈ st.natives, n.Honest) (fuel : Nat) {ss : List Stmt}
    (hs : m.heap.Sound) (hscoped : Stmt.ScopedAll [] .nothing ss) :
    Safe (script st fuel ss) m fun _ _ => True := by
  induction ss generalizing m with
  | nil => exact .give hs trivial
  | cons s r ih =>
    have hglobals : m.heap.Fits Heap.globals [] := rfl
    have hafter : s.after [] = [] := by cases s <;> rfl
    rw [Stmt.ScopedAll, hafter] at hscoped
    refine .bind ((safeAt hnatives fuel).stmt hs hglobals hscoped.1) fun signal m₁ h₁ hsignal => ?_
    cases signal with
    | normal => exact ih h₁.sound hscoped.2
    | leaveLoop => cases hsignal.1
    | leaveFunction v => cases hsignal.1.1

private theorem safe_program (hnatives : ∀ n ∈ st.natives, n.Honest) (fuel : Nat) {p : Program}
    (hs : m.heap.Sound) (hscoped : Stmt.ScopedAll [] .nothing p.body) :
    Safe (program st fuel p) m fun _ _ => True := by
  have hstart := Run.heap_emit st .runStart p.span [] m
  have hscript := safe_script hnatives fuel (hstart.symm ▸ hs) hscoped
  refine .around hstart (Run.heap_emit st .runEnd p.span []) (fun _ => id) hscript ?_
  unfold program
  dsimp only
  cases script st fuel p.body _ <;> rfl

end Eval

private theorem Heap.sound_initial {bs : Bindings}
    (hbs : ∀ n v, bs.lookup n = some v → v.Sound (.initial bs)) : (Heap.initial bs).Sound where
  globals := ⟨bs, rfl⟩
  frames e f n v hf hv := by
    cases e with
    | zero =>
      cases hf
      exact hbs n v hv
    | succ e => cases hf
  objects i fields n v hi _ := by cases hi

private theorem Machine.sound_initial (natives : List Native) :
    (Machine.initial natives).heap.Sound := by
  refine Heap.sound_initial ?_
  have hempty : ∀ n v, List.lookup n ([] : Bindings) = some v →
      v.Sound (.initial (nativeBindings natives)) := by
    intro n v h
    cases h
  exact Bindings.foldl_all (fun (q : Native × Nat) => q.1.name) (fun q => .native q.2)
    (fun _ _ => rfl) (fun _ _ => trivial) hempty

namespace Session

theorem exists_prepare (s : Session) (file source : Text) (q : Program → Bool)
    (h : (s.prepare file source).toOption.any q = true) :
    ∃ p, s.prepare file source = .ok p ∧ q p = true := by
  obtain ⟨p, hp, hq⟩ := (Option.any_eq_true _ _).1 h
  exact ⟨p, eq_ok_of_toOption hp, hq⟩

theorem scoped_of_prepare {s : Session} {file source : Text} {p : Program}
    (h : s.prepare file source = .ok p) : Stmt.ScopedAll [] .nothing p.body := by
  obtain ⟨q, hparse, hresolve⟩ := parse_of_prepare h
  obtain ⟨hfound, rfl⟩ := Program.resolve_eq_ok.1 hresolve
  obtain ⟨ts, -, hlexemes, hderives⟩ := Program.parse_derives hparse
  have hnames : ∀ t ∈ ts, t.kind = .name → t.text ≠ lit "super" := by
    intro t ht hkind
    exact Token.text_ne_keyword (hlexemes t ht) hkind .super_
  exact hderives.resolves hnames {} (.top s.machine.globalNames) nofun hfound

/-- The sessions that runs lead to, whatever their sources are and however they end. Between runs
the host may change everything but the native functions and the heap. -/
inductive Reached (natives : List Native) : Session → Prop
  | start (st : Settings) : st.natives = natives.toArray →
      Reached natives { settings := st, machine := .initial natives }
  | run {s : Session} (fuel : Nat) (file source : Text) : Reached natives s →
      Reached natives (s.run fuel file source).2
  | host {s s' : Session} : Reached natives s → s'.settings.natives = s.settings.natives →
      s'.machine.heap = s.machine.heap → Reached natives s'

theorem run_sound {s : Session} (hnatives : ∀ n ∈ s.settings.natives, n.Honest)
    (hs : s.machine.heap.Sound) (fuel : Nat) (file source : Text) :
    (s.run fuel file source).2.settings = s.settings ∧
      (s.run fuel file source).2.machine.heap.Sound ∧
      ∀ f, (s.run fuel file source).1 = .error (.failed f) → f.isInternal = false := by
  unfold run
  split
  · exact ⟨rfl, hs, fun _ heq => nomatch heq⟩
  · rename_i p hp
    have hsafe := Eval.safe_program hnatives fuel hs (scoped_of_prepare hp)
    have hgrows := hsafe.grows
    have hfailed := hsafe.failed
    unfold execute
    cases hrun : Eval.program s.settings fuel p s.machine with
    | done a m =>
      rw [hrun] at hgrows
      exact ⟨rfl, hgrows.sound, fun _ heq => nomatch heq⟩
    | failed f m =>
      rw [hrun] at hgrows
      refine ⟨rfl, hgrows.sound, ?_⟩
      rintro _ ⟨⟩
      exact hfailed f m hrun
    | exhausted m =>
      rw [hrun] at hgrows
      exact ⟨rfl, hgrows.sound, fun _ heq => nomatch heq⟩

theorem Reached.sound {natives : List Native} (hnatives : ∀ n ∈ natives, n.Honest) {s : Session}
    (h : s.Reached natives) : (∀ n ∈ s.settings.natives, n.Honest) ∧ s.machine.heap.Sound := by
  induction h with
  | start st hst =>
    refine ⟨fun n hn => ?_, Machine.sound_initial natives⟩
    rw [hst] at hn
    exact hnatives n (by simpa using hn)
  | run fuel file source _ ih =>
    obtain ⟨hsettings, hsound, -⟩ := run_sound ih.1 ih.2 fuel file source
    exact ⟨hsettings ▸ ih.1, hsound⟩
  | host _ hsame hheap ih => exact ⟨hsame ▸ ih.1, hheap ▸ ih.2⟩

/-- In a session with honest native functions no run fails by a broken agreement. -/
theorem run_never_internal {natives : List Native} (hnatives : ∀ n ∈ natives, n.Honest)
    {s : Session} (h : s.Reached natives) (fuel : Nat) (file source : Text) (e : InternalError)
    (span : Option Span) : (s.run fuel file source).1 ≠ .error (.failed (.internal e span)) := by
  obtain ⟨hhonest, hsound⟩ := h.sound hnatives
  obtain ⟨-, -, hfailed⟩ := run_sound hhonest hsound fuel file source
  intro herror
  cases hfailed _ herror

def interrupted : Session :=
  ((start {} .standard false 0).run 100 (lit "first")
    (lit "fun counter() { var n = 0; return fun () { n = n + 1; return n; }; }
      var next = counter(); nil();")).2

theorem run_never_internal_interrupted :
    (∀ n ∈ Registry.standard.select (Config.allowsNative {}), n.Honest) ∧
      interrupted.Reached (Registry.standard.select (Config.allowsNative {})) ∧
      ∀ e span, (interrupted.run 100 (lit "second") (lit "print next();")).1 ≠
        .error (.failed (.internal e span)) := by
  have hhonest : ∀ n ∈ Registry.standard.select (Config.allowsNative {}), n.Honest :=
    fun n hn => Registry.honest_standard n (Registry.mem_of_mem_select hn)
  have hreached : interrupted.Reached (Registry.standard.select (Config.allowsNative {})) :=
    .run 100 _ _ (.start _ rfl)
  exact ⟨hhonest, hreached, run_never_internal hhonest hreached 100 _ _⟩

/-- A native function that gives the initializer of a class, bound to no receiver. -/
def unbinding : Native where
  name := lit "unbound"
  arity := 1
  act
    | [.cls c] =>
      match c.initializer with
      | some f => .give (.function f)
      | none => .give .nil
    | _ => .give .nil

/-- It is not enough that native functions report no broken agreement and call nothing with too few
or too many arguments: one that always gives a value may give a function that no program can get. -/
theorem run_internal_unbound :
    let s : Session := {
      settings := { limit := 10, natives := #[unbinding] }
      machine := .initial [unbinding] }
    (∀ args, ∃ v, unbinding.act args = .give v) ∧ s.Reached [unbinding] ∧
      (s.run 30 [] (lit "class A \x7b init() \x7b \x7d \x7d var f = unbound(A); f();")).1 =
        .error (.failed (.internal .noReceiver none)) := by
  intro s
  refine ⟨fun args => ?_, .start _ rfl, by decide +kernel⟩
  unfold unbinding
  dsimp only
  split
  · split <;> exact ⟨_, rfl⟩
  · exact ⟨_, rfl⟩

end Session
end Lox
