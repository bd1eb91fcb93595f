import Lox.Proofs.Core.Evaluation
import Lox.Proofs.Core.Resolution

set_option autoImplicit false
set_option relaxedAutoImplicit false

namespace Lox

def RunError.bare : RunError → RunError
  | rejected ds => rejected (ds.map Diagnostic.bare)
  | failed f => failed f.bare
  | exhausted => exhausted

namespace Session

/-- Resolves a program against the globals of a session and runs it, unless something is statically
wrong with it. -/
def runProgram (s : Session) (fuel : Nat) (p : Program) : Except RunError Unit × Session :=
  match p.resolve s.machine.globalNames with
  | .error ds => (.error (.rejected ds), s)
  | .ok q => s.execute fuel q

theorem run_of_parse {file source : Text} {p : Program} (h : Program.parse file source = .ok p)
    (s : Session) (fuel : Nat) : s.run fuel file source = s.runProgram fuel p := by
  cases hresolve : p.resolve s.machine.globalNames with
  | error ds => simp only [run, prepare, runProgram, h, hresolve]
  | ok q => simp only [run, prepare, runProgram, h, hresolve]

/-- How something came to an end: its result without places, and the output. -/
def Finished (o : Except RunError Unit × Session) (r : Except RunError Unit) (output : List Text) :
    Prop :=
  o.1 ≠ .error .exhausted ∧ o.1.mapError RunError.bare = r ∧ o.2.machine.output = output

/-- A program comes to an end in a session, with a result without places and an output. -/
def EndsWith (s : Session) (p : Program) (r : Except RunError Unit) (output : List Text) : Prop :=
  ∃ fuel, Finished (s.runProgram fuel p) r output

variable {s : Session} {p q : Program} {r : Except RunError Unit} {output : List Text}

private theorem execute_alike (hs : ∀ n ∈ s.settings.natives, n.Impartial .ofCore)
    (h : Stmt.AlikeAll p.body q.body) {fuel : Nat} (hend : Finished (s.execute fuel p) r output) :
    ∃ N, Finished (s.execute N q) r output := by
  have hleads :=
    Eval.leads_program hs fuel h s.machine s.machine (.refl Likeness.reflexive_ofCore _)
  unfold execute at hend
  obtain ⟨m₁, hrun⟩ | ⟨o, ⟨N, hN⟩, ho⟩ := hleads
  · rw [hrun] at hend
    exact absurd rfl hend.1
  · have hrun : Eval.program s.settings N q s.machine = o := hN N (Nat.le_refl N)
    refine ⟨N, ?_⟩
    unfold execute
    rw [hrun]
    generalize Eval.program s.settings fuel p s.machine = first at hend ho
    obtain ⟨hended, rfl, rfl⟩ := hend
    cases ho with
    | done hm _ => exact ⟨nofun, rfl, hm.output⟩
    | failed hf hm =>
      exact ⟨nofun, congrArg (fun f => Except.error (RunError.failed f)) hf.symm, hm.output⟩

theorem EndsWith.of_core (hs : ∀ n ∈ s.settings.natives, n.Impartial .ofCore)
    (hcore : q.core = p.core) (h : s.EndsWith p r output) : s.EndsWith q r output := by
  obtain ⟨fuel, hend⟩ := h
  have hp := p.resolve_core s.machine.globalNames
  have hq := q.resolve_core s.machine.globalNames
  rw [hcore, hp] at hq
  unfold EndsWith
  unfold runProgram at hend ⊢
  cases hpr : p.resolve s.machine.globalNames with
  | error ds =>
    cases hqr : q.resolve s.machine.globalNames with
    | error ds' =>
      rw [hpr, hqr] at hq
      rw [hpr] at hend
      have hsame : ds.map Diagnostic.bare = ds'.map Diagnostic.bare := Except.error.inj hq
      obtain ⟨-, rfl, rfl⟩ := hend
      exact ⟨fuel, nofun, congrArg (fun ds => Except.error (RunError.rejected ds)) hsame.symm, rfl⟩
    | ok q' =>
      rw [hpr, hqr] at hq
      cases hq
  | ok p' =>
    cases hqr : q.resolve s.machine.globalNames with
    | error ds' =>
      rw [hpr, hqr] at hq
      cases hq
    | ok q' =>
      rw [hpr, hqr] at hq
      rw [hpr] at hend
      have hsame : p'.core = q'.core := Except.ok.inj hq
      -- Both are alike to the core that they share.
      obtain ⟨N, hN⟩ := execute_alike hs (q := p'.core) (Stmt.alike_coreAll p'.body) hend
      rw [hsame] at hN
      exact execute_alike hs (p := q'.core) (Stmt.alike_coreAll q'.body).symm hN

end Session
end Lox
