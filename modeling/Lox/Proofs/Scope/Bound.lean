import Lox.Proofs.Parse
import Lox.Proofs.Scope.Globals
import Lox.Session

set_option autoImplicit false
set_option relaxedAutoImplicit false

namespace Lox

open Text (lit)

namespace Session

private theorem run_eq_execute {s : Session} {q : Program} {file source : Text}
    (hq : s.prepare file source = .ok q) (fuel : Nat) :
    s.run fuel file source = s.execute fuel q := by
  rw [run, hq]

end Session

namespace Program

/-- The violations for which a program is refused; there are none if it is accepted. -/
def rejections (p : Program) (bound : List Text) : List Diagnostic :=
  match p.resolve bound with
  | .error ds => ds
  | .ok _ => []

private theorem rejections_eq (p : Program) (bound : List Text) :
    p.rejections bound = (Resolve.stmts {} (.top bound) p.body).found := by
  unfold rejections resolve
  dsimp only
  split
  · rename_i ds h
    split at h
    · cases h
    · exact (Except.error.inj h).symm
  · rename_i q h
    split at h
    · rename_i hnone
      exact (List.isEmpty_iff.1 hnone).symm
    · cases h

variable {p q : Program} {bound bound' : List Text}

private theorem rejections_spares (p : Program) (h : bound ⊆ bound') :
    Diagnostic.Spares (p.rejections bound) (p.rejections bound') := by
  rw [rejections_eq, rejections_eq]
  exact (Resolve.stmts_eases {} (.top h) p.body).found

private theorem resolve_of_subset (h : bound ⊆ bound') (hq : p.resolve bound = .ok q) :
    p.resolve bound' = .ok q := by
  obtain ⟨hnone, rfl⟩ := resolve_eq_ok.1 hq
  have heases := Resolve.stmts_eases {} (.top h) p.body
  refine resolve_eq_ok.2 ⟨?_, by rw [heases.value.1]⟩
  have hless := heases.found.sublist
  rw [hnone] at hless
  exact List.sublist_nil.1 hless

private theorem resolve_unique {q' : Program} (h : bound ⊆ bound') (hq : p.resolve bound = .ok q)
    (hq' : p.resolve bound' = .ok q') : q = q' :=
  Except.ok.inj ((resolve_of_subset h hq).symm.trans hq')

/-- The names that exist before a program count as a set: in another order and with repetitions they
lead to the same result. With more of them, the same violations are found in the same order but for
some reads of a name in its own initial value, what is accepted stays accepted, and wherever both
are accepted all occurrences have the same hops. So a session may list its globals in any order, and
one with more globals carries out the same program. -/
theorem resolve_monotone (p : Program) (bound bound' : List Text) :
    ((∀ n, n ∈ bound ↔ n ∈ bound') → p.resolve bound = p.resolve bound') ∧
    (bound ⊆ bound' →
      (p.rejections bound').Sublist (p.rejections bound) ∧
      Diagnostic.Spares (p.rejections bound) (p.rejections bound') ∧
      (∀ q, p.resolve bound = .ok q → p.resolve bound' = .ok q) ∧
      ∀ q q', p.resolve bound = .ok q → p.resolve bound' = .ok q' → q = q') ∧
    ∀ (s s' : Session) (file source : Text), parse file source = .ok p →
      ((∀ n, n ∈ bound ↔ n ∈ s.machine.globalNames) → s.prepare file source = p.resolve bound) ∧
      (s.machine.globalNames ⊆ s'.machine.globalNames → ∀ q, s.prepare file source = .ok q →
        ∀ fuel, s.run fuel file source = s.execute fuel q ∧
          s'.run fuel file source = s'.execute fuel q) := by
  refine ⟨p.resolve_alike, fun h => ?_, fun s s' file source hp =>
    ⟨fun h => ?_, fun h q hq fuel => ?_⟩⟩
  · have hspares := p.rejections_spares h
    exact ⟨hspares.sublist, hspares, fun _ => resolve_of_subset h, fun _ _ => resolve_unique h⟩
  · rw [Session.prepare_eq_resolve hp, p.resolve_alike h]
  · rw [Session.prepare_eq_resolve hp] at hq
    have hq' := resolve_of_subset h hq
    rw [← Session.prepare_eq_resolve hp] at hq hq'
    exact ⟨Session.run_eq_execute hq fuel, Session.run_eq_execute hq' fuel⟩

/-- A declaration that reads its own name is refused unless the name exists already; a `return` at
the top is refused either way. -/
theorem resolve_monotone_ownName :
    ∃ p, parse [] (lit "var a = a; return;") = .ok p ∧
      (p.rejections []).map Diagnostic.code = [.selfInit, .returnTopLevel] ∧
      (p.rejections [lit "b", lit "a", lit "b"]).map Diagnostic.code = [.returnTopLevel] ∧
      p.resolve [lit "b", lit "a", lit "b"] = p.resolve [lit "a", lit "b"] ∧
      Diagnostic.Spares (p.rejections []) (p.rejections [lit "b", lit "a", lit "b"]) := by
  have hparse : (parse [] (lit "var a = a; return;")).toOption.any (fun p =>
      (p.rejections []).map Diagnostic.code = [.selfInit, .returnTopLevel] ∧
        (p.rejections [lit "b", lit "a", lit "b"]).map Diagnostic.code =
          [.returnTopLevel]) = true := by
    decide +kernel
  obtain ⟨p, hp, hcodes⟩ := (Option.any_eq_true _ _).1 hparse
  obtain ⟨hnone, hsome⟩ := of_decide_eq_true hcodes
  obtain ⟨-, hmore, -⟩ := p.resolve_monotone [] [lit "b", lit "a", lit "b"]
  obtain ⟨hsame, -, -⟩ := p.resolve_monotone [lit "b", lit "a", lit "b"] [lit "a", lit "b"]
  refine ⟨p, eq_ok_of_toOption hp, hnone, hsome, hsame fun n => ?_, (hmore (List.nil_subset _)).2.1⟩
  simp only [List.mem_cons, List.not_mem_nil, or_false]
  exact ⟨fun h => h.elim .inr fun h => h, fun h => h.elim (fun h => .inr (.inl h)) .inl⟩

end Program
end Lox
