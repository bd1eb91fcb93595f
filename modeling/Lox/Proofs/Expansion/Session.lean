import Lox.Proofs.Expansion.Resolution
import Lox.Proofs.Run.Session
import Lox.Proofs.Simulation.Session

set_option autoImplicit false
set_option relaxedAutoImplicit false

namespace Lox

open Text (lit)

/-- Loops may be written in two ways, and nothing else may differ. -/
def Latitude.ofLoops : Latitude := { loops := True, blanks := False }

namespace Session

private theorem EndsLike.exhausted {L : Latitude}
    {o o' : Except RunError Unit × Session} (h : EndsLike L o o')
    (ho' : o'.1 = .error .exhausted) : o.1 = .error .exhausted := by
  by_contra hne
  exact hne ((h.ended hne).1.symm.trans ho')

/-- Loops mean their expansions. The expansion of a program that can be parsed has no loop with
clauses. It is accepted if the program is, with the same hops everywhere, and else has the same
violations in the same order. In corresponding sessions the two have the same result, output, events
and counts, and leave corresponding sessions; what the one has brought about when its steps are used
up, the other has too after a few more; and either goes on forever if and only if the other does. -/
theorem execute_expanded {s s' : Session} (hs : s.Matches .ofLoops s')
    {file source : Text} {p : Program} (hp : Program.parse file source = .ok p) :
    Stmt.UnrolledAll p.expanded.body ∧
      (∀ bound, p.expanded.resolve bound = (p.resolve bound).map Program.expanded) ∧
      ∀ q, p.resolve s.machine.globalNames = .ok q →
        (∀ fuel, EndsLike .ofLoops (s.execute fuel q) (s'.execute (5 * fuel) q.expanded)) ∧
        (∀ fuel, EndsLike .ofLoops (s'.execute fuel q.expanded) (s.execute (5 * fuel) q)) ∧
        ((∀ fuel, (s.execute fuel q).1 = .error .exhausted) ↔
          ∀ fuel, (s'.execute fuel q.expanded).1 = .error .exhausted) := by
  have hfuel : ∀ fuel, Latitude.ofLoops.Fuel fuel (5 * fuel) :=
    fun _ => .of_loops trivial (Nat.le_refl _)
  refine ⟨Program.unrolled_expanded hp, p.resolve_expanded, fun q _ => ?_⟩
  have hbody : Stmt.MatchesAll .ofLoops q.body q.expanded.body :=
    Stmt.matchesAll_expanded trivial q.body
  have hspan : q.expanded.span = q.span := rfl
  have hforth := fun fuel => execute_endsLike hs (hfuel fuel) hspan hbody
  have hback := fun fuel => execute_endsLike hs.symm (hfuel fuel) hspan.symm hbody.symm
  refine ⟨hforth, hback, ?_, ?_⟩
  · exact fun h fuel => (hback fuel).exhausted (h (5 * fuel))
  · exact fun h fuel => (hforth fuel).exhausted (h (5 * fuel))

/-- A loop whose body leaves a function behind, which sees the variable of the loop as the last
round that had a last clause left it; and a loop that has none. -/
def leftBehind : Text :=
  lit "var g; for (var s = \"\"; s != \"xxx\"; s = s + \"x\") \x7b
      fun f() \x7b for (;;) return s + \"!\"; \x7d if (s == \"x\") g = f; if (s == \"xx\") break; \x7d print g();"

def leftBehindLayout : Text := lit "var g;
\x7b
  var s = \"\";
  while (s != \"xxx\") \x7b
    \x7b
      fun f() \x7b
        while (true) \x7b
          return s + \"!\";
        \x7d
      \x7d
      if (s == \"x\")
        g = f;
      if (s == \"xx\")
        break;
    \x7d
    s = s + \"x\";
  \x7d
\x7d
print g();
"

set_option maxRecDepth 4000 in
theorem execute_expanded_leftBehind :
    let s : Session :=
      { settings := { limit := 10, natives := #[.out] }, machine := .initial [.out] }
    ∃ p q, Program.parse [] leftBehind = .ok p ∧ p.expanded.layout = leftBehindLayout ∧
      p.expanded.resolve s.machine.globalNames = .ok q.expanded ∧
      (s.execute 20 q).1 = .ok () ∧ (s.execute 100 q.expanded).1 = .ok () ∧
      (s.execute 100 q.expanded).2.machine.written = lit "xx!\n" := by
  intro s
  have hleftBehind : leftBehind = Text.encoded _ := Text.lit_ofList _
  have hcode : ((Program.parse [] leftBehind).toOption.map fun p => p.expanded.layout) =
      some leftBehindLayout := by
    rw [hleftBehind, show leftBehindLayout = Text.encoded _ from Text.lit_ofList _]
    decide +kernel
  obtain ⟨p, hp, hlayout⟩ := Option.map_eq_some_iff.1 hcode
  have hparse : Program.parse [] leftBehind = .ok p := eq_ok_of_toOption hp
  have hrun : ((s.prepare [] leftBehind).toOption.map fun q =>
      ((s.execute 20 q).1.toOption, (s.execute 20 q).2.machine.written)) =
        some (some (), lit "xx!\n") := by
    rw [hleftBehind]
    decide +kernel
  obtain ⟨q, hq, hends⟩ := Option.map_eq_some_iff.1 hrun
  obtain ⟨hok, hwritten⟩ := Prod.mk.inj hends
  have hresolve : p.resolve s.machine.globalNames = .ok q := by
    have hprepare : s.prepare [] leftBehind = .ok q := eq_ok_of_toOption hq
    rwa [prepare_eq_resolve hparse] at hprepare
  have hok : (s.execute 20 q).1 = .ok () := eq_ok_of_toOption hok
  have hs : s.Matches .ofLoops s :=
    .refl fun n hn => List.mem_singleton.1 (Array.mem_toList_iff.2 hn) ▸ Native.plain_out.matches _
  obtain ⟨-, hresolves, hruns⟩ := execute_expanded hs hparse
  obtain ⟨hforth, -⟩ := hruns q hresolve
  obtain ⟨hresult, hmatches⟩ := (hforth 20).ended (by rw [hok]; nofun)
  refine ⟨p, q, hparse, hlayout, ?_, hok, hresult.trans hok, ?_⟩
  · rw [hresolves, hresolve]
    rfl
  · rw [Machine.written, hmatches.machine.output]
    exact hwritten

end Session
end Lox
