import Lox.Proofs.Simulation.Loop
import Lox.Session

set_option autoImplicit false
set_option relaxedAutoImplicit false

namespace Lox

namespace Eval

private theorem grows_script (st : Settings) (n : Nat) (ss : List Stmt) :
    (script st n ss).Grows := by
  induction ss with
  | nil => exact .give _
  | cons s ss ih =>
    refine .bind ((grows st n).stmt fun _ _ => trivial) fun signal => ?_
    split
    · exact ih
    · exact Machine.Before.refl

variable {L : Latitude} {st st' : Settings} (hst : st.Matches L st') {n N : Nat} (hN : L.Fuel n N)
include hst hN

private theorem follows_script {ss ss' : List Stmt} (hss : Stmt.MatchesAll L ss ss') :
    Follows L (script st n ss) (script st' N ss') fun _ _ => True := by
  induction ss generalizing ss' with
  | nil =>
    cases hss
    exact .give trivial
  | cons s ss ih =>
    cases hss with
    | cons hs hss =>
      refine ((followsAt hst n).stmt Heap.globals hN hs).bind (fun signal signal' hsignal => ?_)
        fun signal' => ?_
      · rw [hs.span]
        cases hsignal with
        | normal => exact ih hss
        | leaveLoop => exact .broken _ _
        | leaveFunction _ => exact .broken _ _
      · split
        · exact grows_script st' N _
        · exact Machine.Before.refl

private theorem follows_program {p p' : Program} (hspan : p'.span = p.span)
    (hbody : Stmt.MatchesAll L p.body p'.body) :
    Follows L (program st n p) (program st' N p') fun _ _ => True := by
  intro m m' hm
  refine Follows.around (fun m => (Run.emit st .runStart p.span [] m).machine)
    (fun m => (Run.emit st' .runStart p.span [] m).machine)
    (fun m => (Run.emit st .runEnd p.span [] m).machine)
    (fun m => (Run.emit st' .runEnd p.span [] m).machine) id
    (Follows.emit hst _ _ _ hm) (fun _ _ => Follows.emit hst _ _ _) (Machine.Before.emit st' _ _ _)
    (follows_script hst hN hbody) ?_ ?_
  · unfold program
    cases script st n p.body (Run.emit st .runStart p.span [] m).machine <;> rfl
  · unfold program
    rw [hspan]
    cases script st' N p'.body (Run.emit st' .runStart p.span [] m').machine <;> rfl

end Eval

private theorem Machine.Matches.before {L : Latitude} {m m' : Machine} (h : m.Matches L m') :
    m.Before m' :=
  ⟨h.output ▸ List.suffix_rfl, h.events ▸ List.suffix_rfl, Nat.le_of_eq h.calls.symm,
    Nat.le_of_eq h.peak.symm⟩

/-- Sessions that are the same but for native functions and values, which match. -/
structure Session.Matches (L : Latitude) (s s' : Session) : Prop where
  settings : s.settings.Matches L s'.settings
  machine : s.machine.Matches L s'.machine

namespace Session

variable {L : Latitude} {s s' : Session}

theorem Matches.refl (h : ∀ n ∈ s.settings.natives, n.Matches L n) : s.Matches L s :=
  ⟨.refl h, .refl L s.machine⟩

theorem Matches.symm (h : s.Matches L s') : s'.Matches L s := ⟨h.settings.symm, h.machine.symm⟩

/-- How an execution and its follower end: in the same way, unless the first one used up its steps;
then the follower has brought about at least as much. -/
structure EndsLike (L : Latitude) (o o' : Except RunError Unit × Session) : Prop where
  ended : o.1 ≠ .error .exhausted → o'.1 = o.1 ∧ o.2.Matches L o'.2
  unended : o.1 = .error .exhausted → o.2.machine.Before o'.2.machine

private theorem execute_outcome (hs : s.Matches L s') {n N : Nat} (hN : L.Fuel n N) {p p' : Program}
    (hspan : p'.span = p.span) (hbody : Stmt.MatchesAll L p.body p'.body) :
    Outcome.Matches L (fun _ _ => True) (Eval.program s.settings n p s.machine)
      (Eval.program s'.settings N p' s'.machine) :=
  Eval.follows_program hs.settings hN hspan hbody _ _ hs.machine

theorem execute_endsLike (hs : s.Matches L s') {n N : Nat} (hN : L.Fuel n N) {p p' : Program}
    (hspan : p'.span = p.span) (hbody : Stmt.MatchesAll L p.body p'.body) :
    EndsLike L (s.execute n p) (s'.execute N p') := by
  have hends := execute_outcome hs hN hspan hbody
  unfold execute
  generalize Eval.program s.settings n p s.machine = o,
    Eval.program s'.settings N p' s'.machine = o' at hends
  cases hends with
  | done hm _ => exact ⟨fun _ => ⟨rfl, hs.settings, hm⟩, nofun⟩
  | failed f hm => exact ⟨fun _ => ⟨rfl, hs.settings, hm⟩, nofun⟩
  | exhausted hm => exact ⟨fun hne => absurd rfl hne, fun _ => hm.before⟩
  | outlasted hL hbefore =>
    refine ⟨fun hne => absurd rfl hne, fun _ => ?_⟩
    cases o' with
    | done _ m | failed f m | exhausted m => exact hbefore

theorem execute_matches (hL : ¬ L.loops) (hs : s.Matches L s') (n : Nat) {p p' : Program}
    (hspan : p'.span = p.span) (hbody : Stmt.MatchesAll L p.body p'.body) :
    (s'.execute n p').1 = (s.execute n p).1 ∧ (s.execute n p).2.Matches L (s'.execute n p').2 := by
  have hends := execute_outcome hs (.of_eq hL n) hspan hbody
  unfold execute
  generalize Eval.program s.settings n p s.machine = o,
    Eval.program s'.settings n p' s'.machine = o' at hends
  cases hends with
  | done hm _ => exact ⟨rfl, hs.settings, hm⟩
  | failed f hm => exact ⟨rfl, hs.settings, hm⟩
  | exhausted hm => exact ⟨rfl, hs.settings, hm⟩
  | outlasted hloops => exact absurd hloops hL

end Session
end Lox
