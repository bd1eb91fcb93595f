import Lox.Proofs.Parse
import Lox.Proofs.Scope.Globals
import Lox.Workspace

set_option autoImplicit false
set_option relaxedAutoImplicit false

namespace Lox

open Text (lit)

/-- What is asked of a workspace. -/
inductive Request
  | check (file source : Text)
  | format (file source : Text)
  | run (c : Conditions) (fuel : Nat) (file source : Text)

/-- What a workspace answers. -/
inductive Answer
  | checked (faults : List Diagnostic)
  | formatted (result : Except RunError Text)
  | ran (report : Report)

/-- Whether a request was answered without carrying anything out. -/
def Answer.IsStatic : Answer → Prop
  | .checked _ | .formatted _ => True
  | .ran report => ∃ ds, report.result = .error (.rejected ds)

/-- Conversations, the second of which lacks some requests that were answered without carrying
anything out. -/
inductive Thinned : List (Request × Answer) → List (Request × Answer) → Prop
  | nil : Thinned [] []
  | keep {l r : List (Request × Answer)} (e : Request × Answer) :
      Thinned l r → Thinned (e :: l) (e :: r)
  | drop {l r : List (Request × Answer)} {e : Request × Answer} :
      e.2.IsStatic → Thinned l r → Thinned (e :: l) r

private theorem Session.execute_ne_rejected (s : Session) (fuel : Nat) (p : Program)
    (ds : List Diagnostic) :
    (s.execute fuel p).1 ≠ .error (.rejected ds) := by
  unfold execute
  cases Eval.program s.settings fuel p s.machine <;> nofun

private theorem Program.resolve_error_ne_nil {p : Program}
    {bound : List Text} {ds : List Diagnostic} (h : p.resolve bound = .error ds) : ds ≠ [] := by
  unfold resolve at h
  dsimp only at h
  split at h
  · cases h
  · rename_i hfound
    cases h
    rintro hnil
    exact hfound (List.isEmpty_iff.2 hnil)

namespace Workspace

/-- The answer to a request, and the workspace after it. -/
def answer (w : Workspace) : Request → Answer × Workspace
  | .check file source => (.checked (w.check file source).1, (w.check file source).2)
  | .format file source => (.formatted (Session.format file source), w)
  | .run c fuel file source => (.ran (w.run c fuel file source).1, (w.run c fuel file source).2)

/-- A conversation: requests in order, each with its answer. -/
def conversation (w : Workspace) : List Request → List (Request × Answer)
  | [] => []
  | q :: qs => (q, (w.answer q).1) :: conversation (w.answer q).2 qs

@[simp] theorem session_opened (w : Workspace) (s : Session) :
    ({ w with opened := some s } : Workspace).session = s := rfl

theorem session_check (w : Workspace) (file source : Text) :
    (w.check file source).2.session = w.session := by
  unfold check
  split <;> rfl

private theorem run_check (w : Workspace) (c : Conditions) (fuel : Nat) (file source : Text) :
    ((w.check file source).1 ≠ [] ∧
        (w.run c fuel file source).1 = w.refusal (w.check file source).1 ∧
        (w.run c fuel file source).2.session = w.session) ∨
      ((w.check file source).1 = [] ∧
        ∀ ds, (w.run c fuel file source).1.result ≠ .error (.rejected ds)) := by
  unfold check run
  split
  · rename_i ds hparse
    exact .inl ⟨Program.parse_error_ne_nil hparse, rfl, rfl⟩
  · rename_i p hparse
    dsimp only
    split
    · rename_i ds hresolve
      exact .inl ⟨Program.resolve_error_ne_nil hresolve, rfl, rfl⟩
    · exact .inr ⟨rfl, Session.execute_ne_rejected _ _ _⟩

private theorem run_rejected_iff (w : Workspace) (c : Conditions) (fuel : Nat) (file source : Text)
    (ds : List Diagnostic) : (w.run c fuel file source).1.result = .error (.rejected ds) ↔
      ds ≠ [] ∧ (w.check file source).1 = ds := by
  obtain ⟨hne, hrun, -⟩ | ⟨hnil, hrun⟩ := w.run_check c fuel file source
  · rw [hrun]
    constructor
    · rintro ⟨⟩
      exact ⟨hne, rfl⟩
    · rintro ⟨-, rfl⟩
      rfl
  · rw [hnil]
    constructor
    · exact fun hrejected => absurd hrejected (hrun ds)
    · rintro ⟨hne, rfl⟩
      exact absurd rfl hne

private theorem session_answer {w : Workspace} {q : Request} (h : (w.answer q).1.IsStatic) :
    (w.answer q).2.session = w.session := by
  cases q with
  | check file source => exact w.session_check file source
  | format file source => rfl
  | run c fuel file source =>
    obtain ⟨ds, hds⟩ := h
    obtain ⟨-, -, hsession⟩ | ⟨-, hrun⟩ := w.run_check c fuel file source
    · exact hsession
    · exact absurd hds (hrun ds)

section

variable {w w' : Workspace} (h : w.session = w'.session)
include h

private theorem check_congr (file source : Text) :
    (w.check file source).1 = (w'.check file source).1 := by
  unfold check
  rw [h]
  cases Program.parse file source <;> rfl

theorem run_congr (c : Conditions) (fuel : Nat) (file source : Text) :
    (w.run c fuel file source).1 = (w'.run c fuel file source).1 ∧
      (w.run c fuel file source).2.session = (w'.run c fuel file source).2.session := by
  unfold run refusal
  rw [h]
  cases Program.parse file source with
  | error ds => exact ⟨rfl, h⟩
  | ok p =>
    dsimp only
    cases p.resolve w'.session.machine.globalNames <;> exact ⟨rfl, rfl⟩

private theorem answer_congr (q : Request) :
    (w.answer q).1 = (w'.answer q).1 ∧ (w.answer q).2.session = (w'.answer q).2.session := by
  cases q with
  | check file source =>
    refine ⟨congrArg Answer.checked (check_congr h file source), ?_⟩
    exact (w.session_check file source).trans (h.trans (w'.session_check file source).symm)
  | format file source => exact ⟨rfl, h⟩
  | run c fuel file source =>
    obtain ⟨hreport, hsession⟩ := run_congr h c fuel file source
    exact ⟨congrArg Answer.ran hreport, hsession⟩

end

private theorem conversation_thinned {w w' : Workspace}
    (h : w.session = w'.session) {qs : List Request}
    {kept : List (Request × Answer)} (hkept : Thinned (w.conversation qs) kept) :
    w'.conversation (kept.map Prod.fst) = kept := by
  induction qs generalizing w w' kept with
  | nil =>
    cases hkept
    rfl
  | cons q qs ih =>
    cases hkept with
    | keep _ hrest =>
      obtain ⟨hanswer, hsession⟩ := answer_congr h q
      show (q, (w'.answer q).1) :: _ = _
      rw [ih hsession hrest, hanswer]
    | drop hstatic hrest => exact ih ((session_answer hstatic).trans h) hrest

/-- Static faults have no effect, and checking foretells them. A run is refused with some faults if
and only if checking the source tells the same faults and there are any; the order in which the
globals are listed plays no part in them. And whatever a workspace has been through, what was only
checked, formatted or refused may be left out of a conversation anywhere, at its beginning too: the
other requests get the very answers that they got. -/
theorem static_requests (w : Workspace) :
    (∀ c fuel file source ds, (w.run c fuel file source).1.result = .error (.rejected ds) ↔
      ds ≠ [] ∧ (w.check file source).1 = ds) ∧
    (∀ (p : Program) (bound : List Text), (∀ n, n ∈ bound ↔ n ∈ w.session.machine.globalNames) →
      p.resolve bound = p.resolve w.session.machine.globalNames) ∧
    ∀ qs kept, Thinned (w.conversation qs) kept → w.conversation (kept.map Prod.fst) = kept :=
  ⟨w.run_rejected_iff, fun p _ h => p.resolve_alike h, fun _ _ => conversation_thinned rfl⟩

/-- The first request opens the session only to be refused, and the last two use what the one before
them has declared. -/
def refusedFirst : List Request :=
  [.run {} 20 [] (lit "return;"), .format [] (lit "nil"), .check [] (lit "var a = a;"),
    .run {} 20 [] (lit "var a = \"x\";"), .check [] (lit "var a = a;"),
      .run {} 20 [] (lit "print a;")]

theorem static_requests_refusedFirst :
    let w : Workspace := { registry := .empty }
    let faults := (w.check [] (lit "return;")).1
    faults ≠ [] ∧ (w.run {} 20 [] (lit "return;")).1.result = .error (.rejected faults) ∧
      Thinned (w.conversation refusedFirst) ((w.conversation refusedFirst).drop 3) ∧
      w.conversation (refusedFirst.drop 3) = (w.conversation refusedFirst).drop 3 := by
  intro w faults
  obtain ⟨hrejected, -, hthinned⟩ := static_requests w
  have hfaults : faults ≠ [] := by decide +kernel
  have hrun := (hrejected {} 20 [] (lit "return;") faults).2 ⟨hfaults, rfl⟩
  have hkept : Thinned (w.conversation refusedFirst) ((w.conversation refusedFirst).drop 3) :=
    .drop ⟨faults, hrun⟩ (.drop trivial (.drop trivial (.keep _ (.keep _ (.keep _ .nil)))))
  exact ⟨hfaults, hrun, hkept, hthinned _ _ hkept⟩

end Workspace
end Lox
