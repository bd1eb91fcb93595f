import Lox.Proofs.Notes.Evaluator

set_option autoImplicit false
set_option relaxedAutoImplicit false

namespace Lox

inductive MomentKind
  | check
  | call
  | round
  | body
  deriving DecidableEq

/-- A moment of a run: what happens, at which call or loop, and whether the run has been canceled.
-/
structure Moment where
  kind : MomentKind
  span : Span
  canceled : Bool
  deriving DecidableEq

def watching : Scribe Unit Moment where
  outside := ()
  home _ _ := ()
  activation _ _ _ := ()
  notes
    | .check span canceled => [{ kind := .check, span, canceled }]
    | .call span canceled => [{ kind := .call, span, canceled }]
    | .round span canceled => [{ kind := .round, span, canceled }]
    | .body span canceled => [{ kind := .body, span, canceled }]
    | _ => []

namespace Watching

open Noted

variable {st : Settings} {α : Type}

@[simp] theorem step (x : Run α) : watching.step x = quiet x :=
  Scribe.step_of_silent (fun _ => rfl) x

@[simp] theorem raise (told : List Failure) (f : Failure) :
    (watching.raise told f : Noted Moment α) = quiet (Run.fail f) := Scribe.raise_of_silent rfl

@[simp] theorem write (st : Settings) (line : Text) :
    watching.write st line = quiet (Run.write st line) :=
  Scribe.write_of_silent rfl st

@[simp] theorem see (t : Noted Moment α) (what : Machine → Outcome α → Sighting Unit) :
    watching.see t what = t :=
  Scribe.see_of_silent (fun _ => rfl) t what

@[simp] theorem newFunction (name : Text) (params : List Param)
    (body : List Stmt) (closure : FrameId) :
    watching.newFunction () name params body closure =
      quiet (Eval.newFunction name params body closure false) := by
  rw [Scribe.newFunction_of_silent (fun _ _ => rfl), step]

@[simp] theorem newClass (name : Text) (superclass : Option Class) (methods statics : List FunDecl)
    (closure env : FrameId) : watching.newClass name superclass methods statics closure env =
      quiet (Eval.newClass name superclass methods statics closure env) := by
  rw [Scribe.newClass_of_silent (fun _ _ => rfl), step]

variable {callee : Value} {span : Span} {t : Noted Moment Value} {past : List Moment} {m : Machine}

theorem head_of_canceled (h : m.canceled = true) : watching.head span past m =
    (.failed (.runtime .canceled (some span)) m, [{ kind := .check, span, canceled := true }]) := by
  unfold Scribe.head Run.checkCanceled
  rw [h]
  rfl

theorem head_of_live (h : m.canceled = false) : watching.head span past m =
    (.done () m, [{ kind := .check, span, canceled := false },
      { kind := .round, span, canceled := false }]) := by
  unfold Scribe.head Run.checkCanceled
  rw [h]
  rfl

theorem enter : (watching.note fun m => .body span m.canceled) past m =
    (.done () m, [{ kind := .body, span, canceled := m.canceled }]) := rfl

theorem counted_of_canceled (h : m.canceled = true) : watching.counted st callee span t past m =
    (.failed (.runtime .canceled (some span)) m, [{ kind := .check, span, canceled := true }]) := by
  unfold Scribe.counted
  simp only [h, true_or, if_true, Eval.counted_of_canceled h]
  rfl

theorem counted_of_overflow (h : m.canceled = false) (hlimit : st.limit ≤ m.depth) :
    watching.counted st callee span t past m = (.failed (.runtime .stackOverflow (some span)) m,
      [{ kind := .check, span, canceled := false }]) := by
  unfold Scribe.counted
  simp only [h, hlimit, or_true, if_true, Eval.counted_of_overflow h hlimit]
  rfl

theorem counted_of_room (h : m.canceled = false) (hlimit : m.depth < st.limit) :
    watching.counted st callee span t past m =
      let begun : List Moment := [{ kind := .check, span, canceled := false },
        { kind := .call, span, canceled := false }]
      let r := t (past ++ begun) (Eval.entry st callee span m)
      (Eval.afterBody st callee span r.1, begun ++ r.2) := by
  unfold Scribe.counted
  simp only [h, Nat.not_le.2 hlimit, Bool.false_eq_true, or_self, if_false,
    Eval.counted_of_room h hlimit,
    Scribe.ended_of_silent (S := watching) rfl]
  rfl

end Watching

end Lox
