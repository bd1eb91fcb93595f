import Lox.Proofs.Notes.Evaluator

set_option autoImplicit false
set_option relaxedAutoImplicit false

namespace Lox

open Text (lit)

/-- Something that is noted of a run. -/
inductive Note
  /-- A call begins, at the place of its expression. -/
  | call (span : Span)
  /-- The innermost call has ended. -/
  | back
  /-- A line is written. -/
  | wrote (line : Text)
  /-- A failure of the program itself. -/
  | fault (f : Failure)
  /-- A native function fails by itself. -/
  | raised (f : Failure)
  deriving DecidableEq

namespace Note

/-- The failure that arises. -/
def failure? : Note → Option Failure
  | fault f | raised f => some f
  | _ => none

def text : Note → Text
  | wrote line => line ++ [Byte.lineFeed]
  | _ => []

/-- The text that is written according to notes. -/
def written (l : List Note) : Text := l.flatMap text

/-- The places of the calls that are being evaluated after some notes, innermost first, with those
that were being evaluated before. -/
def calls : List Span → List Note → List Span
  | outer, [] => outer
  | outer, call span :: r => calls (span :: outer) r
  | outer, back :: r => calls outer.tail r
  | outer, wrote _ :: r | outer, fault _ :: r | outer, raised _ :: r => calls outer r

end Note

def chronicling : Scribe Unit Note where
  outside := ()
  home _ _ := ()
  activation _ _ _ := ()
  notes
    | .call span _ => [.call span]
    | .back => [.back]
    | .wrote line => [.wrote line]
    | .fault f => [.fault f]
    | .raised told f => if f ∈ told then [] else [.raised f]
    | _ => []

namespace Chronicling

open Noted

variable {α : Type}

@[simp] theorem see (t : Noted Note α) (what : Machine → Outcome α → Sighting Unit) :
    chronicling.see t what = t :=
  Scribe.see_of_silent (fun _ => rfl) t what

@[simp] theorem newFunction (name : Text) (params : List Param)
    (body : List Stmt) (closure : FrameId) :
    chronicling.newFunction () name params body closure =
      chronicling.step (Eval.newFunction name params body closure false) :=
  Scribe.newFunction_of_silent (fun _ _ => rfl) ..

@[simp] theorem newClass (name : Text) (superclass : Option Class) (methods statics : List FunDecl)
    (closure env : FrameId) : chronicling.newClass name superclass methods statics closure env =
      chronicling.step (Eval.newClass name superclass methods statics closure env) :=
  Scribe.newClass_of_silent (fun _ _ => rfl) ..

@[simp] theorem head (span : Span) :
    chronicling.head span = chronicling.step (Run.checkCanceled span) :=
  Scribe.head_of_silent (fun _ => rfl) fun _ => rfl

@[simp] theorem enter (span : Span) :
    (chronicling.note fun m => .body span m.canceled) = quiet (Run.give ()) :=
  Scribe.note_of_silent fun _ => rfl

theorem raise_of_mem {told : List Failure} {f : Failure} (h : f ∈ told) :
    (chronicling.raise told f : Noted Note α) = quiet (Run.fail f) :=
  Scribe.raise_of_silent (if_pos h)

end Chronicling

namespace Failure

def leave (f : Failure) : List Span → Failure
  | [] => f
  | span :: _ => f.attach span

private theorem attach_attach (f : Failure) (span outer : Span) :
    (f.attach span).attach outer = f.attach span := by
  cases f with
  | runtime e place => cases place <;> rfl
  | internal e place => rfl
  | plain message => rfl

private theorem leave_concat (f : Failure) (inner : List Span) (outer : Span) :
    f.leave (inner ++ [outer]) = (f.leave inner).attach outer := by
  cases inner with
  | nil => rfl
  | cons span r => exact (f.attach_attach span outer).symm

end Failure

namespace Note

/-! ### Calls -/

private theorem calls_append (outer : List Span) (l l' : List Note) :
    calls outer (l ++ l') = calls (calls outer l) l' := by
  fun_induction calls outer l with
  | case1 outer => rfl
  | case2 _ _ _ ih | case3 _ _ ih | case4 _ _ _ ih | case5 _ _ _ ih | case6 _ _ _ ih => exact ih

def Balanced (l : List Note) : Prop := ∀ outer, calls outer l = outer

namespace Balanced

variable {l l' : List Note}

theorem nil : Balanced [] := fun _ => rfl

theorem of_failure {x : Note} {f : Failure} (hx : x.failure? = some f) : Balanced [x] := by
  cases x with
  | fault f | raised f => exact fun _ => rfl
  | _ => cases hx

theorem append (h : Balanced l) (h' : Balanced l') : Balanced (l ++ l') := by
  intro outer
  rw [calls_append, h, h']

theorem around (h : Balanced l) (span : Span) : Balanced (.call span :: (l ++ [.back])) := by
  intro outer
  show calls (span :: outer) (l ++ [.back]) = outer
  rw [calls_append, h]
  rfl

end Balanced

/-- Notes of a computation that has given a value. If failures are handed on directly, none has
arisen. -/
structure Settled (direct : Prop) (l : List Note) : Prop where
  balanced : Balanced l
  clean : direct → ∀ y ∈ l, y.failure? = none

namespace Settled

variable {direct : Prop} {l l' : List Note}

theorem nil : Settled direct [] := ⟨.nil, fun _ => List.forall_mem_nil _⟩

theorem append (h : Settled direct l) (h' : Settled direct l') : Settled direct (l ++ l') :=
  ⟨h.balanced.append h'.balanced, fun hd => List.forall_mem_append.2 ⟨h.clean hd, h'.clean hd⟩⟩

theorem around (h : Settled direct l) (span : Span) :
    Settled direct (.call span :: (l ++ [.back])) := by
  refine ⟨h.balanced.around span, fun hd => List.forall_mem_cons.2 ⟨rfl, ?_⟩⟩
  exact List.forall_mem_append.2 ⟨h.clean hd, List.forall_mem_singleton.2 rfl⟩

end Settled

/-! ### Failures -/

/-- One of the notes tells where a failure arose, which has left the calls that were being evaluated
then. If failures are handed on directly, no other one has arisen, and after it calls have only
ended. -/
inductive Explains (direct : Prop) : List Note → Failure → Prop
  | arises {before later : List Note} {x : Note} {f : Failure} {inner : List Span} :
      x.failure? = some f → (∀ outer, calls outer before = inner ++ outer) →
      (direct → (∀ y ∈ before, y.failure? = none) ∧ ∀ y ∈ later, y = .back) →
      Explains direct (before ++ x :: later) (f.leave inner)

namespace Explains

variable {direct : Prop} {l l' : List Note} {f : Failure}

theorem single {x : Note} (hx : x.failure? = some f) : Explains direct [x] f :=
  @Explains.arises direct [] [] x f [] hx (fun _ => rfl) fun _ =>
    ⟨List.forall_mem_nil _, List.forall_mem_nil _⟩

theorem after (h : Settled direct l) (h' : Explains direct l' f) : Explains direct (l ++ l') f := by
  cases h' with
  | @arises before later x f inner hx hcalls hdirect =>
    rw [← List.append_assoc]
    refine .arises hx (fun outer => ?_) fun hd => ⟨?_, (hdirect hd).2⟩
    · rw [calls_append, h.balanced, hcalls]
    · exact List.forall_mem_append.2 ⟨h.clean hd, (hdirect hd).1⟩

/-- A native function that keeps a failure for a while may do other things before it hands it on. -/
theorem kept (hnot : ¬ direct) (h : Explains direct l f) (l' : List Note) :
    Explains direct (l ++ l') f := by
  cases h with
  | arises hx hcalls _ =>
    rw [List.append_assoc, List.cons_append]
    exact .arises hx hcalls fun hd => absurd hd hnot

theorem around (h : Explains direct l f) (span : Span) :
    Explains direct (.call span :: (l ++ [.back])) (f.attach span) := by
  cases h with
  | @arises before later x f inner hx hcalls hdirect =>
    have hsplit : Note.call span :: (before ++ x :: later ++ [.back]) =
        (.call span :: before) ++ x :: (later ++ [.back]) := by simp
    rw [hsplit, ← Failure.leave_concat]
    refine .arises hx (fun outer => ?_) fun hd => ⟨?_, ?_⟩
    · show calls (span :: outer) before = inner ++ [span] ++ outer
      rw [hcalls, List.append_assoc]
      rfl
    · exact List.forall_mem_cons.2 ⟨rfl, (hdirect hd).1⟩
    · exact List.forall_mem_append.2 ⟨(hdirect hd).2, List.forall_mem_singleton.2 rfl⟩

end Explains

theorem written_append (l l' : List Note) : written (l ++ l') = written l ++ written l' :=
  List.flatMap_append

end Note
end Lox
