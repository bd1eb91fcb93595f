import Lox.Proofs.Run.Globals
import Lox.Proofs.Run.Safe

set_option autoImplicit false
set_option relaxedAutoImplicit false

namespace Lox

open Text (lit)

namespace Value

/-- The native function that can be had from a value: itself, or the receiver of a method. -/
def native? : Value → Option Nat
  | native i => some i
  | method _ _ receiver => receiver.native?
  | _ => none

def Within (ok : Nat → Prop) (v : Value) : Prop := ∀ i, v.native? = some i → ok i

theorem within_of_none {ok : Nat → Prop} {v : Value} (h : v.native? = none) : v.Within ok := by
  intro i hi
  rw [h] at hi
  cases hi

theorem within_ofLiteral (ok : Nat → Prop) (v : Literal) : (ofLiteral v).Within ok :=
  within_of_none (by cases v <;> rfl)

end Value

namespace Heap

/-- The values that a heap holds. -/
inductive Holds (h : Heap) : Value → Prop
  | binding {e : FrameId} {n : Text} {v : Value} : (h.bindings e).lookup n = some v → Holds h v
  | field {i : Nat} {n : Text} {v : Value} : h.field? i n = some v → Holds h v
  | receiver {i : Nat} {f : Function} {v : Value} : Holds h (.method i f v) → Holds h v
  | underlying {i : Nat} {f : Function} {v : Value} :
      Holds h (.method i f v) → Holds h (.function f)
  | classOf {i : Nat} {c : Class} : Holds h (.object i c) → Holds h (.cls c)
  | superclass {i : Nat} {n : Text} {c : Class} {ms ss : List (Text × Function)} :
      Holds h (.cls (.mk i n (some c) ms ss)) → Holds h (.cls c)
  | method {c : Class} {n : Text} {f : Function} :
      Holds h (.cls c) → c.findMethod n = some f → Holds h (.function f)
  | static {c : Class} {n : Text} {f : Function} :
      Holds h (.cls c) → c.findStatic n = some f → Holds h (.function f)

structure All (P : Value → Prop) (h : Heap) : Prop where
  bindings {e : FrameId} {n : Text} {v : Value} : (h.bindings e).lookup n = some v → P v
  field {i : Nat} {n : Text} {v : Value} : h.field? i n = some v → P v

namespace All

variable {P : Value → Prop}

theorem initial {bs : Bindings} (hbs : ∀ n v, bs.lookup n = some v → P v) :
    (Heap.initial bs).All P where
  bindings {e n v} hv := by
    cases e with
    | zero => exact hbs n v hv
    | succ e => cases hv
  field hv := nomatch hv

variable {h : Heap} (hh : h.All P)
include hh

theorem getAt {e : FrameId} {d : Int} {n : Text} {v : Value} (hv : h.getAt? e d n = some v) :
    P v := by
  unfold getAt? at hv
  split at hv
  · exact hh.bindings hv
  · cases hv

theorem define (e : FrameId) (name : Text) {v : Value} (hv : P v) : (h.define e name v).All P where
  bindings {e' n w} hw := by
    rw [bindings_define] at hw
    split at hw
    · rw [Bindings.lookup_bind] at hw
      split at hw
      · cases hw
        exact hv
      · exact hh.bindings hw
    · exact hh.bindings hw
  field hw := hh.field hw

theorem declare (e : FrameId) (name : Text) (hnil : P .nil) : (h.declare e name).All P := by
  unfold Heap.declare
  split
  · exact hh
  · exact hh.define e name hnil

theorem child (parent : FrameId) {bs : Bindings} (hbs : ∀ n v, bs.lookup n = some v → P v) :
    (h.child parent bs).2.All P where
  bindings {e n v} hv := by
    unfold Heap.bindings Heap.child at hv
    rw [Array.getElem?_push] at hv
    by_cases he : e = h.frames.size
    · rw [if_pos he] at hv
      exact hbs n v hv
    · rw [if_neg he] at hv
      exact hh.bindings hv
  field hv := hh.field hv

theorem newObject : h.newObject.2.All P where
  bindings hv := hh.bindings hv
  field {i n v} hv := by
    unfold Heap.field? Heap.newObject at hv
    rw [Array.getElem?_push] at hv
    by_cases hi : i = h.objects.size
    · rw [if_pos hi] at hv
      cases hv
    · rw [if_neg hi] at hv
      exact hh.field hv

theorem setField (object : Nat) (name : Text) {v : Value} (hv : P v) :
    (h.setField object name v).All P where
  bindings hw := hh.bindings hw
  field {i n w} hw := by
    unfold Heap.field? Heap.setField at hw
    rw [Array.getElem?_modify] at hw
    split at hw
    · rename_i fields hfields
      split at hfields
      · obtain ⟨old, hold, rfl⟩ := Option.map_eq_some_iff.1 hfields
        rw [Bindings.lookup_bind] at hw
        split at hw
        · cases hw
          exact hv
        · exact hh.field (i := i) (n := n) (by simp only [Heap.field?, hold, hw])
      · exact hh.field (i := i) (n := n) (by simp only [Heap.field?, hfields, hw])
    · cases hw

theorem freshId : h.freshId.2.All P := ⟨hh.bindings, hh.field⟩

end All

theorem Holds.within {ok : Nat → Prop} {h : Heap} (hh : h.All (Value.Within ok)) {v : Value}
    (hv : h.Holds v) : v.Within ok := by
  induction hv with
  | binding hv => exact hh.bindings hv
  | field hv => exact hh.field hv
  | receiver _ ih => exact ih
  | underlying _ _ | classOf _ _ | superclass _ _ | method _ _ _ | static _ _ _ =>
    exact Value.within_of_none rfl

end Heap

/-- Only such native functions are given and called with as were given. What is called back may give
one more. -/
def Discipline.confined : Discipline (Nat → Prop) where
  value given v := v.Within given
  failure _ := True
  more v given := fun i => given i ∨ v.native? = some i

abbrev Action.Confined (a : Action) (given : Nat → Prop) : Prop := a.Obeys .confined given

theorem Action.Confined.mono {a : Action} {given given' : Nat → Prop} (h : a.Confined given)
    (hle : ∀ i, given i → given' i) : a.Confined given' :=
  Action.Obeys.mono (D := .confined) (r := fun given given' => ∀ i, given i → given' i)
    (fun hle _ hv i hi => hle i (hv i hi)) (fun hle _ i => Or.imp_left (hle i)) h hle

/-- A native function gives and calls only such native functions as it was given, whenever it is
called with as many arguments as it takes. -/
def Native.Confined (n : Native) : Prop :=
  ∀ args, args.length = n.arity → (n.act args).Confined fun i => ∃ v ∈ args, v.native? = some i

theorem Native.Plain.confined {n : Native} (h : n.Plain) : n.Confined := by
  intro args hlength
  refine h.obeys (fun given v hv => Value.within_of_none ?_) (fun _ _ => trivial) hlength _
  cases hv <;> rfl

end Lox
