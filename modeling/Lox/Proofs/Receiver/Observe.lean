import Lox.Proofs.Notes.Evaluator

set_option autoImplicit false
set_option relaxedAutoImplicit false

namespace Lox

open Text (lit)

namespace Class

def superclass : Class → Option Class
  | mk _ _ sup _ _ => sup

/-- The methods that a class declares itself, or its static methods. -/
def own (ofClass : Bool) : Class → List (Text × Function)
  | mk _ _ _ methods statics => if ofClass then statics else methods

/-- The nearest definition of a method with a name, or of a static method, from a class upward. -/
inductive Nearest (ofClass : Bool) (name : Text) : Class → Function → Prop
  | own {c : Class} {f : Function} : (c.own ofClass).lookup name = some f → Nearest ofClass name c f
  | inherited {c sup : Class} {f : Function} : (c.own ofClass).lookup name = none →
      c.superclass = some sup → Nearest ofClass name sup f → Nearest ofClass name c f

end Class

/-- The call of a method: the class that declared the method, and the receiver. -/
structure Activation where
  owner : Class
  receiver : Value

/-- What is as it should be. `this` is the receiver. `super` is the nearest method above the class
that declared the method around, bound to the receiver, or there is no such method. The call of a
method begins an activation of a class that declares the method. An initializer gives its receiver,
and the making of an object gives the object. -/
def Sighting.Right : Sighting (Option Activation) → Prop
  | this a m o => ∃ act, a = some act ∧ o = .done act.receiver m
  | super a name span m o => ∃ act sup, a = some act ∧ act.owner.superclass = some sup ∧
      ((∃ f i m', Class.Nearest act.receiver.isClass name sup f ∧
          o = .done (.method i f act.receiver) m') ∨
        (∀ f, ¬ Class.Nearest act.receiver.isClass name sup f) ∧
          o = .failed (.runtime (.undefinedProperty name) (some span)) m)
  | call f receiver a o => ∃ owner, a = some ⟨owner, receiver⟩ ∧
      (∃ ofClass name, (name, f) ∈ owner.own ofClass) ∧
      ((lit "init", f) ∈ owner.own false → ∀ v m, o = .done v m → v = receiver)
  | construction object o => ∀ v m, o = .done v m → v = object

/-- Where the functions of a run come from: the activation in which each function was made, and the
class that declared each method. -/
structure Origins where
  made : List (Nat × Option Activation) := []
  declared : List (Nat × Class) := []

namespace Origins

def home (ρ : Origins) (f : Function) : Option Activation := (ρ.made.lookup f.id).getD none

def activation (ρ : Origins) (f : Function) (receiver : Value) : Option Activation :=
  (ρ.declared.lookup f.id).map fun owner => { owner, receiver }

def make (ρ : Origins) (f : Function) (a : Option Activation) : Origins :=
  { ρ with made := (f.id, a) :: ρ.made }

def declare (ρ : Origins) (members : List (Text × Function)) (c : Class) : Origins :=
  { ρ with declared := members.map (fun e => (e.2.id, c)) ++ ρ.declared }

end Origins

/-- What is noted of a run that is observed. -/
inductive Observation
  | saw (x : Sighting (Option Activation))
  | made (f : Function) (a : Option Activation)
  | declared (members : List (Text × Function)) (c : Class)

abbrev Record := List Observation

namespace Record

def note (ρ : Origins) : Observation → Origins
  | .saw _ => ρ
  | .made f a => ρ.make f a
  | .declared members c => ρ.declare members c

def origins (ρ : Record) : Origins := ρ.foldl note {}

/-- What was seen, according to a record. -/
def seen (ρ : Record) : List (Sighting (Option Activation)) :=
  ρ.filterMap fun
    | .saw x => some x
    | _ => none

end Record

def observing : Scribe (Option Activation) Observation where
  outside := none
  home ρ := (Record.origins ρ).home
  activation ρ := (Record.origins ρ).activation
  notes
    | .saw x => [.saw x]
    | .made f a => [.made f a]
    | .declared members c => [.declared members c]
    | _ => []

namespace Observing

open Noted

variable {α : Type}

@[simp] theorem step (x : Run α) : observing.step x = quiet x :=
  Scribe.step_of_silent (fun _ => rfl) x

@[simp] theorem raise (told : List Failure) (f : Failure) :
    (observing.raise told f : Noted Observation α) = quiet (Run.fail f) :=
      Scribe.raise_of_silent rfl

@[simp] theorem write (st : Settings) (line : Text) :
    observing.write st line = quiet (Run.write st line) :=
  Scribe.write_of_silent rfl st

@[simp] theorem head (span : Span) : observing.head span = quiet (Run.checkCanceled span) := by
  rw [Scribe.head_of_silent (fun _ => rfl) fun _ => rfl, step]

@[simp] theorem enter (span : Span) :
    (observing.note fun m => .body span m.canceled) = quiet (Run.give ()) :=
  Scribe.note_of_silent fun _ => rfl

end Observing

end Lox
