import Lox.Value.Basic

set_option autoImplicit false
set_option relaxedAutoImplicit false

namespace Lox

/-- Names with their values, each name once, in the order in which they were first bound. -/
abbrev Bindings := List (Text × Value)

namespace Bindings

/-- With a name bound to a value, in place of its former value if it had one. -/
def bind (bs : List (Text × Value)) (name : Text) (v : Value) : Bindings :=
  match bs with
  | [] => [(name, v)]
  | (n, w) :: r => if n = name then (name, v) :: r else (n, w) :: bind r name v

end Bindings

/-- A frame: the frame around it, and its bindings. -/
structure Frame where
  parent : Option FrameId
  bindings : Bindings

/-- All frames, the fields of all objects, and the next number for a function or a class. -/
structure Heap where
  frames : Array Frame
  objects : Array Bindings
  fresh : Nat

namespace Heap

def globals : FrameId := 0

def initial (bindings : Bindings) : Heap :=
  { frames := #[{ parent := none, bindings }], objects := #[], fresh := 0 }

def child (h : Heap) (parent : FrameId) (bindings : Bindings) : FrameId × Heap :=
  (h.frames.size, { h with frames := h.frames.push { parent := some parent, bindings } })

def bindings (h : Heap) (e : FrameId) : Bindings :=
  match h.frames[e]? with
  | some f => f.bindings
  | none => []

def define (h : Heap) (e : FrameId) (name : Text) (v : Value) : Heap :=
  { h with frames := h.frames.modify e fun f =>
    { f with bindings := Bindings.bind f.bindings name v } }

def declare (h : Heap) (e : FrameId) (name : Text) : Heap :=
  if ((h.bindings e).lookup name).isSome then h else h.define e name .nil

/-- The frame a number of steps outward, if there are so many. -/
def ancestor? (h : Heap) : Nat → FrameId → Option FrameId
  | 0, e => some e
  | d + 1, e =>
    match h.frames[e]? with
    | some { parent := some p, .. } => ancestor? h d p
    | _ => none

/-- The value of a name in the frame a number of steps outward. Less than no step is no step. -/
def getAt? (h : Heap) (e : FrameId) (distance : Int) (name : Text) : Option Value :=
  match h.ancestor? distance.toNat e with
  | some a => (h.bindings a).lookup name
  | none => none

def holderAt? (h : Heap) (e : FrameId) (distance : Int) (name : Text) : Option FrameId :=
  match h.ancestor? distance.toNat e with
  | some a => if ((h.bindings a).lookup name).isSome then some a else none
  | none => none

/-- Changes a name that is bound in the frame a number of steps outward. -/
def assignAt? (h : Heap) (e : FrameId) (distance : Int) (name : Text) (v : Value) : Option Heap :=
  (h.holderAt? e distance name).map fun a => h.define a name v

def getWithin (h : Heap) (name : Text) : Nat → FrameId → Option Value
  | 0, _ => none
  | n + 1, e =>
    match h.frames[e]? with
    | none => none
    | some f =>
      match f.bindings.lookup name with
      | some v => some v
      | none =>
        match f.parent with
        | some p => getWithin h name n p
        | none => none

/-- The nearest value of a name, from a frame outward. -/
def get? (h : Heap) (e : FrameId) (name : Text) : Option Value := h.getWithin name h.frames.size e

/-- Changes the nearest binding of a name, at most a number of frames away. -/
def assignWithin (h : Heap) (name : Text) (v : Value) : Nat → FrameId → Option Heap
  | 0, _ => none
  | n + 1, e =>
    match h.frames[e]? with
    | none => none
    | some f =>
      if (f.bindings.lookup name).isSome then some (h.define e name v)
      else match f.parent with
        | some p => assignWithin h name v n p
        | none => none

/-- Changes the nearest binding of a name, from a frame outward. -/
def assign? (h : Heap) (e : FrameId) (name : Text) (v : Value) : Option Heap :=
  h.assignWithin name v h.frames.size e

def hasWithin (h : Heap) (name : Text) : Nat → FrameId → Bool
  | 0, _ => false
  | n + 1, e =>
    match h.frames[e]? with
    | none => false
    | some f =>
      (f.bindings.lookup name).isSome ||
        match f.parent with
        | some p => hasWithin h name n p
        | none => false

/-- Whether a name is bound in a frame or around it. -/
def has (h : Heap) (e : FrameId) (name : Text) : Bool := h.hasWithin name h.frames.size e

def names (h : Heap) (e : FrameId) : List Text := (h.bindings e).map Prod.fst

def newObject (h : Heap) : Nat × Heap :=
  (h.objects.size, { h with objects := h.objects.push [] })

def field? (h : Heap) (object : Nat) (name : Text) : Option Value :=
  match h.objects[object]? with
  | some fields => fields.lookup name
  | none => none

def setField (h : Heap) (object : Nat) (name : Text) (v : Value) : Heap :=
  { h with objects := h.objects.modify object fun fields => Bindings.bind fields name v }

def freshId (h : Heap) : Nat × Heap := (h.fresh, { h with fresh := h.fresh + 1 })

end Heap
end Lox
