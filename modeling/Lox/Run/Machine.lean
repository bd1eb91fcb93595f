import Lox.Run.Failure
import Lox.Value.Heap

set_option autoImplicit false
set_option relaxedAutoImplicit false

namespace Lox

/-- The kinds of trace events. -/
inductive EventKind
  | runStart
  | runEnd
  | callStart
  | callEnd
  deriving DecidableEq

/-- A trace event: what began or ended, where, under which name, and at which depth of calls. -/
structure Event where
  kind : EventKind
  span : Span
  name : Text
  depth : Nat
  deriving DecidableEq

/-- What a native function does: give a value, fail, or take one step and go on. Left out are native
functions that keep a state between calls, and ones that read or change the heap and the globals by
other means than calling a value. -/
inductive Action
  | give (v : Value)
  | fail (f : Failure)
  /-- Writes a line; going on, it knows why that failed if it did. -/
  | write (line : Text) (next : Option Text → Action)
  /-- Reads the clock, which stands still during a run. -/
  | clock (next : Float → Action)
  | cancel (next : Action)
  /-- Calls a value back. Going on, it knows the result, or that the value takes another number of
  arguments: too many are not taken either, where a function could do without the surplus. -/
  | invoke (callee : Value) (args : List Value) (next : Option (Except Failure Value) → Action)

/-- A native function. What it does depends on nothing but its arguments and the answers to its
steps. -/
structure Native where
  name : Text
  arity : Nat
  act : List Value → Action

/-- What is fixed during a run: how deep calls may go, the native functions, whether events are
recorded, why output fails if it does, and the time. -/
structure Settings where
  limit : Nat
  natives : Array Native
  traced : Bool := false
  outputFault : Option Text := none
  time : Float := 0

/-- What changes during a run. Output and events are kept latest first. -/
structure Machine where
  heap : Heap
  calls : Nat := 0
  depth : Nat := 0
  peak : Nat := 0
  output : List Text := []
  events : List Event := []
  canceled : Bool := false

/-- How a run ended. -/
inductive Outcome (α : Type)
  | done (value : α) (m : Machine)
  | failed (f : Failure) (m : Machine)
  | exhausted (m : Machine)

def Outcome.machine {α : Type} : Outcome α → Machine
  | done _ m | failed _ m | exhausted m => m

def Run (α : Type) := Machine → Outcome α

namespace Run

@[always_inline, inline]
def give {α : Type} (a : α) : Run α := fun m => .done a m

@[always_inline, inline]
def andThen {α β : Type} (x : Run α) (k : α → Run β) : Run β := fun m =>
  match x m with
  | .done a m' => k a m'
  | .failed f m' => .failed f m'
  | .exhausted m' => .exhausted m'

instance : Monad Run where
  pure := give
  bind := andThen

def exhaust {α : Type} : Run α := fun m => .exhausted m

def fail {α : Type} (f : Failure) : Run α := fun m => .failed f m

def error {α : Type} (e : RuntimeError) (span : Span) : Run α := fail (.runtime e (some span))

def broken {α : Type} (e : InternalError) (span : Span) : Run α := fail (.internal e (some span))

@[inline]
def look {α : Type} (f : Heap → α) : Run α := fun m =>
  let a := f m.heap
  .done a m

@[inline]
def change (f : Heap → Heap) : Run Unit := fun m => .done () { m with heap := f m.heap }

def newFrame (parent : FrameId) (bindings : Bindings) : Run FrameId := fun m =>
  let (e, heap) := m.heap.child parent bindings
  .done e { m with heap }

def freshId : Run Nat := fun m =>
  let (i, heap) := m.heap.freshId
  .done i { m with heap }

def newObject (c : Class) : Run Value := fun m =>
  let (i, heap) := m.heap.newObject
  .done (.object i c) { m with heap }

def bound (f : Function) (receiver : Value) : Run Value := do
  return .method (← freshId) f receiver

def write (st : Settings) (line : Text) : Run (Option Text) := fun m =>
  match st.outputFault with
  | some reason => .done (some reason) m
  | none => .done none { m with output := (line ++ [Byte.lineFeed]) :: m.output }

def emit (st : Settings) (kind : EventKind) (span : Span) (name : Text) : Run Unit := fun m =>
  if st.traced then .done () { m with events := { kind, span, name, depth := m.depth } :: m.events }
  else .done () m

def checkCanceled (span : Span) : Run Unit := fun m =>
  if m.canceled then .failed (.runtime .canceled (some span)) m else .done () m

end Run

namespace Machine

def enter (m : Machine) : Machine :=
  { m with calls := m.calls + 1, depth := m.depth + 1, peak := max m.peak (m.depth + 1) }

def leave (m : Machine) : Machine := { m with depth := m.depth - 1 }

/-- Everything written so far. -/
def written (m : Machine) : Text := m.output.reverse.flatten

end Machine
end Lox
