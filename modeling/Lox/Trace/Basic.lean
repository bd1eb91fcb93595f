import Lox.Run.Machine
import Lox.Text.Blank

set_option autoImplicit false
set_option relaxedAutoImplicit false

namespace Lox

open Text (lit)

def EventKind.name : EventKind → Text
  | runStart => lit "run_start"
  | runEnd => lit "run_end"
  | callStart => lit "call_start"
  | callEnd => lit "call_end"

namespace Trace

/-- An event with the time and the run it belongs to. -/
structure Stamped where
  time : Text
  run : Text
  event : Event

/-- What a line of a trace file says. -/
structure Entry where
  time : Text := []
  run : Text := []
  kind : Text := []
  name : Text := []
  depth : Int := 0
  deriving DecidableEq

def Stamped.entry (x : Stamped) : Entry where
  time := x.time
  run := x.run
  kind := x.event.kind.name
  name := x.event.name
  depth := x.event.depth

/-- How events are written as lines, and what lines are read as. -/
structure Codec where
  encode : Stamped → Text
  decode : Text → Option Entry

/-- The text of a trace file. -/
def write (c : Codec) (xs : List Stamped) : Text :=
  xs.flatMap fun x => c.encode x ++ [Byte.lineFeed]

/-- The lines of a text without their ends; a last line may lack its end. -/
def lines : Text → List Text
  | [] => []
  | b :: r =>
    if b = Byte.lineFeed then [] :: lines r
    else match lines r with
      | [] => [[b]]
      | l :: ls => (b :: l) :: ls

/-- Lines of this many bytes and more are not read, nor is anything after them. -/
def lineLimit : Nat := 65536

def readLine? (c : Codec) (l : Text) : Option Entry :=
  if l.trim.isEmpty then none else c.decode l.trim

def entries (c : Codec) (t : Text) : List Entry :=
  ((lines t).takeWhile fun l => l.length < lineLimit).filterMap (readLine? c)

end Trace
end Lox
