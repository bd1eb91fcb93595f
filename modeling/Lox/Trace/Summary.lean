import Lox.Decimal.Fixed
import Lox.Decimal.Layout
import Lox.Instant
import Lox.Json.Basic
import Lox.Trace.Basic

set_option autoImplicit false
set_option relaxedAutoImplicit false

namespace Lox.Trace

open Text (lit)

/-- What is known of a trace. Names stand in byte order, each once, and an empty time is unknown. -/
structure Summary where
  run : Text := []
  events : Nat := 0
  calls : Nat := 0
  callsByName : List (Text × Nat) := []
  maxDepth : Int := 0
  start : Text := []
  stop : Text := []
  deriving DecidableEq

def countName (name : Text) : List (Text × Nat) → List (Text × Nat)
  | [] => [(name, 1)]
  | (k, n) :: r =>
    if k = name then (k, n + 1) :: r
    else if name.le k then (name, 1) :: (k, n) :: r
    else (k, n) :: countName name r

namespace Summary

/-- The summary with one more entry. The first start and the last end of a run count. -/
def add (s : Summary) (e : Entry) : Summary :=
  let s := { s with
    events := s.events + 1
    run := if s.run.isEmpty then e.run else s.run }
  if e.kind = EventKind.runStart.name then
    { s with start := if s.start.isEmpty then e.time else s.start }
  else if e.kind = EventKind.runEnd.name then { s with stop := e.time }
  else if e.kind = EventKind.callStart.name then
    { s with
      calls := s.calls + 1
      callsByName := countName e.name s.callsByName
      maxDepth := max s.maxDepth e.depth }
  else s

/-- The summary of a trace file. -/
def read (c : Codec) (t : Text) : Summary := (entries c t).foldl add {}

def micros? (s : Summary) : Option Int := do
  let start ← Instant.read? s.start
  let stop ← Instant.read? s.stop
  return (Instant.elapsed start stop).tdiv 1000

def millis (s : Summary) : Float := Float.ofInt (s.micros?.getD 0) / 1000

def toJson (s : Summary) : Json :=
  let time (name : String) (t : Text) : List (Text × Json) :=
    if t.isEmpty then [] else [(lit name, .string t)]
  .object <|
    [(lit "runId", .string s.run), (lit "totalEvents", .int s.events), (lit "calls", .int s.calls),
      (lit "callsByName", .object (s.callsByName.map fun (k, n) => (k, .int n))),
      (lit "maxDepth", .int s.maxDepth)] ++
    time "startTime" s.start ++ time "endTime" s.stop ++
    [(lit "durationMs", .number (Decimal.literal s.millis))]

def pretty (s : Summary) : Text :=
  let row : Text × Nat → Text := fun (k, n) => lit "  " ++ k ++ lit ": " ++ .ofNat n ++ lit "\n"
  lit "Run: " ++ s.run ++ lit "\nEvents: " ++ .ofNat s.events ++
    lit "\nCalls: " ++ .ofNat s.calls ++ lit " (max depth " ++ .ofInt s.maxDepth ++ lit ")\n" ++
    s.callsByName.flatMap row ++
    (if 0 < s.millis then lit "Duration: " ++ Decimal.fixed 3 s.millis ++ lit "ms\n" else [])

end Summary
end Lox.Trace
