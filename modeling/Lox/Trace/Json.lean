import Lox.Diagnostic
import Lox.Json.Reader
import Lox.Trace.Summary

set_option autoImplicit false
set_option relaxedAutoImplicit false

namespace Lox.Trace

open Text (lit)

/-- An event as a JSON object, with the time and the run it belongs to. An empty name and depth zero
are left out. -/
def eventJson (time run : Text) (e : Event) : Json :=
  .object <|
    [(lit "ts", .string time), (lit "runId", .string run), (lit "event", .string e.kind.name),
      (lit "span", Diagnostic.spanJson e.span)] ++
    (if e.name.isEmpty then [] else [(lit "name", .string e.name)]) ++
    (if e.depth = 0 then [] else [(lit "depth", .int e.depth)])

/-- A character in the form that all its cases share, as far as it concerns the letters of ASCII. -/
def foldScalar (n : Nat) : Nat :=
  if n = 0x17F then 115
  else if n = 0x212A then 107
  else if 65 ≤ n && n ≤ 90 then n + 32
  else n

def foldName (t : Text) : Text := t.runes.flatMap fun r => Text.ofScalar (foldScalar r.shown)

def stringOr? (former : Text) : Json → Option Text
  | .null => some former
  | .string t => some t
  | _ => none

def integer? (t : Text) : Option Int :=
  let value (ds : Text) : Nat := ds.foldl (fun n b => n * 10 + (b.toNat - 48)) 0
  match t with
  | 45 :: ds => if ds.all Byte.isDigit then some (-(value ds : Int)) else none
  | ds => if ds.all Byte.isDigit then some (value ds) else none

/-- The integer of 64 bits of a member, or the former one if it is null. -/
def integerOr? (former : Int) : Json → Option Int
  | .null => some former
  | .number t =>
    match integer? t with
    | some n => if Int64.minValue.toInt ≤ n && n ≤ Int64.maxValue.toInt then some n else none
    | none => none
  | _ => none

def isSpanMember (m : Text × Json) : Bool :=
  let k := foldName m.1
  if k = lit "file" then (stringOr? [] m.2).isSome
  else if k = lit "startline" || k = lit "startcol" || k = lit "endline" || k = lit "endcol" then
    (integerOr? 0 m.2).isSome
  else true

def isSpan : Json → Bool
  | .null => true
  | .object ms => ms.all isSpanMember
  | _ => false

def Entry.add (e : Entry) (m : Text × Json) : Option Entry :=
  let k := foldName m.1
  if k = lit "ts" then (stringOr? e.time m.2).map fun t => { e with time := t }
  else if k = lit "runid" then (stringOr? e.run m.2).map fun t => { e with run := t }
  else if k = lit "event" then (stringOr? e.kind m.2).map fun t => { e with kind := t }
  else if k = lit "name" then (stringOr? e.name m.2).map fun t => { e with name := t }
  else if k = lit "depth" then (integerOr? e.depth m.2).map fun n => { e with depth := n }
  else if k = lit "span" then (if isSpan m.2 then some e else none)
  else some e

def Entry.ofJson? : Json → Option Entry
  | .null => some {}
  | .object ms => ms.foldlM Entry.add {}
  | _ => none

def Codec.json : Codec where
  encode x := (eventJson x.time x.run x.event).write
  decode t := (Json.read? t).bind Entry.ofJson?

def Summary.ofText (t : Text) : Summary := read .json t

end Lox.Trace
