import Lox.Text.Basic

set_option autoImplicit false
set_option relaxedAutoImplicit false

namespace Lox

open Text (lit)

/-- An instant, as the nanoseconds since the year 0 began. -/
structure Instant where
  nanos : Int
  deriving DecidableEq

namespace Instant

def isLeap (year : Nat) : Bool := year % 4 == 0 && (year % 100 != 0 || year % 400 == 0)

def monthLengths (year : Nat) : List Nat :=
  [31, if isLeap year then 29 else 28, 31, 30, 31, 30, 31, 31, 30, 31, 30, 31]

def daysBefore (year : Nat) : Nat :=
  365 * year + (year + 3) / 4 + (year + 399) / 400 - (year + 99) / 100

def dayNumber? (year month day : Nat) : Option Nat := do
  if month = 0 || day = 0 then none
  let length ← (monthLengths year)[month - 1]?
  if length < day then none
  return daysBefore year + ((monthLengths year).take (month - 1)).foldl (· + ·) 0 + (day - 1)

def second : Nat := 1000000000

def day : Nat := 86400

private def numeral (ds : Text) : Nat := ds.foldl (fun n b => n * 10 + (b.toNat - 48)) 0

/-- A number of exactly `n` digits that is at most `bound`, and the rest. -/
private def number? (n bound : Nat) (t : Text) : Option (Nat × Text) :=
  let ds := t.take n
  if ds.length = n && ds.all Byte.isDigit && numeral ds ≤ bound then some (numeral ds, t.drop n)
  else none

private def separator? (b : UInt8) : Text → Option Text
  | c :: r => if b = c then some r else none
  | [] => none

/-- A number of one or two digits that is at most `bound`, and the rest. -/
private def short? (bound : Nat) (t : Text) : Option (Nat × Text) :=
  match t with
  | _ :: b :: _ => number? (if Byte.isDigit b then 2 else 1) bound t
  | _ => number? 1 bound t

/-- The nanoseconds of a fraction after a point or comma. Digits beyond the ninth do not count, and
a separator without digits is left alone. -/
private def fraction (t : Text) : Nat × Text :=
  match t with
  | b :: d :: r =>
    if (b == Byte.dot || b == 44) && Byte.isDigit d then
      let ds := (d :: r).takeWhile Byte.isDigit
      (numeral ((ds ++ List.replicate 9 48).take 9), (d :: r).dropWhile Byte.isDigit)
    else (0, t)
  | _ => (0, t)

private def offset? : Text → Option (Int × Text)
  | 90 :: r => some (0, r)
  | b :: r => do
    let (h, r) ← number? 2 24 r
    let r ← separator? 58 r
    let (m, r) ← number? 2 60 r
    let s : Nat := (h * 60 + m) * 60
    if b = 43 then return ((s : Int), r)
    else if b = 45 then return (-(s : Int), r)
    else none
  | [] => none

def read? (t : Text) : Option Instant := do
  let (year, r) ← number? 4 9999 t
  let r ← separator? 45 r
  let (month, r) ← number? 2 12 r
  let r ← separator? 45 r
  let (dayOfMonth, r) ← number? 2 31 r
  let r ← separator? 84 r
  let (h, r) ← short? 23 r
  let r ← separator? 58 r
  let (m, r) ← number? 2 59 r
  let r ← separator? 58 r
  let (s, r) ← number? 2 59 r
  let (ns, r) := fraction r
  let (shift, r) ← offset? r
  let days ← dayNumber? year month dayOfMonth
  if r.isEmpty then
    let seconds : Nat := days * day + (h * 60 + m) * 60 + s
    return ⟨((seconds : Int) - shift) * second + ns⟩
  else none

/-- The rest after a date whose month and day may lack their leading zeros. -/
private def afterDate? (t : Text) : Option Text := do
  let (year, r) ← number? 4 9999 t
  let r ← separator? 45 r
  let (month, r) ← short? 12 r
  let r ← separator? 45 r
  let (dayOfMonth, r) ← short? 31 r
  let _ ← dayNumber? year month dayOfMonth
  return r

/-- The rest after a time of day whose numbers may lack their leading zeros. -/
private def afterTime? (t : Text) : Option Text := do
  let (_, r) ← short? 23 t
  let r ← separator? 58 r
  let (_, r) ← short? 59 r
  let r ← separator? 58 r
  let (_, r) ← short? 59 r
  return (fraction r).2

/-- Whether a text is a date, alone or before a time of day. Numbers may lack their leading zeros. A
time after the letter T has an offset from universal time, and one after blanks has none. -/
def isStamp (t : Text) : Bool :=
  match afterDate? t with
  | some [] => true
  | some (b :: r) =>
    if b = Byte.space then afterTime? (r.dropWhile (· == Byte.space)) == some []
    else (Byte.lower b == 116) && ((afterTime? r).bind offset?).map Prod.snd == some []
  | none => false

private def monthAndDay : List Nat → Nat → Nat → Nat × Nat
  | [], month, d => (month, d + 1)
  | n :: r, month, d => if d < n then (month, d + 1) else monthAndDay r (month + 1) (d - n)

private def yearOf (d : Nat) : Nat :=
  let guess := d * 400 / 146097
  if d < daysBefore guess then guess - 1
  else if daysBefore (guess + 1) ≤ d then guess + 1
  else guess

private def padded (width n : Nat) : Text :=
  let ds := Text.ofNat n
  List.replicate (width - ds.length) 48 ++ ds

private def fractionText (ns : Nat) : Text :=
  if ns = 0 then []
  else Byte.dot :: ((padded 9 ns).reverse.dropWhile (· == 48)).reverse

def write (t : Instant) : Text :=
  let ns := t.nanos.toNat
  let s := ns / second
  let d := s / day
  let year := yearOf d
  let (month, dayOfMonth) := monthAndDay (monthLengths year) 1 (d - daysBefore year)
  padded 4 year ++ lit "-" ++ padded 2 month ++ lit "-" ++ padded 2 dayOfMonth ++ lit "T" ++
    padded 2 (s / 3600 % 24) ++ lit ":" ++ padded 2 (s / 60 % 60) ++ lit ":" ++ padded 2 (s % 60) ++
    fractionText (ns % second) ++ lit "Z"

def ofEpoch (nanos : Int) : Instant := ⟨(daysBefore 1970 * day * second : Nat) + nanos⟩

def elapsed (start stop : Instant) : Int :=
  max Int64.minValue.toInt (min Int64.maxValue.toInt (stop.nanos - start.nanos))

end Instant
end Lox
