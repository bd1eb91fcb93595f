import Lox.Decimal.Binary

set_option autoImplicit false
set_option relaxedAutoImplicit false

namespace Lox.Decimal

def digitCount (n : Nat) : Nat := (Nat.toDigits 10 n).length

def leadingExponent (num den : Nat) : Int :=
  if den ≤ num then (digitCount (num / den) : Int) - 1
  else -(digitCount ((den - 1) / num) : Int)

/-- A positive decimal: the digits, leading one first, and the place of the point before them. -/
structure Digits where
  digits : List Nat
  point : Int
  deriving DecidableEq

def Digits.ofScaled (c : Nat) (k : Int) : Digits :=
  let ds := (Nat.toDigits 10 c).map fun d => d.toNat - 48
  { digits := (ds.reverse.dropWhile (· == 0)).reverse
    point := ds.length + k }

/-- The quarter units below the value that still read back: one at a power of two, else two. -/
def roomBelow (m : Nat) (q : Int) : Nat :=
  if m = Nat.pow 2 52 ∧ q ≠ -1074 then 1 else 2

/-- A hit among the decimals that are multiples of `10^k`, if the nearest multiples hold one. -/
def hit? (m : Nat) (q k : Int) : Option Nat :=
  let unit := scaleUp 10 k * scaleUp 2 (2 - q)
  let scale := scaleUp 10 (-k) * scaleUp 2 (q - 2)
  let value := 4 * m * scale
  let low := (4 * m - roomBelow m q) * scale
  let high := (4 * m + 2) * scale
  let inside (c : Nat) : Bool :=
    if m % 2 = 0 then low ≤ c * unit && c * unit ≤ high
    else low < c * unit && c * unit < high
  let down := value / unit
  let up := down + 1
  if inside down then
    if inside up then some (roundDiv value unit) else some down
  else if inside up then some up
  else none

/-- The first hit with at least `n` digits, trying `count` more digits after them. -/
def search (m : Nat) (q lead : Int) : Nat → Nat → Digits
  | 0, n =>
    let k := lead - n + 1
    .ofScaled (roundDiv (m * scaleUp 2 q * scaleUp 10 (-k)) (scaleUp 2 (-q) * scaleUp 10 k)) k
  | count + 1, n =>
    let k := lead - n + 1
    match hit? m q k with
    | some c => .ofScaled c k
    | none => search m q lead count (n + 1)

/-- The shortest decimal that reads back as m · 2^q, for positive m; zero has no digits. -/
def shortest (m : Nat) (q : Int) : Digits :=
  if m = 0 then { digits := [], point := 0 }
  else search m q (leadingExponent (m * scaleUp 2 q) (scaleUp 2 (-q))) 16 1

end Lox.Decimal
