set_option autoImplicit false
set_option relaxedAutoImplicit false

namespace Lox.Decimal

inductive Shape
  | nan
  | infinite (negative : Bool)
  | finite (negative : Bool) (m : Nat) (q : Int)
  deriving DecidableEq

def shape (x : Float) : Shape :=
  let bits := x.toBits.toNat
  let negative := bits / Nat.pow 2 63 == 1
  let e : Nat := bits / Nat.pow 2 52 % 2048
  let f : Nat := bits % Nat.pow 2 52
  if e = 2047 then (if f = 0 then .infinite negative else .nan)
  else if e = 0 then .finite negative f (-1074)
  else .finite negative (f + Nat.pow 2 52) ((e : Int) - 1075)

def scaleUp (base : Nat) (e : Int) : Nat := Nat.pow base e.toNat

/-- The quotient to the nearest natural number, a half to the even neighbour. -/
def roundDiv (num den : Nat) : Nat :=
  let d := num / den
  let twice := 2 * (num % den)
  if twice < den then d else if den < twice then d + 1 else d + d % 2

/-- The exponent q at which `num / den` has a mantissa of 53 bits, or the least exponent there is.
-/
def exponentFor (num den : Nat) : Int :=
  let guess : Int := (num.log2 : Int) - den.log2 - 53
  let fits := num * scaleUp 2 (-guess) / (den * scaleUp 2 guess) < Nat.pow 2 53
  max (if fits then guess else guess + 1) (-1074)

/-- The bits of m · 2^q, where m is below 2^53 or equal to it, and below 2^52 only for the least q.
-/
def encode (m : Nat) (q : Int) : Option Nat :=
  let bits := m + (q + 1074).toNat * Nat.pow 2 52
  if bits < 2047 * Nat.pow 2 52 then some bits else none

/-- The bits of the number nearest to the fraction `num / den`, unless it is too large. -/
def nearestBits? (num den : Nat) : Option Nat :=
  if num = 0 then some 0
  else
    let q := exponentFor num den
    encode (roundDiv (num * scaleUp 2 (-q)) (den * scaleUp 2 q)) q

def ofMagnitude (negative : Bool) (bits : Nat) : Float :=
  Float.ofBits (bits + if negative then Nat.pow 2 63 else 0).toUInt64

end Lox.Decimal
