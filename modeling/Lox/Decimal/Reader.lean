import Lox.Decimal.Binary
import Lox.Text.Basic

set_option autoImplicit false
set_option relaxedAutoImplicit false

namespace Lox.Decimal

open Text (lit)

def takeSign : Text → Bool × Text
  | 45 :: r => (true, r)
  | 43 :: r => (false, r)
  | t => (false, t)

inductive Base
  | ten
  | sixteen
  deriving DecidableEq

def Base.digit? : Base → UInt8 → Option Nat
  | .ten, b => if Byte.isDigit b then some (b.toNat - 48) else none
  | .sixteen, b => Byte.hexValue? b

def Base.value : Base → Nat
  | .ten => 10
  | .sixteen => 16

/-- The digits read so far: their value, how many of them follow the point, and what was seen. -/
structure Mantissa where
  value : Nat := 0
  places : Nat := 0
  sawDigit : Bool := false
  sawDot : Bool := false

/-- Reads digits, underscores and at most one point from the head of a text. -/
def Mantissa.read (base : Base) (acc : Mantissa) : Text → Mantissa × Text
  | [] => (acc, [])
  | b :: r =>
    if b = Byte.underscore then read base acc r
    else if b = Byte.dot && !acc.sawDot then read base { acc with sawDot := true } r
    else match base.digit? b with
      | some d =>
        read base { acc with
          value := acc.value * base.value + d
          places := acc.places + if acc.sawDot then 1 else 0
          sawDigit := true } r
      | none => (acc, b :: r)

/-- The value of the digits of an exponent. Digits past the fifth change nothing any more. -/
def exponentValue (acc : Nat) : Text → Nat × Text
  | [] => (acc, [])
  | b :: r =>
    if b = Byte.underscore then exponentValue acc r
    else if Byte.isDigit b then
      exponentValue (if acc < 10000 then acc * 10 + (b.toNat - 48) else acc) r
    else (acc, b :: r)

/-- The exponent at the head of a text: a sign and at least one digit. -/
def exponent? (t : Text) : Option (Int × Text) :=
  let (negative, r) := takeSign t
  match r with
  | b :: _ =>
    if Byte.isDigit b then
      let (e, rest) := exponentValue 0 r
      some (if negative then -(e : Int) else e, rest)
    else none
  | [] => none

/-- What stood before a place in a numeral, for the rule on underscores. -/
inductive Before
  | start
  | digit
  | underscore
  | other
  deriving DecidableEq

def underscoresOk (base : Base) (before : Before) : Text → Bool
  | [] => before != .underscore
  | b :: r =>
    if (base.digit? b).isSome then underscoresOk base .digit r
    else if b = Byte.underscore then before == .digit && underscoresOk base .underscore r
    else before != .underscore && underscoresOk base .other r

/-- The base of an unsigned numeral and its text after the mark of the base. -/
def takeBase : Text → Base × Text
  | 48 :: x :: c :: r =>
    if Byte.lower x = 120 then (.sixteen, c :: r) else (.ten, 48 :: x :: c :: r)
  | t => (.ten, t)

def tenPower? (value : Nat) (e : Int) : Option Nat :=
  let lead := ((Nat.toDigits 10 value).length : Int) + e
  if value = 0 || lead < -400 then some 0
  else if 400 < lead then none
  else nearestBits? (value * scaleUp 10 e) (scaleUp 10 (-e))

def twoPower? (value : Nat) (e : Int) : Option Nat :=
  let lead := (value.log2 : Int) + e
  if value = 0 || lead < -1200 then some 0
  else if 1200 < lead then none
  else nearestBits? (value * scaleUp 2 e) (scaleUp 2 (-e))

/-- Reads the digits and the exponent of an unsigned numeral that makes up the whole text. -/
def magnitude? (t : Text) : Option Nat :=
  let (base, body) := takeBase t
  let (mant, rest) := Mantissa.read base {} body
  let marked := match base with
    | .ten => underscoresOk .ten .start t
    | .sixteen => underscoresOk .sixteen .digit body
  if !mant.sawDigit || !marked then none
  else match base, rest with
    | .ten, [] => tenPower? mant.value (-mant.places)
    | .sixteen, [] => none
    | .ten, b :: r =>
      if Byte.lower b = 101 then
        match exponent? r with
        | some (e, []) => tenPower? mant.value (e - mant.places)
        | _ => none
      else none
    | .sixteen, b :: r =>
      if Byte.lower b = 112 then
        match exponent? r with
        | some (e, []) => twoPower? mant.value (e - 4 * mant.places)
        | _ => none
      else none

def read? (t : Text) : Option Float :=
  let (negative, body) := takeSign t
  let word := body.map Byte.lower
  if word = lit "inf" || word = lit "infinity" then
    some (ofMagnitude negative (2047 * Nat.pow 2 52))
  else if t.map Byte.lower = lit "nan" then
    some (ofMagnitude false (2047 * Nat.pow 2 52 + Nat.pow 2 51))
  else (magnitude? body).map (ofMagnitude negative)

end Lox.Decimal
