import Lox.Decimal.Reader
import Lox.Instant
import Lox.Yaml.Basic

set_option autoImplicit false
set_option relaxedAutoImplicit false

namespace Lox.Yaml

open Text (lit)

inductive Meaning
  | null
  | bool (value : Bool)
  | int (value : Int)
  | float (value : Float)
  | date
  | merge
  | string

namespace Meaning

def tag : Meaning → Text
  | null => lit "!!null"
  | bool _ => lit "!!bool"
  | int _ => lit "!!int"
  | float _ => lit "!!float"
  | date => lit "!!timestamp"
  | merge => lit "!!merge"
  | string => lit "!!str"

private def fixed? (t : Text) : Option Meaning :=
  let among (ws : List String) : Bool := ws.any fun w => lit w == t
  if among ["", "~", "null", "Null", "NULL"] then some null
  else if among ["true", "True", "TRUE"] then some (bool true)
  else if among ["false", "False", "FALSE"] then some (bool false)
  else if among [".nan", ".NaN", ".NAN"] then some (float (0.0 / 0.0))
  else if among [".inf", ".Inf", ".INF", "+.inf", "+.Inf", "+.INF"] then some (float (1.0 / 0.0))
  else if among ["-.inf", "-.Inf", "-.INF"] then some (float (-1.0 / 0.0))
  else if among ["<<"] then some merge
  else none

private def digits? (base : Nat) (ds : Text) : Option Nat :=
  if ds.isEmpty then none
  else ds.foldlM (fun n b => do
    let d ← Byte.hexValue? b
    if d < base then some (n * base + d) else none) 0

/-- A natural number; a leading zero or a letter after it tells the base. -/
private def natural? : Text → Option Nat
  | 48 :: b :: r =>
    let l := Byte.lower b
    if l = 120 then digits? 16 r
    else if l = 98 then digits? 2 r
    else if l = 111 then digits? 8 r
    else digits? 8 (b :: r)
  | t => digits? 10 t

/-- The integer of the given sign and amount if it lies within 64 bits, up to the given bound. -/
private def bounded? (top : Int) (negative : Bool) (n : Nat) : Option Int :=
  let z : Int := if negative then -n else n
  if Int64.minValue.toInt ≤ z && z ≤ top then some z else none

private def integer? (t : Text) : Option Int := do
  let (negative, ds) := Decimal.takeSign t
  let n ← natural? ds
  bounded? (if t.head? = some 43 then Int64.maxValue.toInt else UInt64.size - 1) negative n

private def lateSigned? : Text → Option Int
  | 48 :: b :: r => do
    let base ← if b = 98 then some 2 else if b = 111 then some 8 else none
    let (negative, ds) := Decimal.takeSign r
    let n ← digits? base ds
    bounded? Int64.maxValue.toInt negative n
  | _ => none

/-- The text after digits and a point with digits, as far as these stand there. -/
private def afterMantissa? (t : Text) : Option Text :=
  let rest := t.dropWhile Byte.isDigit
  match rest with
  | 46 :: r =>
    if rest.length < t.length || (r.head?.map Byte.isDigit).getD false then
      some (r.dropWhile Byte.isDigit)
    else none
  | _ => if rest.length < t.length then some rest else none

private def isDecimal (t : Text) : Bool :=
  match afterMantissa? (Decimal.takeSign t).2 with
  | some [] => true
  | some (e :: r) =>
    let ds := (Decimal.takeSign r).2
    Byte.lower e == 101 && !ds.isEmpty && ds.all Byte.isDigit
  | none => false

private def ofNumeral (t : Text) : Meaning :=
  let bare := t.filter (· != Byte.underscore)
  if Instant.isStamp t then date
  else match integer? bare with
    | some n => int n
    | none =>
      match (if isDecimal bare then Decimal.read? bare else none), lateSigned? bare with
      | some x, _ => float x
      | none, some n => int n
      | none, none => string

def ofPlain (t : Text) : Meaning :=
  match fixed? t, t with
  | some m, _ => m
  | none, b :: _ =>
    if Byte.isDigit b || b = 43 || b = 45 then ofNumeral t
    else if b = 46 then
      match Decimal.read? t with
      | some x => float x
      | none => string
    else string
  | none, [] => null

def of (quoted : Bool) (t : Text) : Meaning := if quoted then string else ofPlain t

end Meaning
end Lox.Yaml
