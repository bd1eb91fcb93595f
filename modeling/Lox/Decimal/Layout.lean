import Lox.Decimal.Shortest
import Lox.Text.Basic

set_option autoImplicit false
set_option relaxedAutoImplicit false

namespace Lox.Decimal

open Text (lit)

def written (ds : List Nat) : Text := ds.map fun d => (d + 48).toUInt8

def zeros (n : Int) : Text := List.replicate n.toNat 48

def positional (d : Digits) : Text :=
  if d.digits.isEmpty then lit "0"
  else if d.point ≤ 0 then lit "0." ++ zeros (-d.point) ++ written d.digits
  else
    let whole := d.point.toNat
    let frac := d.digits.drop whole
    written (d.digits.take whole) ++ zeros (d.point - d.digits.length) ++
      (if frac.isEmpty then [] else Byte.dot :: written frac)

private def exponentMark (e : Int) : Text :=
  let n := Text.ofNat e.natAbs
  lit (if e < 0 then "e-" else "e+") ++ (if n.length < 2 then lit "0" ++ n else n)

def scientific (d : Digits) : Text :=
  match d.digits with
  | [] => lit "0e+00"
  | h :: t =>
    written [h] ++ (if t.isEmpty then [] else Byte.dot :: written t) ++ exponentMark (d.point - 1)

private def isPlainInteger (m : Nat) (q : Int) : Bool :=
  if q < 0 then m % scaleUp 2 (-q) == 0 && m / scaleUp 2 (-q) < Nat.pow 10 21
  else m * scaleUp 2 q < Nat.pow 10 21

def signed (negative : Bool) (t : Text) : Text := if negative then lit "-" ++ t else t

def print (x : Float) : Text :=
  match shape x with
  | .nan => lit "NaN"
  | .infinite negative => signed negative (lit "Infinity")
  | .finite negative m q =>
    let d := shortest m q
    let lead := d.point - 1
    signed negative <|
      if isPlainInteger m q || (-4 ≤ lead && lead < 6) then positional d else scientific d

def literal (x : Float) : Text :=
  match shape x with
  | .nan => lit "NaN"
  | .infinite negative => lit (if negative then "-Inf" else "+Inf")
  | .finite negative m q => signed negative (positional (shortest m q))

end Lox.Decimal
