import Lox.Decimal.Binary
import Lox.Text.Basic

set_option autoImplicit false
set_option relaxedAutoImplicit false

namespace Lox.Decimal

open Text (lit)

/-- `n` units of the last place, with `places` digits after the point. -/
def pointed (places n : Nat) : Text :=
  let frac := Text.ofNat (n % Nat.pow 10 places)
  Text.ofNat (n / Nat.pow 10 places) ++
    (if places = 0 then [] else Byte.dot :: List.replicate (places - frac.length) 48 ++ frac)

def fixed (places : Nat) (x : Float) : Text :=
  match shape x with
  | .nan => lit "NaN"
  | .infinite negative => lit (if negative then "-Inf" else "+Inf")
  | .finite negative m q =>
    lit (if negative then "-" else "") ++
      pointed places (roundDiv (m * scaleUp 2 q * Nat.pow 10 places) (scaleUp 2 (-q)))

end Lox.Decimal
