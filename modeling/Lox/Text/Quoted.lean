import Lox.Text.Printable
import Lox.Text.Rune

set_option autoImplicit false
set_option relaxedAutoImplicit false

namespace Lox.Text

/-- The lower-case hexadecimal digits of a number in a given number of places. -/
private def hexPlaces (n : Nat) : Nat → Text
  | 0 => []
  | places + 1 => Byte.hexDigit (n / Nat.pow 16 places % 16) :: hexPlaces n places

private def quotedScalar (n : Nat) : Text :=
  if n = 34 then lit "\\\""
  else if n = 92 then lit "\\\\"
  else if isPrintable n then ofScalar n
  else if n = 7 then lit "\\a"
  else if n = 8 then lit "\\b"
  else if n = 12 then lit "\\f"
  else if n = 10 then lit "\\n"
  else if n = 13 then lit "\\r"
  else if n = 9 then lit "\\t"
  else if n = 11 then lit "\\v"
  else if n < 32 || n = 127 then lit "\\x" ++ hexPlaces n 2
  else if n < 0x10000 then lit "\\u" ++ hexPlaces n 4
  else lit "\\U" ++ hexPlaces n 8

def quoted (t : Text) : Text :=
  let body := (runes t).flatMap fun
    | .scalar n => quotedScalar n
    | .stray b => lit "\\x" ++ hexPlaces b.toNat 2
  Byte.quote :: body ++ [Byte.quote]

end Lox.Text
