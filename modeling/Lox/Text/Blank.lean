import Lox.Text.Rune

set_option autoImplicit false
set_option relaxedAutoImplicit false

namespace Lox.Text

def isBlankScalar (n : Nat) : Bool :=
  (9 ≤ n && n ≤ 13) || n == 0x20 || n == 0x85 || n == 0xA0 || n == 0x1680 ||
  (0x2000 ≤ n && n ≤ 0x200A) || n == 0x2028 || n == 0x2029 || n == 0x202F || n == 0x205F ||
  n == 0x3000

def isBlankPiece : Rune × Text → Bool
  | (.scalar n, _) => isBlankScalar n
  | (.stray _, _) => false

def trim (t : Text) : Text :=
  let inner := ((pieces t).dropWhile isBlankPiece).reverse.dropWhile isBlankPiece
  inner.reverse.flatMap Prod.snd

end Lox.Text
