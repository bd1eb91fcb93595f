set_option autoImplicit false
set_option relaxedAutoImplicit false

namespace Lox

/-- A byte string. -/
abbrev Text := List UInt8

namespace Byte

@[match_pattern] abbrev tab : UInt8 := 9
@[match_pattern] abbrev lineFeed : UInt8 := 10
@[match_pattern] abbrev carriageReturn : UInt8 := 13
@[match_pattern] abbrev space : UInt8 := 32
@[match_pattern] abbrev quote : UInt8 := 34
@[match_pattern] abbrev star : UInt8 := 42
@[match_pattern] abbrev dot : UInt8 := 46
@[match_pattern] abbrev slash : UInt8 := 47
@[match_pattern] abbrev underscore : UInt8 := 95

def isDigit (b : UInt8) : Bool := 48 ≤ b && b ≤ 57

def isLetter (b : UInt8) : Bool :=
  (97 ≤ b && b ≤ 122) || (65 ≤ b && b ≤ 90) || b == underscore

def isNamePart (b : UInt8) : Bool := isLetter b || isDigit b

/-- The lower-case form of an ASCII letter; every other byte is unchanged. -/
def lower (b : UInt8) : UInt8 := if 65 ≤ b && b ≤ 90 then b + 32 else b

def hexValue? (b : UInt8) : Option Nat :=
  if isDigit b then some (b.toNat - 48)
  else
    let l := lower b
    if 97 ≤ l && l ≤ 102 then some (l.toNat - 87) else none

def hexDigit (n : Nat) : UInt8 := (if n < 10 then n + 48 else n + 87).toUInt8

end Byte

namespace Text

def lit (s : String) : Text := s.toByteArray.data.toList

def ofNat (n : Nat) : Text := (Nat.toDigits 10 n).map fun c => c.toNat.toUInt8

/-- The decimal numeral of an integer, with a minus sign when it is negative. -/
def ofInt : Int → Text
  | .ofNat n => ofNat n
  | .negSucc n => lit "-" ++ ofNat (n + 1)

/-- The texts in order with a separator between neighbours. -/
def join (sep : Text) (parts : List Text) : Text := sep.intercalate parts

def toHex (t : Text) : Text :=
  t.flatMap fun b => [Byte.hexDigit (b.toNat / 16), Byte.hexDigit (b.toNat % 16)]

/-- The bytes written by pairs of hexadecimal digits, if the text consists of such pairs. -/
def ofHex? : Text → Option Text
  | [] => some []
  | [_] => none
  | a :: b :: r => do
    let hi ← Byte.hexValue? a
    let lo ← Byte.hexValue? b
    let rest ← ofHex? r
    return (hi * 16 + lo).toUInt8 :: rest

def startsWith (t head : Text) : Bool := head.isPrefixOf t

/-- The order of byte strings: the first difference decides, and a proper beginning comes first. -/
def le : Text → Text → Bool
  | [], _ => true
  | _ :: _, [] => false
  | a :: r, b :: s => if a = b then le r s else a < b

def sort (ts : List Text) : List Text := ts.mergeSort le

end Text
end Lox
