import Lox.Text.Basic

set_option autoImplicit false
set_option relaxedAutoImplicit false

namespace Lox.Text

/-- What stands at a place of a text: a character by its scalar value, or a byte that begins none.
-/
inductive Rune
  | scalar (value : Nat)
  | stray (byte : UInt8)
  deriving DecidableEq

def continuation? (lo hi : UInt8) (b : UInt8) : Option Nat :=
  if lo ≤ b && b ≤ hi then some (b.toNat % 64) else none

/-- The bounds for the second byte after the given first byte, with the number of bytes in all. -/
def lead? (b : UInt8) : Option (Nat × UInt8 × UInt8) :=
  if b < 0xC2 then none
  else if b < 0xE0 then some (2, 0x80, 0xBF)
  else if b = 0xE0 then some (3, 0xA0, 0xBF)
  else if b = 0xED then some (3, 0x80, 0x9F)
  else if b < 0xF0 then some (3, 0x80, 0xBF)
  else if b = 0xF0 then some (4, 0x90, 0xBF)
  else if b < 0xF4 then some (4, 0x80, 0xBF)
  else if b = 0xF4 then some (4, 0x80, 0x8F)
  else none

/-- The scalar value and width of the well-formed character that begins with byte `b`. -/
def multibyte? (b : UInt8) (r : Text) : Option (Nat × Nat) := do
  let (width, lo, hi) ← lead? b
  match width, r with
  | 2, c :: _ => do
    let x ← continuation? lo hi c
    return (b.toNat % 32 * 64 + x, 2)
  | 3, c :: d :: _ => do
    let x ← continuation? lo hi c
    let y ← continuation? 0x80 0xBF d
    return ((b.toNat % 16 * 64 + x) * 64 + y, 3)
  | 4, c :: d :: e :: _ => do
    let x ← continuation? lo hi c
    let y ← continuation? 0x80 0xBF d
    let z ← continuation? 0x80 0xBF e
    return (((b.toNat % 8 * 64 + x) * 64 + y) * 64 + z, 4)
  | _, _ => none

/-- What stands at the head of the text `b :: r`, and how many bytes it takes. -/
def headRune (b : UInt8) (r : Text) : Rune × Nat :=
  if b < 0x80 then (.scalar b.toNat, 1)
  else match multibyte? b r with
    | some (value, width) => (.scalar value, width)
    | none => (.stray b, 1)

/-- The bytes of a text after its first `skip` ones, cut into characters and stray bytes. -/
def piecesAfter : Nat → Text → List (Rune × Text)
  | _, [] => []
  | skip + 1, _ :: r => piecesAfter skip r
  | 0, b :: r =>
    let (rune, width) := headRune b r
    (rune, (b :: r).take width) :: piecesAfter (width - 1) r

def pieces (t : Text) : List (Rune × Text) := piecesAfter 0 t

def runes (t : Text) : List Rune := (pieces t).map Prod.fst

def countRunes (t : Text) : Nat := (runes t).length

def isUtf8 (t : Text) : Bool :=
  (runes t).all fun
    | .scalar _ => true
    | .stray _ => false

def ofScalar (n : Nat) : Text :=
  if n < 0x80 then [n.toUInt8]
  else if n < 0x800 then [(0xC0 + n / 64).toUInt8, (0x80 + n % 64).toUInt8]
  else if n < 0x10000 then
    [(0xE0 + n / 4096).toUInt8, (0x80 + n / 64 % 64).toUInt8, (0x80 + n % 64).toUInt8]
  else
    [(0xF0 + n / 262144).toUInt8, (0x80 + n / 4096 % 64).toUInt8, (0x80 + n / 64 % 64).toUInt8,
      (0x80 + n % 64).toUInt8]

def replacement : Nat := 0xFFFD

def Rune.shown : Rune → Nat
  | .scalar value => value
  | .stray _ => replacement

/-- The text with every stray byte written as the replacement character. -/
def repaired (t : Text) : Text := (runes t).flatMap fun r => ofScalar r.shown

end Lox.Text
