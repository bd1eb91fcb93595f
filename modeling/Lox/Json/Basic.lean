import Lox.Text.Rune

set_option autoImplicit false
set_option relaxedAutoImplicit false

namespace Lox

open Text (lit)

/-- A JSON value. A number keeps its numeral, and an object keeps its members in order. -/
inductive Json
  | null
  | bool (value : Bool)
  | number (numeral : Text)
  | string (value : Text)
  | array (items : List Json)
  | object (members : List (Text × Json))

namespace Json

def int (n : Int) : Json := .number (.ofInt n)

def unicodeEscape (n : Nat) : Text :=
  lit "\\u" ++ [Byte.hexDigit (n / 4096 % 16), Byte.hexDigit (n / 256 % 16),
    Byte.hexDigit (n / 16 % 16), Byte.hexDigit (n % 16)]

def escaped (n : Nat) : Text :=
  if n = 34 then lit "\\\""
  else if n = 92 then lit "\\\\"
  else if n = 8 then lit "\\b"
  else if n = 12 then lit "\\f"
  else if n = 10 then lit "\\n"
  else if n = 13 then lit "\\r"
  else if n = 9 then lit "\\t"
  else if n < 32 || n = 60 || n = 62 || n = 38 || n = 0x2028 || n = 0x2029 then unicodeEscape n
  else Text.ofScalar n

/-- A string with its quotes. A stray byte is written as the escape of the replacement character. -/
def quoted (t : Text) : Text :=
  let body := t.runes.flatMap fun
    | .scalar n => escaped n
    | .stray _ => unicodeEscape Text.replacement
  Byte.quote :: body ++ [Byte.quote]

mutual

def write : Json → Text
  | .null => lit "null"
  | .bool b => lit (if b then "true" else "false")
  | .number numeral => numeral
  | .string t => quoted t
  | .array items => lit "[" ++ Text.join (lit ",") (writeItems items) ++ lit "]"
  | .object members => lit "\x7b" ++ Text.join (lit ",") (writeMembers members) ++ lit "\x7d"

def writeItems : List Json → List Text
  | [] => []
  | j :: r => j.write :: writeItems r

def writeMembers : List (Text × Json) → List Text
  | [] => []
  | (k, j) :: r => (quoted k ++ lit ":" ++ j.write) :: writeMembers r

end

private def newline (depth : Nat) : Text := Byte.lineFeed :: List.replicate (2 * depth) Byte.space

/-- Brackets around parts, each part on a line of its own one level further in. -/
private def bracketed (opening closing : String) (depth : Nat) (parts : List Text) : Text :=
  if parts.isEmpty then lit opening ++ lit closing
  else
    lit opening ++ newline (depth + 1) ++ Text.join (lit "," ++ newline (depth + 1)) parts ++
      newline depth ++ lit closing

mutual

/-- The text of a value with two blanks of indentation for each level. -/
def indented (depth : Nat) : Json → Text
  | .array items => bracketed "[" "]" depth (indentedItems (depth + 1) items)
  | .object members => bracketed "\x7b" "\x7d" depth (indentedMembers (depth + 1) members)
  | .null => lit "null"
  | .bool b => lit (if b then "true" else "false")
  | .number numeral => numeral
  | .string t => quoted t

def indentedItems (depth : Nat) : List Json → List Text
  | [] => []
  | j :: r => j.indented depth :: indentedItems depth r

def indentedMembers (depth : Nat) : List (Text × Json) → List Text
  | [] => []
  | (k, j) :: r => (quoted k ++ lit ": " ++ j.indented depth) :: indentedMembers depth r

end

end Json
end Lox
