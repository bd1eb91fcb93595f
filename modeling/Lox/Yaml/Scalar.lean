import Lox.Yaml.Cell

set_option autoImplicit false
set_option relaxedAutoImplicit false

namespace Lox.Yaml

open Text (lit)

/-- What stands between two words of a scalar: blanks, or line ends with the first one apart. An
escaped line end leaves none to stand first. -/
inductive Fold
  | blanks (text : Text)
  | lines (first : Option Nat) (further : Text)

namespace Fold

def none : Fold := blanks []

def blank (n : Nat) : Fold → Fold
  | blanks t => blanks (t ++ Text.ofScalar n)
  | f => f

def lineEnd (n : Nat) : Fold → Fold
  | blanks _ => lines (some n) []
  | lines first further => lines first (further ++ breakText n)

def text : Fold → Text
  | blanks t => t
  | lines .none further => further
  | lines (some n) further =>
    if breakText n ≠ [Byte.lineFeed] then breakText n ++ further
    else if further.isEmpty then [Byte.space]
    else further

def isBroken : Fold → Bool
  | blanks _ => false
  | lines .. => true

def isGap : Fold → Bool
  | blanks t => !t.isEmpty
  | lines .. => true

end Fold

def bracketMarks : Text := lit ",?[]\x7b\x7d"

def isOneOf (marks : Text) (n : Nat) : Bool := n < 128 && marks.contains n.toUInt8

/-- Whether an unquoted scalar ends before the cell at the head: at the end, before a colon that
ends a word or a mark of the brackets around it, and after a gap also before a comment, a marker, or
a line of a block that is not indented further than `indent`. -/
def endsPlain (inBrackets : Bool) (indent : Int) (afterGap : Bool) (c : Cell) (r : List Cell) :
    Bool :=
  c.letter == 0 || (c.letter == 58 && atEdge r) || (inBrackets && isOneOf bracketMarks c.letter) ||
    (afterGap && (c.letter == 35 || atMarker (c :: r) || (!inBrackets && c.column ≤ indent)))

/-- The rest of an unquoted scalar after a gap, what follows it, and whether that stands on a new
line. The scalar begins on the line `began`. -/
def plainFrom (inBrackets : Bool) (indent : Int) (began : Nat) :
    Fold → List Cell → Except Malformed (Text × List Cell × Bool)
  | f, [] => .ok ([], [], f.isBroken)
  | f, c :: r =>
    if isBlank c.letter then
      if c.letter = 9 && f.isBroken && c.column ≤ indent then
        .error (.inToken began c.line .tabIndents)
      else plainFrom inBrackets indent began (f.blank c.letter) r
    else if isBreak c.letter then plainFrom inBrackets indent began (f.lineEnd c.letter) r
    else if endsPlain inBrackets indent f.isGap c r then .ok ([], c :: r, f.isBroken)
    else do
      let (t, rest) ← plainFrom inBrackets indent began .none r
      return (f.text ++ Text.ofScalar c.letter ++ t, rest)

/-- The unquoted scalar at the head, what follows it, and whether that stands on a new line. -/
def plain (inBrackets : Bool) (indent : Int) (cs : List Cell) :
    Except Malformed (Text × List Cell × Bool) :=
  plainFrom inBrackets indent (headCell cs).line .none cs

def beginsPlain (inBrackets : Bool) (cs : List Cell) : Bool :=
  let n := (headCell cs).letter
  let wordFollows := !atEdge (cs.drop 1)
  !isEdge n && (!isOneOf (lit "-?:,[]\x7b\x7d#&*!|>'\"%@`") n || (n == 45 && wordFollows) ||
    (!inBrackets && (n == 63 || n == 58) && wordFollows))

def escapes : List (Nat × Nat) := [(48, 0), (97, 7), (98, 8), (116, 9), (9, 9), (110, 10),
  (118, 11), (102, 12), (114, 13), (101, 27), (32, 32), (34, 34), (39, 39), (92, 92), (78, 0x85),
  (95, 0xA0), (76, 0x2028), (80, 0x2029)]

/-- The number of hexadecimal digits after an escape that has a number. -/
def escapeDigits : List (Nat × Nat) := [(120, 2), (117, 4), (85, 8)]

private def hexLetter? (n : Nat) : Option Nat := if n < 128 then Byte.hexValue? n.toUInt8 else none

/-- The character that an escape stands for, and how many cells it takes after its backslash. -/
def escape (r : List Cell) : Except Problem (Nat × Nat) :=
  let n := (headCell r).letter
  match escapes.lookup n, escapeDigits.lookup n with
  | some v, _ => .ok (v, 1)
  | none, some count =>
    let digits := (r.drop 1).take count
    match digits.foldlM (fun v c => (hexLetter? c.letter).map (v * 16 + ·)) 0 with
    | some v =>
      if digits.length < count then .error .hexMissing
      else if (0xD800 ≤ v && v ≤ 0xDFFF) || 0x10FFFF < v then .error .noCharacter
      else .ok (v, count + 1)
    | none => .error .hexMissing
  | none, none => .error .unknownEscape

/-- The rest of a quoted scalar after a gap, and what follows its closing quote. The first `skip`
cells are part of an escape. -/
def quotedFrom (single : Bool) (began : Nat) :
    Nat → Fold → List Cell → Except Malformed (Text × List Cell)
  | _, _, [] => .error (.inToken began began .quoteMissing)
  | skip + 1, f, _ :: r => quotedFrom single began skip f r
  | 0, f, c :: r =>
    let next := (headCell r).letter
    let wrong (p : Problem) : Malformed := .inToken began c.line p
    if isBlank c.letter then quotedFrom single began 0 (f.blank c.letter) r
    else if isBreak c.letter then quotedFrom single began 0 (f.lineEnd c.letter) r
    else if atMarker (c :: r) then .error (wrong .markerQuoted)
    else if c.letter = 0 then .error (wrong .quoteMissing)
    else if single && c.letter = 39 && next = 39 then do
      let (t, rest) ← quotedFrom single began 1 .none r
      return (f.text ++ 39 :: t, rest)
    else if c.letter = (if single then 39 else 34) then .ok (f.text, r)
    else if !single && c.letter = 92 && isBreak next then do
      let (t, rest) ← quotedFrom single began 1 (.lines none []) r
      return (f.text ++ t, rest)
    else if !single && c.letter = 92 then do
      let (v, width) ← (escape r).mapError wrong
      let (t, rest) ← quotedFrom single began width .none r
      return (f.text ++ Text.ofScalar v ++ t, rest)
    else do
      let (t, rest) ← quotedFrom single began 0 .none r
      return (f.text ++ Text.ofScalar c.letter ++ t, rest)

def quoted (single : Bool) (cs : List Cell) : Except Malformed (Text × List Cell) :=
  quotedFrom single (headCell cs).line 0 .none (cs.drop 1)

end Lox.Yaml
