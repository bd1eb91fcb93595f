import Lox.Text.Rune
import Lox.Yaml.Problem

set_option autoImplicit false
set_option relaxedAutoImplicit false

namespace Lox.Yaml

/-- A character with its place; lines and columns count from zero. No document contains the
character 0, so it stands for the end. -/
structure Cell where
  letter : Nat
  line : Nat
  column : Nat
  deriving DecidableEq

/-- The characters that end a line: line feed, carriage return, next line, and the separators of
lines and of paragraphs. -/
def isBreak (n : Nat) : Bool := n == 10 || n == 13 || n == 0x85 || n == 0x2028 || n == 0x2029

def isBlank (n : Nat) : Bool := n == 32 || n == 9

/-- What ends a word: a blank, the end of a line, or the end of the document. -/
def isEdge (n : Nat) : Bool := isBlank n || isBreak n || n == 0

def breakText (n : Nat) : Text := Text.ofScalar (if n = 0x2028 || n = 0x2029 then n else 10)

def byteOrderMark : Nat := 0xFEFF

def isAllowed (n : Nat) : Bool :=
  n == 9 || n == 10 || n == 13 || (0x20 ≤ n && n ≤ 0x7E) || n == 0x85 ||
    (0xA0 ≤ n && n != 0xFFFE && n != 0xFFFF)

/-- Characters in their places, from a place on. A carriage return counts as a line feed, also
together with one. -/
def placed : Nat → Nat → List Nat → List Cell
  | l, c, [] => [⟨0, l, c⟩]
  | l, c, 13 :: 10 :: r => ⟨10, l, c⟩ :: placed (l + 1) 0 r
  | l, c, n :: r =>
    if isBreak n then ⟨if n = 13 then 10 else n, l, c⟩ :: placed (l + 1) 0 r
    else ⟨n, l, c⟩ :: placed l (c + 1) r

/-- The characters of a text in their places. A byte order mark at the beginning is dropped. -/
def cells (t : Text) : Except Malformed (List Cell) :=
  let letters := t.runes.map fun
    | .scalar n => n
    | .stray _ => 0
  let body := if letters.head? = some byteOrderMark then letters.drop 1 else letters
  if body.all isAllowed then .ok (placed 0 0 body) else .error ⟨none, .controlCharacter⟩

def headCell (cs : List Cell) : Cell := cs.head?.getD ⟨0, 0, 0⟩

def atEdge (cs : List Cell) : Bool := isEdge (headCell cs).letter

/-- Whether a marker of documents begins here: three hyphens or three dots at the beginning of a
line, as a word of their own. -/
def atMarker (cs : List Cell) : Bool :=
  let word := (cs.take 3).map Cell.letter
  (headCell cs).column == 0 && (word == [45, 45, 45] || word == [46, 46, 46]) && atEdge (cs.drop 3)

def toLineEnd (cs : List Cell) : List Cell :=
  cs.dropWhile fun c => !(isBreak c.letter || c.letter == 0)

/-- The cells after the comment that follows a token on its line, if there is one. -/
def afterComment (cs : List Cell) : List Cell :=
  let next := cs.dropWhile fun c => isBlank c.letter
  if (headCell next).letter = 35 then toLineEnd next else cs

/-- Where a gap stands: among blanks, where tabs may count or not; in a comment; or on the lines
after one. There, the first tab that indents a line is kept: the next token is that tab unless
another comment follows. -/
inductive GapState
  | blank (tabs : Bool)
  | comment
  | afterwards (tab : Option (List Cell))

/-- The cells from the next token on, and whether that stands on a new line. In a document that is
`marked`, the first character of a line is passed over. -/
def passGap (inBrackets marked : Bool) : GapState → Bool → List Cell → List Cell × Bool
  | _, newLine, [] => ([], newLine)
  | .comment, newLine, c :: r =>
    if c.letter = 0 then (c :: r, newLine)
    else if c.letter = 10 && !marked then passGap inBrackets marked (.afterwards none) true r
    else if isBreak c.letter then passGap inBrackets marked (.blank inBrackets) true r
    else passGap inBrackets marked .comment newLine r
  | .blank tabs, newLine, c :: r =>
    if c.letter = 32 || (c.letter = 9 && tabs) || (marked && c.column = 0 && c.letter != 0) then
      passGap inBrackets marked (.blank tabs) newLine r
    else if c.letter = 35 then passGap inBrackets marked .comment newLine r
    else if isBreak c.letter then passGap inBrackets marked (.blank inBrackets) true r
    else (c :: r, newLine)
  | .afterwards tab, newLine, c :: r =>
    if c.letter = 35 then passGap inBrackets marked .comment newLine r
    else if c.letter = 32 || c.letter = 10 || (c.letter = 9 && inBrackets) then
      passGap inBrackets marked (.afterwards tab) newLine r
    else if c.letter = 9 then
      passGap inBrackets marked (.afterwards (some (tab.getD (c :: r)))) newLine r
    else match tab with
      | some cs => (cs, newLine)
      | none =>
        if isBreak c.letter then passGap inBrackets marked (.blank inBrackets) newLine r
        else (c :: r, newLine)

end Lox.Yaml
