import Lox.Yaml.Scalar

set_option autoImplicit false
set_option relaxedAutoImplicit false

namespace Lox.Yaml

inductive Sign
  | streamEnd
  | documentStart
  | documentEnd
  | blockSequence
  | blockMapping
  | blockEnd
  | openBracket
  | closeBracket
  | openBrace
  | closeBrace
  | dash
  | comma
  | key
  | value
  | scalar (quoted : Bool) (text : Text)
  deriving DecidableEq

/-- A token and the line on which it begins, counted from zero. -/
structure Token where
  sign : Sign
  line : Nat
  deriving DecidableEq

/-- A token that may turn out to be a key, by its number in the document. One that stands where only
keys may stand is required to be one. The token is awaited as long as it waits for its colon. -/
structure Key where
  number : Nat
  line : Nat
  column : Nat
  required : Bool
  awaited : Bool := true
  deriving DecidableEq

def keyReach : Nat := 1024

def Key.reaches (k : Key) (here : Cell) : Except Malformed Bool :=
  if k.line < here.line || k.column + keyReach < here.column then
    if k.required then .error (.inToken k.line here.line .colonMissing) else .ok false
  else .ok true

/-- The brackets around a place, or the document itself: the number of the token that opened them or
that was a possible key last, and the key that a colon would belong to. -/
structure Level where
  last : Nat := 0
  key : Option Key := none
  deriving DecidableEq

/-- A document of which some tokens have been cut off: what is left, the tokens that wait and how
many were taken before, the indentations of the blocks around the place, whether a key may begin
here, and the brackets around the place. No more than `bound` tokens can be cut off after another
without one that is taken. -/
structure Stream where
  cells : List Cell
  bound : Nat
  marked : Bool
  queue : List Token := []
  taken : Nat := 0
  indent : Int := -1
  indents : List Int := []
  keyAllowed : Bool := true
  level : Level := {}
  outer : List Level := []

namespace Stream

def inBrackets (s : Stream) : Bool := !s.outer.isEmpty

def here (s : Stream) : Cell := headCell s.cells

def wrong {α : Type} (s : Stream) (p : Problem) : Except Malformed α :=
  .error (.inToken s.here.line s.here.line p)

def next (s : Stream) : Nat := s.taken + s.queue.length

def push (s : Stream) (t : Token) : Stream := { s with queue := s.queue ++ [t] }

/-- The stream with one more token before the one of the given number. If that was taken already,
the new token comes last. -/
def insert (s : Stream) (number : Nat) (t : Token) : Stream :=
  if number < s.taken then s.push t
  else
    let before := s.queue.take (number - s.taken)
    { s with queue := before ++ t :: s.queue.drop (number - s.taken) }

/-- Begins a block at a column that is further in than the block around it. Its token comes before
the one of the given number, or last. -/
def indentTo (s : Stream) (column : Nat) (number : Option Nat) (t : Token) :
    Except Malformed Stream :=
  if s.inBrackets || column ≤ s.indent then .ok s
  else if maxDepth ≤ s.indents.length then s.wrong .tooDeep
  else
    let s := { s with indents := s.indent :: s.indents, indent := column }
    .ok (s.insert (number.getD s.next) t)

/-- The indentations that are left of those further in than a column, and how many are not. -/
private def dedented (column : Int) : Int → List Int → Nat × Int × List Int
  | indent, [] => (0, indent, [])
  | indent, i :: r =>
    if column < indent then
      let (n, left) := dedented column i r
      (n + 1, left)
    else (0, indent, i :: r)

def dedentTo (s : Stream) (column : Int) : Stream :=
  if s.inBrackets then s
  else
    let (n, indent, indents) := dedented column s.indent s.indents
    { s with
      queue := s.queue ++ List.replicate n ⟨.blockEnd, s.here.line⟩
      indent := indent
      indents := indents }

def dropKey (s : Stream) : Except Malformed Stream :=
  match s.level.key with
  | some k =>
    if k.required then .error (.inToken k.line s.here.line .colonMissing)
    else .ok { s with level := { s.level with key := none } }
  | none => .ok s

def noteKey (s : Stream) : Except Malformed Stream :=
  if s.keyAllowed then do
    let c := s.here
    let required := !s.inBrackets && s.indent == c.column
    let s ← s.dropKey
    let k : Key := { number := s.next, line := c.line, column := c.column, required }
    return { s with level := { last := k.number, key := some k } }
  else .ok s

def cut (s : Stream) (n : Nat) (sign : Sign) : Stream :=
  { s.push ⟨sign, s.here.line⟩ with cells := afterComment (s.cells.drop n) }

def cutOpening (s : Stream) (sign : Sign) : Except Malformed Stream := do
  let s ← s.noteKey
  if maxDepth ≤ s.outer.length then s.wrong .tooDeep
  else
    let s := { s with outer := s.level :: s.outer, level := { last := s.next }, keyAllowed := true }
    return s.cut 1 sign

/-- The level around closed brackets. Brackets in which no key was possible are not awaited. -/
private def Level.closing (inner l : Level) : Level :=
  { l with key := l.key.map fun k => { k with awaited := k.awaited && k.number != inner.last } }

def cutClosing (s : Stream) (sign : Sign) : Except Malformed Stream := do
  let s ← s.dropKey
  let s :=
    match s.outer with
    | l :: r => { s with outer := r, level := Level.closing s.level l }
    | [] => s
  return { s with keyAllowed := false }.cut 1 sign

def cutComma (s : Stream) : Except Malformed Stream := do
  let s ← s.dropKey
  return { s with keyAllowed := true }.cut 1 .comma

def cutDash (s : Stream) : Except Malformed Stream := do
  let c := s.here
  if !s.inBrackets && !s.keyAllowed then s.wrong .dashMisplaced
  else
    let s ← s.indentTo c.column none ⟨.blockSequence, c.line⟩
    let s ← s.dropKey
    return { s.push ⟨.dash, c.line⟩ with cells := s.cells.drop 1, keyAllowed := true }

def cutQuestion (s : Stream) : Except Malformed Stream := do
  let c := s.here
  if !s.inBrackets && !s.keyAllowed then s.wrong .questionMisplaced
  else
    let s ← s.indentTo c.column none ⟨.blockMapping, c.line⟩
    let s ← s.dropKey
    return { s with keyAllowed := !s.inBrackets }.cut 1 .key

/-- Cuts off a colon. If the token before it is a possible key, that is a key now. -/
def cutColon (s : Stream) : Except Malformed Stream := do
  let c := s.here
  let found ← s.level.key.filterM fun k => k.reaches c
  let s := { s with level := { s.level with key := none } }
  match found with
  | some k =>
    let s ← (s.insert k.number ⟨.key, k.line⟩).indentTo k.column (some k.number)
      ⟨.blockMapping, k.line⟩
    return { s with keyAllowed := false }.cut 1 .value
  | none =>
    if !s.inBrackets && !s.keyAllowed then s.wrong .colonMisplaced
    else
      let s ← s.indentTo c.column none ⟨.blockMapping, c.line⟩
      return { s with keyAllowed := !s.inBrackets }.cut 1 .value

def cutQuoted (s : Stream) (single : Bool) : Except Malformed Stream := do
  let s ← s.noteKey
  let (t, rest) ← quoted single s.cells
  let s := s.push ⟨.scalar true t, s.here.line⟩
  return { s with cells := afterComment rest, keyAllowed := false }

/-- Cuts off an unquoted scalar. A key may follow if it ended with its line. -/
def cutPlain (s : Stream) : Except Malformed Stream := do
  let s ← s.noteKey
  let (t, rest, newLine) ← plain s.inBrackets s.indent s.cells
  let s := s.push ⟨.scalar false t, s.here.line⟩
  return { s with cells := if newLine then rest else afterComment rest, keyAllowed := newLine }

/-- Cuts off a marker of `n` characters, or the end. Either ends all blocks. -/
def cutBoundary (s : Stream) (n : Nat) (sign : Sign) : Except Malformed Stream := do
  let s ← (s.dedentTo (-1)).dropKey
  return { s.push ⟨sign, s.here.line⟩ with cells := s.cells.drop n, keyAllowed := false }

def cutEnd (s : Stream) : Except Malformed Stream :=
  let c := s.here
  let last : Cell := if c.column = 0 then c else { c with line := c.line + 1, column := 0 }
  { s with cells := [last] }.cutBoundary 0 .streamEnd

/-- Cuts off the next token, with those that come before it by its indentation. -/
def advance (s : Stream) : Except Malformed Stream :=
  let start := GapState.blank (s.inBrackets || !s.keyAllowed)
  let (cells, newLine) := passGap s.inBrackets s.marked start false s.cells
  let s := { s with cells, keyAllowed := s.keyAllowed || (newLine && !s.inBrackets) }
  let c := s.here
  let n := c.letter
  let s := s.dedentTo c.column
  let edgeFollows := atEdge (s.cells.drop 1)
  if n = 0 then s.cutEnd
  else if c.column = 0 && n = 37 then s.wrong .unsupported
  else if atMarker s.cells then
    s.cutBoundary 3 (if n = 45 then .documentStart else .documentEnd)
  else if n = 91 then s.cutOpening .openBracket
  else if n = 123 then s.cutOpening .openBrace
  else if n = 93 then s.cutClosing .closeBracket
  else if n = 125 then s.cutClosing .closeBrace
  else if n = 44 then s.cutComma
  else if n = 45 && edgeFollows then s.cutDash
  else if n = 63 && (s.inBrackets || edgeFollows) then s.cutQuestion
  else if n = 58 && (s.inBrackets || edgeFollows) then s.cutColon
  else if n = 34 || n = 39 then s.cutQuoted (n == 39)
  else if n = 38 || n = 42 || n = 33 || (!s.inBrackets && (n = 124 || n = 62)) then
    s.wrong .unsupported
  else if beginsPlain s.inBrackets s.cells then s.cutPlain
  else s.wrong .strayCharacter

def headWaits (s : Stream) : Except Malformed Bool :=
  let isHead (k : Key) : Bool := k.number == s.taken && k.awaited
  match (s.level :: s.outer).findSome? fun l => l.key.filter isHead with
  | some k => k.reaches s.here
  | none => .ok false

def lookahead : Nat := 3

def filled : Nat → Stream → Except Malformed Stream
  | 0, s => .ok s
  | fuel + 1, s => do
    let enough ← if s.queue.length < lookahead then pure false else (! ·) <$> s.headWaits
    if enough then return s else filled fuel (← s.advance)

def ofText (t : Text) : Except Malformed Stream := do
  let cs ← Yaml.cells t
  return {
    cells := cs
    bound := cs.length + lookahead
    marked := (headCell cs).letter == byteOrderMark }

end Stream
end Lox.Yaml
