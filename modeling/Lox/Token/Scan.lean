import Lox.Diagnostic
import Lox.Text.Rune
import Lox.Token.Basic

set_option autoImplicit false
set_option relaxedAutoImplicit false

namespace Lox.Token

open Text (lit)

/-- Why a source cannot be cut into tokens. -/
inductive Fault
  | openString
  | openComment
  | strayByte
  | unexpected (scalar : Nat)
  deriving DecidableEq

namespace Fault

def message : Fault → Text
  | openString => lit "Unterminated string."
  | openComment => lit "Unterminated block comment."
  | strayByte => lit "Invalid UTF-8 character in string."
  | unexpected n => lit "Unexpected character '" ++ Text.ofScalar n ++ lit "'."

/-- Whether the source ended inside a string or a comment. -/
def isUnterminated : Fault → Bool
  | openString | openComment => true
  | _ => false

end Fault

/-- A fault and the place where its string, comment or character begins. -/
structure FaultAt where
  fault : Fault
  file : Text
  place : Pos
  deriving DecidableEq

namespace FaultAt

/-- One byte wide, whatever the fault. -/
def span (f : FaultAt) : Span :=
  { file := f.file, start := f.place, stop := { f.place with column := f.place.column + 1 } }

/-- A fault as a diagnostic. -/
def diagnostic (f : FaultAt) : Diagnostic :=
  { code := .lex, message := f.fault.message, span := some f.span }

/-- A fault as a diagnostic that tells when more input could mend it. -/
def hinted (f : FaultAt) : Diagnostic :=
  if f.fault.isUnterminated then { f.diagnostic with hint := Diagnostic.endOfInput }
  else f.diagnostic

end FaultAt

def isBlank (b : UInt8) : Bool :=
  b == Byte.space || b == Byte.tab || b == Byte.carriageReturn || b == Byte.lineFeed

/-- Where a gap stands: between comments, in a line comment, or in a block comment. -/
inductive GapState
  | blank
  | line
  | block (opened : Pos)
  deriving DecidableEq

/-- The gap at the head of a text: where it ends and what follows, or the comment that never ends.
-/
inductive Gap
  | closed (place : Pos) (rest : Text)
  | openComment (place : Pos)
  deriving DecidableEq

/-- Passes over blanks, comments to the end of a line and closed block comments. -/
def skipGap : GapState → Pos → Text → Gap
  | .block opened, _, [] => .openComment opened
  | .blank, p, [] => .closed p []
  | .line, p, [] => .closed p []
  | .blank, p, Byte.slash :: Byte.slash :: r =>
    skipGap .line (p.after [Byte.slash, Byte.slash]) r
  | .blank, p, Byte.slash :: Byte.star :: r =>
    skipGap (.block p) (p.after [Byte.slash, Byte.star]) r
  | .blank, p, b :: r => if isBlank b then skipGap .blank (p.advance b) r else .closed p (b :: r)
  | .line, p, b :: r => skipGap (if b = Byte.lineFeed then .blank else .line) (p.advance b) r
  | .block _, p, Byte.star :: Byte.slash :: r => skipGap .blank (p.after [Byte.star, Byte.slash]) r
  | .block opened, p, b :: r => skipGap (.block opened) (p.advance b) r

/-- A token without its place: its kind, its text, and all of its bytes. -/
structure Lexeme where
  kind : Kind
  text : Text
  bytes : Text
  deriving DecidableEq

namespace Lexeme

def verbatim (kind : Kind) (bytes : Text) : Lexeme := { kind, text := bytes, bytes }

end Lexeme

def cutMark (m : Mark) (b : UInt8) (r : Text) : Lexeme × Text :=
  match m.withEqual?, r with
  | some longer, 61 :: rest => (.verbatim (.mark longer) [b, 61], rest)
  | _, _ => (.verbatim (.mark m) [b], r)

def cutNumber (t : Text) : Lexeme × Text :=
  let whole := t.takeWhile Byte.isDigit
  let rest := t.dropWhile Byte.isDigit
  match rest with
  | Byte.dot :: d :: r =>
    if Byte.isDigit d then
      (.verbatim .number (whole ++ Byte.dot :: (d :: r).takeWhile Byte.isDigit),
        (d :: r).dropWhile Byte.isDigit)
    else (.verbatim .number whole, rest)
  | _ => (.verbatim .number whole, rest)

def cutWord (t : Text) : Lexeme × Text :=
  let word := t.takeWhile Byte.isNamePart
  let kind := match Keyword.ofSpelling? word with
    | some k => .keyword k
    | none => .name
  (.verbatim kind word, t.dropWhile Byte.isNamePart)

/-- The string whose opening quote stands before a text: everything up to the next quote. -/
def cutString (t : Text) : Except Fault (Lexeme × Text) :=
  let body := t.takeWhile (· != Byte.quote)
  if !Text.isUtf8 body then .error .strayByte
  else match t.dropWhile (· != Byte.quote) with
    | [] => .error .openString
    | q :: rest => .ok ({ kind := .string, text := body, bytes := Byte.quote :: body ++ [q] }, rest)

def cut (b : UInt8) (r : Text) : Except Fault (Lexeme × Text) :=
  match Mark.ofByte? b with
  | some m => .ok (cutMark m b r)
  | none =>
    if Byte.isDigit b then .ok (cutNumber (b :: r))
    else if b = Byte.quote then cutString r
    else if Byte.isLetter b then .ok (cutWord (b :: r))
    else .error (.unexpected (Text.headRune b r).1.shown)

/-- The tokens of a text that begins at a place; every round but the last takes a byte. -/
def scanFrom (file : Text) : Nat → Pos → Text → Except FaultAt (List Token)
  | 0, _, _ => .ok []
  | fuel + 1, p, t =>
    match skipGap .blank p t with
    | .openComment opened => .error { fault := .openComment, file, place := opened }
    | .closed q [] => .ok [{ kind := .eof, text := [], span := { file, start := q, stop := q } }]
    | .closed q (b :: r) =>
      match cut b r with
      | .error fault => .error { fault, file, place := q }
      | .ok (l, rest) =>
        let stop := q.after l.bytes
        match scanFrom file fuel stop rest with
        | .error f => .error f
        | .ok ts =>
          .ok ({ kind := l.kind, text := l.text, span := { file, start := q, stop } } :: ts)

/-- The tokens of a source, ending with the end of the source. -/
def scan (file source : Text) : Except FaultAt (List Token) :=
  scanFrom file (source.length + 1) .first source

end Lox.Token
