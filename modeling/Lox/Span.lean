import Lox.Text.Basic

set_option autoImplicit false
set_option relaxedAutoImplicit false

namespace Lox

/-- A place between two bytes of a source. -/
structure Pos where
  line : Int
  column : Int
  deriving DecidableEq

namespace Pos

def first : Pos := { line := 1, column := 1 }

def nowhere : Pos := { line := 0, column := 0 }

def advance (p : Pos) (b : UInt8) : Pos :=
  if b = Byte.lineFeed then { line := p.line + 1, column := 1 }
  else { p with column := p.column + 1 }

def after (p : Pos) (t : Text) : Pos := t.foldl advance p

/-- The places compared by line, then by column. -/
def le (p q : Pos) : Prop := p.line < q.line ∨ (p.line = q.line ∧ p.column ≤ q.column)

end Pos

/-- A piece of a source file, from its first place to the place after its last byte. -/
structure Span where
  file : Text
  start : Pos
  stop : Pos
  deriving DecidableEq

namespace Span

/-- From the start of one span to the end of another. -/
def cover (a b : Span) : Span := { a with stop := b.stop }

def nowhere (file : Text) : Span := { file, start := .nowhere, stop := .nowhere }

end Span
end Lox
