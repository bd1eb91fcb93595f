import Lox.Text.Basic

set_option autoImplicit false
set_option relaxedAutoImplicit false

namespace Lox.Yaml

open Text (lit)

inductive Problem
  | controlCharacter
  | strayCharacter
  | unsupported
  | dashMisplaced
  | questionMisplaced
  | colonMisplaced
  | colonMissing
  | tabIndents
  | unknownEscape
  | hexMissing
  | noCharacter
  | markerQuoted
  | quoteMissing
  | tooDeep
  | contentMissing
  | dashMissing
  | keyMissing
  | bracketMissing
  | braceMissing
  | unmergeable
  deriving DecidableEq

def maxDepth : Nat := 10000

def Problem.message : Problem → Text
  | controlCharacter => lit "control characters are not allowed"
  | strayCharacter => lit "found character that cannot start any token"
  | unsupported => lit "found a construct that is not supported"
  | dashMisplaced => lit "block sequence entries are not allowed in this context"
  | questionMisplaced => lit "mapping keys are not allowed in this context"
  | colonMisplaced => lit "mapping values are not allowed in this context"
  | colonMissing => lit "could not find expected ':'"
  | tabIndents => lit "found a tab character that violates indentation"
  | unknownEscape => lit "found unknown escape character"
  | hexMissing => lit "did not find expected hexdecimal number"
  | noCharacter => lit "found invalid Unicode character escape code"
  | markerQuoted => lit "found unexpected document indicator"
  | quoteMissing => lit "found unexpected end of stream"
  | tooDeep => lit "exceeded max depth of " ++ .ofNat maxDepth
  | contentMissing => lit "did not find expected node content"
  | dashMissing => lit "did not find expected '-' indicator"
  | keyMissing => lit "did not find expected key"
  | bracketMissing => lit "did not find expected ',' or ']'"
  | braceMissing => lit "did not find expected ',' or '\x7d'"
  | unmergeable => lit "map merge requires map or sequence of maps as the value"

/-- Why a text is no document: a problem, and the line that is reported with it. -/
structure Malformed where
  line : Option Nat
  problem : Problem
  deriving DecidableEq

namespace Malformed

private def later? (began met : Nat) : Option Nat :=
  if began ≠ 0 then some began else if met ≠ 0 then some met else none

/-- A problem inside a token, with the lines where the token begins and where the problem was met.
These count from zero, and the report counts from one. -/
def inToken (began met : Nat) (p : Problem) : Malformed := ⟨(later? began met).map (· + 1), p⟩

/-- A problem among tokens. The report takes the number of the line before. -/
def amongTokens (began met : Nat) (p : Problem) : Malformed := ⟨later? began met, p⟩

def message (m : Malformed) : Text :=
  match m.line with
  | some n => lit "line " ++ .ofNat n ++ lit ": " ++ m.problem.message
  | none => m.problem.message

end Malformed
end Lox.Yaml
