import Lox.Run.Program

set_option autoImplicit false
set_option relaxedAutoImplicit false

namespace Lox

open Text (lit)

/-- A configuration. -/
structure Config where
  allow : List Text := []
  deny : List Text := []
  maxCallDepth : Int := 1024
  level : Text := lit "warn"
  pretty : Bool := false
  deriving DecidableEq

namespace Config

/-- Whether a native function is given to programs. An empty list of allowed names allows all, and a
denied name is never allowed. -/
def allowsNative (c : Config) (name : Text) : Bool :=
  !c.deny.contains name && (c.allow.isEmpty || c.allow.contains name)

end Config
end Lox
