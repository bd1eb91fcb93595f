import Lox.Diagnostic
import Lox.Syntax.Basic

set_option autoImplicit false
set_option relaxedAutoImplicit false

namespace Lox

open Text (lit)

inductive Violation
  | returnTopLevel
  | breakOutsideLoop
  | selfInit (name : Text)
  | dupParam (name : Text)
  | returnInit
  | thisOutsideClass
  | superOutsideClass
  | superNoSuperclass
  | inheritSelf
  deriving DecidableEq

namespace Violation

def code : Violation → Code
  | returnTopLevel => .returnTopLevel
  | breakOutsideLoop => .breakOutsideLoop
  | selfInit _ => .selfInit
  | dupParam _ => .dupParam
  | returnInit => .returnInit
  | thisOutsideClass => .thisOutsideClass
  | superOutsideClass => .superOutsideClass
  | superNoSuperclass => .superNoSuperclass
  | inheritSelf => .inheritSelf

def message : Violation → Text
  | returnTopLevel => lit "Can't return from top-level code."
  | breakOutsideLoop => lit "Can't use 'break' outside of a loop."
  | selfInit name => lit "Can't read variable '" ++ name ++ lit "' in its own initializer."
  | dupParam name => lit "Duplicate parameter '" ++ name ++ lit "'."
  | returnInit => lit "Can't return a value from an initializer."
  | thisOutsideClass => lit "Can't use 'this' outside of a class."
  | superOutsideClass => lit "Can't use 'super' outside of a class."
  | superNoSuperclass => lit "Can't use 'super' in a class with no superclass."
  | inheritSelf => lit "A class can't inherit from itself."

def diagnostic (v : Violation) (span : Span) : Diagnostic :=
  { code := v.code, message := v.message, span := some span }

end Violation

/-- The names of one frame, latest first, each with whether it is ready to be read, and the number
of functions around the frame. -/
structure Scope where
  names : List (Text × Bool)
  funs : Nat
  deriving DecidableEq

namespace Scope

def empty (funs : Nat) : Scope := { names := [], funs }

def ready? (s : Scope) (name : Text) : Option Bool := s.names.lookup name

/-- Declares a name that is not ready. A name that is ready already stays ready. -/
def declare (s : Scope) (name : Text) : Scope :=
  if s.ready? name = some true then s else { s with names := (name, false) :: s.names }

def define (s : Scope) (name : Text) : Scope := { s with names := (name, true) :: s.names }

end Scope

/-- The scopes around a place of a program. -/
structure Scopes where
  globals : Scope
  locals : List Scope
  deriving DecidableEq

namespace Scopes

/-- The scopes at the top of a program when some global names exist already. -/
def top (bound : List Text) : Scopes :=
  { globals := { names := bound.map fun n => (n, true), funs := 0 }, locals := [] }

def push (env : Scopes) (s : Scope) : Scopes := { env with locals := s :: env.locals }

def update (env : Scopes) (f : Scope → Scope) : Scopes :=
  match env.locals with
  | [] => { env with globals := f env.globals }
  | s :: r => { env with locals := f s :: r }

def declare (env : Scopes) (name : Text) : Scopes := env.update (·.declare name)

def define (env : Scopes) (name : Text) : Scopes := env.update (·.define name)

/-- The innermost local scope that declares a name: its hops, whether the name is ready there, and
the number of functions around it. -/
def locate (name : Text) : List Scope → Option (Nat × Bool × Nat)
  | [] => none
  | s :: r =>
    match s.ready? name with
    | some ready => some (0, ready, s.funs)
    | none => (locate name r).map fun (hops, ready, funs) => (hops + 1, ready, funs)

end Scopes
end Lox
