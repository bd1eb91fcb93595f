import Lox.Run.Eval
import Lox.Run.Native

set_option autoImplicit false
set_option relaxedAutoImplicit false

namespace Lox

open Text (lit)

/-- The depth of calls allowed when nothing else is said. -/
def defaultLimit : Nat := 1024

/-- The depth of calls that a setting allows; one that allows none stands for the usual depth. -/
def effectiveLimit (n : Int) : Nat := if n ≤ 0 then defaultLimit else n.toNat

namespace Machine

/-- A machine whose globals are native functions. -/
def initial (natives : List Native) : Machine := { heap := .initial (nativeBindings natives) }

/-- The global names. -/
def globalNames (m : Machine) : List Text := m.heap.names Heap.globals

end Machine

namespace Eval

open Run

/-- Carries out the statements of a program among the globals. No signal may get out of them. -/
def script (st : Settings) (fuel : Nat) : List Stmt → Run Unit
  | [] => give ()
  | s :: r => do
    match ← stmt st fuel s Heap.globals with
    | .normal => script st fuel r
    | _ => broken .escapedSignal s.span

def program (st : Settings) (fuel : Nat) (p : Program) : Run Unit := fun m =>
  let stop (m : Machine) : Machine := ((emit st .runEnd p.span []) m).machine
  match script st fuel p.body ((emit st .runStart p.span []) m).machine with
  | .done _ m => .done () (stop m)
  | .failed f m => .failed f (stop m)
  | .exhausted m => .exhausted m

end Eval
end Lox
