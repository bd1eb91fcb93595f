import Lox.Config.Basic
import Lox.Parser.Grammar
import Lox.Scope.Resolve
import Lox.Syntax.Layout

/-!
Sessions: sources checked, formatted and run one after another. What a run declares, later runs
see. A source with static faults changes nothing.
-/

set_option autoImplicit false
set_option relaxedAutoImplicit false

namespace Lox

open Text (lit)

/-- Why a source did not run to its end. -/
inductive RunError
  | rejected (faults : List Diagnostic)
  | failed (f : Failure)
  | exhausted
  deriving DecidableEq

namespace RunError

/-- The diagnostics of an error. -/
def diagnostics : RunError → List Diagnostic
  | rejected ds => ds
  | failed f => [f.diagnostic]
  | exhausted => [{ code := .fault, message := lit "step bound used up" }]

/-- The exit code of a process that ends with an error. -/
def exitCode : RunError → Nat
  | rejected _ => 2
  | failed (.runtime _ _) => 3
  | _ => 4

def message : RunError → Text
  | rejected ds => Diagnostic.summary ds
  | failed f => f.message
  | exhausted => lit "step bound used up"

end RunError

/-- The settings and the machine that the runs of a session share. -/
structure Session where
  settings : Settings
  machine : Machine

namespace Session

/-- A session under a configuration, with the native functions that it allows. -/
def start (config : Config) (registry : Registry) (traced : Bool) (time : Float) : Session :=
  let natives := registry.select config.allowsNative
  { settings := {
      limit := effectiveLimit config.maxCallDepth, natives := natives.toArray, traced, time }
    machine := .initial natives }

/-- Reads and resolves a source against the globals of a session. -/
def prepare (s : Session) (file source : Text) : Except (List Diagnostic) Program :=
  match Program.parse file source with
  | .error ds => .error ds
  | .ok p => p.resolve s.machine.globalNames

theorem prepare_eq_resolve {p : Program} {file source : Text}
    (hparse : Program.parse file source = .ok p) (s : Session) :
    s.prepare file source = p.resolve s.machine.globalNames := by
  rw [prepare, hparse]

theorem parse_of_prepare {s : Session} {file source : Text} {q : Program}
    (h : s.prepare file source = .ok q) :
    ∃ p, Program.parse file source = .ok p ∧ p.resolve s.machine.globalNames = .ok q := by
  unfold prepare at h
  split at h
  · cases h
  · exact ⟨_, ‹_›, h⟩

def check (s : Session) (file source : Text) : List Diagnostic :=
  match s.prepare file source with
  | .error ds => ds
  | .ok _ => []

/-- Runs a program that has been prepared. -/
def execute (s : Session) (fuel : Nat) (p : Program) : Except RunError Unit × Session :=
  match Eval.program s.settings fuel p s.machine with
  | .done _ m => (.ok (), { s with machine := m })
  | .failed f m => (.error (.failed f), { s with machine := m })
  | .exhausted m => (.error .exhausted, { s with machine := m })

/-- Runs a source, unless something is statically wrong with it. -/
def run (s : Session) (fuel : Nat) (file source : Text) : Except RunError Unit × Session :=
  match s.prepare file source with
  | .error ds => (.error (.rejected ds), s)
  | .ok p => s.execute fuel p

/-- The canonical form of a source. -/
def format (file source : Text) : Except RunError Text :=
  match Program.parse file source with
  | .error ds => .error (.rejected ds)
  | .ok p => .ok p.layout

/-- The session without the output and events of former runs. -/
def drained (s : Session) : Session :=
  { s with machine := { s.machine with output := [], events := [] } }

end Session
end Lox
