import Lox.Session

set_option autoImplicit false
set_option relaxedAutoImplicit false

namespace Lox

/-- What a run finds around it: whether it is canceled already, why output fails if it does, and the
time. -/
structure Conditions where
  canceled : Bool := false
  outputFault : Option Text := none
  time : Float := 0

/-- What a run brought about: how it ended, what it wrote and recorded, and the counts of calls
since the session was opened. -/
structure Report where
  result : Except RunError Unit
  written : Text := []
  events : List Event := []
  calls : Nat
  peak : Nat

/-- How sessions are to be opened, and the session if one is open. -/
structure Workspace where
  config : Config := {}
  registry : Registry := .standard
  traced : Bool := false
  opened : Option Session := none

/-- The session as a run finds it: nothing written or recorded yet, and under the conditions of the
run. -/
def Session.under (s : Session) (c : Conditions) : Session where
  settings := { s.settings with outputFault := c.outputFault, time := c.time }
  machine := { s.drained.machine with canceled := c.canceled }

namespace Workspace

/-- The session of a workspace, or the one that would be opened. -/
def session (w : Workspace) : Session := w.opened.getD (.start w.config w.registry w.traced 0)

def refusal (w : Workspace) (faults : List Diagnostic) : Report :=
  { result := .error (.rejected faults), calls := w.session.machine.calls, peak :=
    w.session.machine.peak }

/-- Everything that is statically wrong with a source. -/
def check (w : Workspace) (file source : Text) : List Diagnostic × Workspace :=
  match Program.parse file source with
  | .error ds => (ds, w)
  | .ok p =>
    let found := match p.resolve w.session.machine.globalNames with
      | .error ds => ds
      | .ok _ => []
    (found, { w with opened := some w.session })

/-- Runs a source, unless something is statically wrong with it. -/
def run (w : Workspace) (c : Conditions) (fuel : Nat) (file source : Text) : Report × Workspace :=
  match Program.parse file source with
  | .error ds => (w.refusal ds, w)
  | .ok p =>
    match p.resolve w.session.machine.globalNames with
    | .error ds => (w.refusal ds, { w with opened := some w.session })
    | .ok q =>
      let (result, s) := (w.session.under c).execute fuel q
      ({ result, written := s.machine.written, events := s.machine.events.reverse
         calls := s.machine.calls, peak := s.machine.peak }, { w with opened := some s })

end Workspace
end Lox
