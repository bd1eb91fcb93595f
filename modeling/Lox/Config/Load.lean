import Lox.Config.Decode
import Lox.Files
import Lox.Json.Basic
import Lox.Text.Blank
import Lox.Yaml.Reader

set_option autoImplicit false
set_option relaxedAutoImplicit false

namespace Lox.Config

open Text (lit)

inductive Rule
  | depthNotNegative
  | levelKnown
  | allowedNamed
  deriving DecidableEq

def Rule.message : Rule → Text
  | depthNotNegative => lit "limits.maxCallDepth must not be negative"
  | levelKnown => lit "log.level must be one of debug, info, warn, error, fatal, panic"
  | allowedNamed => lit "natives.allow contains an empty name"

def levels : List Text := ["debug", "info", "warn", "error", "fatal", "panic"].map lit

def broken? (c : Config) : Option Rule :=
  if c.maxCallDepth < 0 then some .depthNotNegative
  else if !c.level.isEmpty && !levels.contains c.level.toLower then some .levelKnown
  else if c.allow.any fun n => n.trim.isEmpty then some .allowedNamed
  else none

inductive LoadError
  | unreadable (path reason : Text)
  | directory (path : Text)
  | malformed (path : Text) (reason : Yaml.Malformed)
  | mistyped (path : Text) (faults : List Fault)
  | invalid (path : Text) (rule : Rule)
  deriving DecidableEq

def LoadError.message : LoadError → Text
  | unreadable path reason => lit "open " ++ path ++ lit ": " ++ reason
  | directory path =>
    lit "config: parse " ++ path ++ lit ": yaml: input error: read " ++ path ++
      lit ": is a directory"
  | malformed path reason => lit "config: parse " ++ path ++ lit ": yaml: " ++ reason.message
  | mistyped path faults =>
    lit "config: parse " ++ path ++ lit ": yaml: unmarshal errors:" ++
      faults.flatMap fun f => lit "\n  " ++ f.message
  | invalid path rule => lit "config: " ++ path ++ lit ": " ++ rule.message

/-- The configuration that a text holds. An empty document leaves all defaults. -/
def ofText (path source : Text) : Except LoadError Config :=
  let checked (c : Config) : Except LoadError Config :=
    match c.broken? with
    | some rule => .error (.invalid path rule)
    | none => .ok c
  match Yaml.read source with
  | .error reason => .error (.malformed path reason)
  | .ok none => checked {}
  | .ok (some root) =>
    match decode {} root with
    | .error reason => .error (.malformed path reason)
    | .ok (c, []) => checked c
    | .ok (_, faults) => .error (.mistyped path faults)

/-- The configuration of the first file that exists, and the path of that file. -/
def choose : List (Text × Contents) → Option Text × Except LoadError Config
  | [] => (none, .ok {})
  | (_, .absent) :: r => choose r
  | (path, .directory) :: _ => (some path, .error (.directory path))
  | (path, .unreadable reason) :: _ => (some path, .error (.unreadable path reason))
  | (path, .text t) :: _ => (some path, ofText path t)

def projectFile : Text := lit ".loxrc.yaml"

def userFile : Text := lit ".lox/config.yaml"

/-- A configuration as a JSON object; a setting that is empty, zero or off is left out. -/
def toJson (c : Config) : Json :=
  let member (omitted : Bool) (name : String) (j : Json) : List (Text × Json) :=
    if omitted then [] else [(lit name, j)]
  let names (ts : List Text) : Json := .array (ts.map .string)
  .object [
    (lit "natives", .object (member c.allow.isEmpty "allow" (names c.allow) ++
      member c.deny.isEmpty "deny" (names c.deny))),
    (lit "limits", .object (member (c.maxCallDepth = 0) "maxCallDepth" (.int c.maxCallDepth))),
    (lit "log", .object (member c.level.isEmpty "level" (.string c.level))),
    (lit "output", .object (member (!c.pretty) "pretty" (.bool true)))]

end Lox.Config
