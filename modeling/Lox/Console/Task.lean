import Lox.Config.Load
import Lox.Console.Command
import Lox.Help
import Lox.Repl
import Lox.Syntax.Sexpr
import Lox.Trace.Json

set_option autoImplicit false
set_option relaxedAutoImplicit false

namespace Lox

open Text (lit)

/-- A series of requests. -/
inductive Task
  /-- Ends with an exit code. -/
  | finish (code : Nat)
  /-- Writes to the output. -/
  | print (t : Text) (next : Task)
  /-- Writes to the error output. -/
  | warn (t : Text) (next : Task)
  /-- Reads a file. -/
  | readFile (path : Text) (next : Contents → Task)
  /-- Reads all of the input. -/
  | readInput (next : Text → Task)
  /-- Writes a file; going on, it knows why that failed if it did. -/
  | writeFile (path text : Text) (next : Option Text → Task)
  /-- Talks over the lines of the input until they end or the other side quits. -/
  | converse (repl : Repl) (next : Repl → Task)

structure Host where
  directory : Text
  home : Option Text
  time : Float
  stamp : Text
  runId : Text

namespace Task

def stepBound : Nat := Nat.pow 10 18

/-- The exit code of a command that could not do its work. -/
def failure : Nat := 1

/-- Reports diagnostics and ends. -/
def stopWith (code : Nat) (pretty : Bool) (ds : List Diagnostic) : Task :=
  warn (Diagnostic.report pretty ds ++ [Byte.lineFeed]) (finish code)

def say (t : Text) : Task := print t (finish 0)

/-- Reads a source, from the input if its name is a hyphen. The name under which it is known goes
along. -/
def readSource (file : Text) (pretty : Bool) (next : Text → Text → Task) : Task :=
  if file = lit "-" then readInput fun source => next (lit "<stdin>") source
  else readFile file fun
    | .text source => next file source
    | _ => stopWith failure pretty
        [{ code := .io, message := lit "cannot read file: " ++ file }]

def loadConfig (h : Host) (next : Option Text × Except Config.LoadError Config → Task) :
    Task :=
  let project := Path.joined h.directory Config.projectFile
  readFile project fun p =>
    match h.home with
    | some home =>
      let user := Path.joined home Config.userFile
      readFile user fun u => next (Config.choose [(project, p), (user, u)])
    | none => next (Config.choose [(project, p)])

def withConfig (h : Host) (pretty : Bool) (next : Option Text → Config → Task) : Task :=
  loadConfig h fun
    | (path, .ok c) => next path c
    | (_, .error e) => stopWith failure pretty [{ code := .config, message := e.message }]

def conclude (pretty : Bool) (report : Report) : Task :=
  print report.written <|
    match report.result with
    | .ok _ => finish 0
    | .error e => stopWith e.exitCode pretty e.diagnostics

def run (h : Host) (file : Text) (pretty : Bool) (trace : Option Text) : Task :=
  withConfig h pretty fun _ config =>
    let pretty := pretty || config.pretty
    readSource file pretty fun name source =>
      let workspace : Workspace := { config, traced := trace.isSome }
      match trace with
      | none => conclude pretty (workspace.run { time := h.time } stepBound name source).1
      | some path =>
        writeFile path [] fun
          | some _ => stopWith failure pretty
              [{ code := .io, message := lit "cannot create trace file: " ++ path }]
          | none =>
            let report := (workspace.run { time := h.time } stepBound name source).1
            let stamped := report.events.map fun e =>
              { time := h.stamp, run := h.runId, event := e }
            writeFile path (Trace.write .json stamped) fun _ => conclude pretty report

def check (file : Text) (pretty : Bool) : Task :=
  readSource file pretty fun name source =>
    match (({} : Workspace).check name source).1 with
    | [] => say (lit (if pretty then "No errors found.\n" else "[]\n"))
    | ds => stopWith 2 pretty ds

/-- Lays a source out anew, and warns if that loses comments. -/
def format (file : Text) (rewrites : Bool) : Task :=
  readSource file false fun name source =>
    match Session.format name source with
    | .error e => stopWith 2 false e.diagnostics
    | .ok text =>
      let done :=
        if rewrites then
          writeFile file text fun
            | none => finish 0
            | some reason =>
              warn (lit "error writing file: " ++ reason ++ lit "\n") (finish failure)
        else say text
      if Layout.hasComments false source then
        warn (lit "warning: comments are not preserved by the formatter\n") done
      else done

def ast (file : Text) : Task :=
  readSource file false fun name source =>
    match Program.parse name source with
    | .error ds => stopWith 2 false ds
    | .ok p => say p.sexpr

def trace (file : Text) (pretty : Bool) : Task :=
  let show_ (t : Text) : Task :=
    let summary := Trace.Summary.ofText t
    say (if pretty then summary.pretty else summary.toJson.write ++ [Byte.lineFeed])
  readFile file fun
    | .text t => show_ t
    | .directory => show_ []
    | _ => stopWith failure false [{ code := .io, message := lit "cannot read file: " ++ file }]

def help (topic : Text) (index : Bool) : Task :=
  if index then
    if topic = Help.Topic.natives.name then say (Help.index .standard)
    else
      warn (lit "error: --index is only supported for the natives topic " ++
        lit "(lox help natives --index)\n") (finish failure)
  else if topic.isEmpty then say Help.overview
  else match Help.find topic with
    | .ok t => say t.content
    | .error e =>
      warn (e.message ++ lit "\nAvailable topics: " ++ Help.Topic.listed Help.Topic.all ++ lit "\n")
        (finish failure)

def config (h : Host) : Task :=
  withConfig h false fun path c =>
    say <| (Json.object [(lit "source", .string (path.getD (lit "defaults"))),
      (lit "config", c.toJson)]).indented 0 ++ [Byte.lineFeed]

/-- Holds an interactive session. Its inputs are added to the history file. -/
def repl (h : Host) : Task :=
  withConfig h true fun _ c =>
    let path := Path.joined (h.home.getD []) (lit ".lox_history")
    readFile path fun old =>
      let history := match old with
        | .text t => Repl.readHistory t
        | _ => []
      let start : Repl :=
        { workspace := { config := c }, conditions := { time := h.time }, history }
      print Repl.banner <| converse start fun r =>
        writeFile path r.historyText fun _ => finish 0

def ofCommand (h : Host) : Command → Task
  | .run file pretty trace => run h file pretty trace
  | .check file pretty => check file pretty
  | .format file rewrites => format file rewrites
  | .ast file => ast file
  | .repl => repl h
  | .trace file pretty => trace file pretty
  | .help topic index => help topic index
  | .config => config h

def ofArguments (h : Host) (args : List Text) : Task :=
  match Command.ofArguments args with
  | .ok c => ofCommand h c
  | .error e => warn e.message (finish failure)

end Task

/-- The state of surroundings in memory: files, the directory that relative paths start from, the
input, and all that was written. -/
structure Desk where
  files : Files
  here : Path
  input : Text
  out : Text := []
  err : Text := []

/-- Carries out a task in memory, and gives its exit code. -/
def Task.perform (d : Desk) : Task → Nat × Desk
  | finish code => (code, d)
  | print t next => next.perform { d with out := d.out ++ t }
  | warn t next => next.perform { d with err := d.err ++ t }
  | readFile path next => (next (d.files.read d.here path)).perform d
  | readInput next => (next d.input).perform { d with input := [] }
  | writeFile path text next =>
    match d.files.write? d.here path text with
    | some files => (next none).perform { d with files }
    | none => (next (some (lit "open " ++ path ++ lit ": not possible"))).perform d
  | converse repl next =>
    let reply := repl.converse stepBound (Repl.lines d.input)
    (next reply.repl).perform
      { d with input := [], out := d.out ++ reply.out, err := d.err ++ reply.err }

end Lox
