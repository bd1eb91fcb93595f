import Lox.Text.Basic

set_option autoImplicit false
set_option relaxedAutoImplicit false

namespace Lox

open Text (lit)

inductive Command
  | run (file : Text) (pretty : Bool) (trace : Option Text)
  | check (file : Text) (pretty : Bool)
  | format (file : Text) (rewrites : Bool)
  | ast (file : Text)
  | repl
  | trace (file : Text) (pretty : Bool)
  | help (topic : Text) (index : Bool)
  | config
  deriving DecidableEq

inductive UsageError
  | unknownCommand (word : Text)
  | missingFile (usage : Text)
  deriving DecidableEq

def UsageError.message : UsageError → Text
  | unknownCommand w =>
    lit "Unknown command: " ++ w ++
      lit "\ncommands: run, check, fmt, ast, repl, trace, help, config\n"
  | missingFile usage => lit "usage: lox " ++ usage ++ lit "\n"

namespace Command

private def isOption (a : Text) : Bool := a.startsWith (lit "-")

private structure RunOptions where
  file : Text := []
  pretty : Bool := false
  trace : Text := []

/-- Reads the arguments of a run. The trace option takes the argument after it, if there is one. -/
private def runOptions (o : RunOptions) : List Text → RunOptions
  | [] => o
  | a :: r =>
    if a = lit "--pretty" then runOptions { o with pretty := true } r
    else if a = lit "--trace" then
      match r with
      | [] => o
      | path :: r => runOptions { o with trace := path } r
    else if a = lit "-" || !isOption a then runOptions { o with file := a } r
    else runOptions o r

private def lastFile (args : List Text) : Text :=
  ((args.filter fun a => !isOption a).getLast?).getD []

private def about (usage : String) (file : Text) (c : Text → Command) : Except UsageError Command :=
  if file.isEmpty then .error (.missingFile (lit usage)) else .ok (c file)

def ofArguments : List Text → Except UsageError Command
  | [] => .ok repl
  | word :: args =>
    let file := lastFile args
    let has (o : String) : Bool := args.contains (lit o)
    let is (w : String) : Bool := word == lit w
    if is "run" then
      let o := runOptions {} args
      about "run <file|-> [--pretty] [--trace <file.jsonl>]" o.file fun f =>
        run f o.pretty (if o.trace.isEmpty then none else some o.trace)
    else if is "check" then about "check <file> [--pretty]" file fun f => check f (has "--pretty")
    else if is "fmt" then about "fmt <file> [--write]" file fun f => format f (has "--write")
    else if is "ast" then about "ast <file>" file ast
    else if is "repl" then .ok repl
    else if is "trace" then
      let asked := args.filter fun a => a == lit "--json" || a == lit "--text"
      about "trace <file.jsonl> [--json|--text]" file fun f =>
        trace f (asked.getLast? = some (lit "--text"))
    else if is "help" || is "--help" || is "-h" then .ok (help file (has "--index"))
    else if is "config" then .ok config
    else .error (.unknownCommand word)

end Command
end Lox
