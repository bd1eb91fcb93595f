import Lox.Text.Blank
import Lox.Text.Case
import Lox.Workspace

set_option autoImplicit false
set_option relaxedAutoImplicit false

namespace Lox

open Text (lit)

/-- What an interactive session knows: what runs have declared, the conditions under which they go
on, the lines that still want others, and the inputs of this session and earlier ones, oldest first.
-/
structure Repl where
  workspace : Workspace
  conditions : Conditions := {}
  pending : Text := []
  history : List Text := []

namespace Repl

def file : Text := lit "<repl>"

def banner : Text :=
  lit "golox REPL\nCtrl+C cancels input, Ctrl+D exits. Type :quit to exit, :help for help.\n"

def commandHelp : Text :=
  lit "REPL commands:\n  :quit    Exit the REPL\n  :help    This text\n" ++
    lit "Declarations persist between inputs.\n"

def isCommand (t : Text) : Bool := t.trim.startsWith (lit ":")

def wantsMore (t : Text) : Bool :=
  !isCommand t &&
    match Program.parse file t with
    | .error ds => Diagnostic.isIncomplete ds
    | .ok _ => false

def extend (pending line : Text) : Text :=
  if pending.isEmpty then line else pending ++ Byte.lineFeed :: line

/-- The first input that lines make together with pending ones, and the lines after it. Lines that
end too early make none. -/
def takeInput (pending : Text) : List Text → Option (Text × List Text)
  | [] => none
  | l :: r =>
    let t := extend pending l
    if wantsMore t then takeInput t r else some (t, r)

/-- All inputs that lines make, in order. -/
def inputs (pending : Text) : List Text → List Text
  | [] => []
  | l :: r =>
    let t := extend pending l
    if wantsMore t then inputs t r else t :: inputs [] r

def historyLimit : Nat := 1000

/-- The inputs remembered when one more is made; it does not count right after the same one. -/
def remember (history : List Text) (entry : Text) : List Text :=
  if history.getLast? = some entry then history
  else
    let all := history ++ [entry]
    all.drop (all.length - historyLimit)

def historyText (r : Repl) : Text := r.history.flatMap fun l => l ++ [Byte.lineFeed]

def prompt (r : Repl) : Text := lit (if r.pending.isEmpty then "> " else "... ")

/-- What an input brought about. -/
structure Reply where
  repl : Repl
  out : Text := []
  err : Text := []
  quit : Bool := false

def command (r : Repl) (t : Text) : Reply :=
  let word := t.trim.toLower
  if word = lit ":quit" || word = lit ":q" then { repl := r, quit := true }
  else if word = lit ":help" then { repl := r, out := commandHelp }
  else { repl := r, out := lit "unknown command. Type :quit to exit.\n" }

def evaluate (r : Repl) (fuel : Nat) (t : Text) : Reply :=
  let entry := t.map fun b => if b = Byte.lineFeed then Byte.space else b
  let (report, workspace) := r.workspace.run r.conditions fuel file t
  { repl := { r with workspace, history := remember r.history entry }
    out := report.written
    err := match report.result with
      | .ok _ => []
      | .error e => Diagnostic.report true e.diagnostics ++ [Byte.lineFeed] }

def answer (r : Repl) (fuel : Nat) (t : Text) : Reply :=
  if t.trim.isEmpty then { repl := r }
  else if isCommand t then r.command t
  else r.evaluate fuel t

def feed (r : Repl) (fuel : Nat) (line : Text) : Reply :=
  let t := extend r.pending line
  if wantsMore t then { repl := { r with pending := t } }
  else { r with pending := [] }.answer fuel t

/-- A whole conversation over lines: all that is written, with the prompts, and what is known at its
end. -/
def converse (fuel : Nat) (r : Repl) : List Text → Reply
  | [] => { repl := r, out := r.prompt ++ [Byte.lineFeed] }
  | l :: ls =>
    let reply := r.feed fuel l
    let out := r.prompt ++ reply.out
    if reply.quit then { reply with out }
    else
      let rest := converse fuel reply.repl ls
      { rest with out := out ++ rest.out, err := reply.err ++ rest.err }

def lineLimit : Nat := 4096

/-- Cuts a text into lines without their ends, where `n` bytes of the present one are read and stand
in `acc` in reverse. A line that is too long comes in pieces, which are marked; a carriage return at
the end of a piece goes to the next one. -/
private def linesFrom (acc : Text) (n : Nat) : Text → List (Text × Bool)
  | [] => if n = 0 then [] else [(acc.reverse, false)]
  | b :: r =>
    if b = Byte.lineFeed then
      let line := match acc with
        | 13 :: l => l
        | l => l
      (line.reverse, false) :: linesFrom [] 0 r
    else if n + 1 = lineLimit then
      if b = Byte.carriageReturn then (acc.reverse, true) :: linesFrom [b] 1 r
      else ((b :: acc).reverse, true) :: linesFrom [] 0 r
    else linesFrom (b :: acc) (n + 1) r

def lines (t : Text) : List Text := (linesFrom [] 0 t).map Prod.fst

/-- The history that a text holds, up to the first line that is too long or not UTF-8. -/
def readHistory (t : Text) : List Text :=
  let kept := ((linesFrom [] 0 t).takeWhile fun (l, cut) => !cut && l.isUtf8).map Prod.fst
  kept.drop (kept.length - historyLimit)

end Repl
end Lox
