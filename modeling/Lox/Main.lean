import Lox.Console.Task
import Std.Time.DateTime.Timestamp

set_option autoImplicit false
set_option relaxedAutoImplicit false

namespace Lox.Main

open Text (lit)

/-- A text as a string; bytes that are no character are shown as the replacement character. -/
private def shown (t : Text) : String :=
  String.ofList ((Text.runes t).map fun r => Char.ofNat r.shown)

private def put (stream : IO.FS.Stream) (t : Text) : IO Unit := do
  stream.write ⟨t.toArray⟩
  stream.flush

private partial def drain (stream : IO.FS.Stream) (acc : ByteArray) : IO ByteArray := do
  let more ← stream.read 65536
  if more.isEmpty then return acc else drain stream (acc ++ more)

/-- The next line of a stream with its end; the empty text stands after the last one. -/
private partial def nextLine (stream : IO.FS.Stream) (acc : ByteArray) : IO Text := do
  let byte ← stream.read 1
  let acc := acc ++ byte
  if byte.isEmpty || byte.data.contains Byte.lineFeed then return acc.data.toList
  else nextLine stream acc

private def readFile (path : Text) : IO Contents := do
  try
    let bytes ← IO.FS.readBinFile (shown path)
    return .text bytes.data.toList
  catch e =>
    match e with
    | .noFileOrDirectory .. => return .absent
    | .inappropriateType .. => return .directory
    | e => return .unreadable (lit (toString e))

private def writeFile (path text : Text) : IO (Option Text) := do
  try
    IO.FS.writeBinFile (shown path) ⟨text.toArray⟩
    return none
  catch e => return some (lit (toString e))

/-- Feeds lines to a conversation; the answer tells whether it is over. -/
private def feed (out err : IO.FS.Stream) (repl : Repl) : List Text → IO (Bool × Repl)
  | [] => return (false, repl)
  | l :: ls => do
    put out repl.prompt
    let reply := repl.feed Task.stepBound l
    put out reply.out
    put err reply.err
    if reply.quit then return (true, reply.repl) else feed out err reply.repl ls

private partial def converse (input out err : IO.FS.Stream) (repl : Repl) : IO Repl := do
  put out repl.prompt
  let line ← nextLine input .empty
  if line.isEmpty then
    put out (lit "\n")
    return repl
  match Repl.lines line with
  | [] => return repl
  | first :: more =>
    let reply := repl.feed Task.stepBound first
    put out reply.out
    put err reply.err
    if reply.quit then return reply.repl
    let (ended, repl) ← feed out err reply.repl more
    if ended then return repl else converse input out err repl

private def perform (input out err : IO.FS.Stream) : Task → IO UInt32
  | .finish code => return code.toUInt32
  | .print t next => do
    put out t
    perform input out err next
  | .warn t next => do
    put err t
    perform input out err next
  | .readFile path next => do
    let contents ← readFile path
    perform input out err (next contents)
  | .readInput next => do
    let bytes ← drain input .empty
    perform input out err (next bytes.data.toList)
  | .writeFile path text next => do
    let reason ← writeFile path text
    perform input out err (next reason)
  | .converse repl next => do
    let repl ← converse input out err repl
    perform input out err (next repl)

/-- A name for a run that no other run has: random digits in the usual groups. -/
private def freshRunId : IO Text := do
  let bytes ← IO.getRandomBytes 16
  let mark (i : Nat) (b : UInt8) : UInt8 :=
    if i = 6 then 0x40 ||| (b &&& 0x0F) else if i = 8 then 0x80 ||| (b &&& 0x3F) else b
  let digits := Text.toHex (bytes.data.toList.zipIdx.map fun (b, i) => mark i b)
  return Text.join (lit "-") [digits.take 8, (digits.drop 8).take 4, (digits.drop 12).take 4,
    (digits.drop 16).take 4, digits.drop 20]

private def host : IO Host := do
  let nanos := (← Std.Time.Timestamp.now).toNanosecondsSinceUnixEpoch.val
  let home ← IO.getEnv "HOME"
  return {
    directory := lit (← IO.currentDir).toString
    home := (home.filter fun p => !p.isEmpty).map lit
    time := Float.ofInt nanos / 1000000000
    stamp := (Instant.ofEpoch nanos).write
    runId := ← freshRunId }

end Lox.Main

def main (args : List String) : IO UInt32 := do
  let host ← Lox.Main.host
  Lox.Main.perform (← IO.getStdin) (← IO.getStdout) (← IO.getStderr)
    (Lox.Task.ofArguments host (args.map Lox.Text.lit))
