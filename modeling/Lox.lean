import Lox.Main
import Lox.Proofs.Utf8
import Lox.Proofs.Lexeme
import Lox.Proofs.Lexing
import Lox.Proofs.Grammar.Basic
import Lox.Proofs.Grammar.Soundness
import Lox.Proofs.Grammar.Bare
import Lox.Proofs.Grammar.CompleteExpression
import Lox.Proofs.Grammar.CompleteStatement
import Lox.Proofs.Grammar.Exact
import Lox.Proofs.Scope.Resolution
import Lox.Proofs.Parse
import Lox.Proofs.Run.Heap
import Lox.Proofs.Run.Safe
import Lox.Proofs.Run.Safety
import Lox.Proofs.Run.Session
import Lox.Proofs.Layout.Shows
import Lox.Proofs.Layout.Expression
import Lox.Proofs.Layout.Statement
import Lox.Proofs.Decimal.Nearest
import Lox.Proofs.Decimal.Bits
import Lox.Proofs.Decimal.Numeral
import Lox.Proofs.Layout.RoundTrip
import Lox.Proofs.Rename.Basic
import Lox.Proofs.Rename.Declarations
import Lox.Proofs.Rename.Evaluation
import Lox.Proofs.Rename.Resolution
import Lox.Proofs.Rename.Session
import Lox.Proofs.Run.Calls
import Lox.Proofs.Run.Globals
import Lox.Proofs.Run.Split
import Lox.Proofs.Workspace
import Lox.Proofs.Run.Grows
import Lox.Proofs.Simulation.Code
import Lox.Proofs.Simulation.Value
import Lox.Proofs.Simulation.State
import Lox.Proofs.Simulation.Follows
import Lox.Proofs.Simulation.Primitive
import Lox.Proofs.Simulation.Evaluation
import Lox.Proofs.Simulation.Loop
import Lox.Proofs.Simulation.Session
import Lox.Proofs.Expansion.Basic
import Lox.Proofs.Expansion.Resolution
import Lox.Proofs.Expansion.Session
import Lox.Proofs.Absence
import Lox.Proofs.Prefix.Trails
import Lox.Proofs.Prefix.Reader
import Lox.Proofs.Prefix.Lexing
import Lox.Proofs.Prefix.Parse
import Lox.Proofs.Completion.Writing
import Lox.Proofs.Completion.Mends
import Lox.Proofs.Completion.Shortest
import Lox.Proofs.Completion.Reader
import Lox.Proofs.Completion.Assignment
import Lox.Proofs.Completion.Closing
import Lox.Proofs.Completion.Parse
import Lox.Proofs.Bounds.Cancellation
import Lox.Proofs.Bounds.Loopless
import Lox.Proofs.Trace.Session
import Lox.Proofs.Scope.Lexical
import Lox.Proofs.Natives.Admission
import Lox.Proofs.Core.Reading
import Lox.Proofs.Spans.Gaps
import Lox.Proofs.Spans.Exact
import Lox.Proofs.Spans.Concat
import Lox.Proofs.Receiver.Session
import Lox.Proofs.Scope.Bound
import Lox.Proofs.Comments.Format
import Lox.Proofs.Sexpr.RoundTrip
import Lox.Proofs.Failure.Session
import Lox.Proofs.Frames.Chains
import Lox.Proofs.Ancestry.Evaluation
import Lox.Proofs.Ancestry.Session
import Lox.Proofs.Progress.Places
import Lox.Proofs.Progress.Rounds
import Lox.Proofs.Progress.Steps
import Lox.Proofs.Progress.Termination
import Lox.Proofs.Repl
