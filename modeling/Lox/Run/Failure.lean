import Lox.Diagnostic
import Lox.Text.Quoted

set_option autoImplicit false
set_option relaxedAutoImplicit false

namespace Lox

open Text (lit)

/-- The errors of a running program. -/
inductive RuntimeError
  | operandNotNumber
  | operandsNotNumbers
  | operandsNotAddable
  | divisionByZero
  | undefinedVariable (name : Text)
  | undefinedProperty (name : Text)
  | notCallable
  | wrongArity (expected got : Nat)
  | noFields
  | noProperties
  | badSuperclass
  | stackOverflow
  | canceled
  | raised (code : Code) (message : Text)
  deriving DecidableEq

namespace RuntimeError

def code : RuntimeError → Code
  | operandNotNumber | operandsNotNumbers | operandsNotAddable => .type
  | divisionByZero => .divZero
  | undefinedVariable _ => .undefinedVar
  | undefinedProperty _ => .undefinedProp
  | notCallable => .notCallable
  | wrongArity _ _ => .arity
  | noFields | noProperties => .notInstance
  | badSuperclass => .superclass
  | stackOverflow => .stackOverflow
  | canceled => .canceled
  | raised c _ => c

def message : RuntimeError → Text
  | operandNotNumber => lit "Operand must be a number."
  | operandsNotNumbers => lit "Operands must be numbers."
  | operandsNotAddable => lit "Operands must be two numbers or two strings."
  | divisionByZero => lit "Division by zero."
  | undefinedVariable name => lit "Undefined variable '" ++ name ++ lit "'."
  | undefinedProperty name => lit "Undefined property '" ++ name ++ lit "'."
  | notCallable => lit "Can only call functions and classes."
  | wrongArity expected got =>
    lit "Expected " ++ .ofNat expected ++ lit " arguments but got " ++ .ofNat got ++ lit "."
  | noFields => lit "Only instances have fields."
  | noProperties => lit "Only instances have properties."
  | badSuperclass => lit "Superclass must be a class."
  | stackOverflow => lit "Stack overflow."
  | canceled => lit "Execution canceled."
  | raised _ m => m

end RuntimeError

/-- Broken agreements, which no resolved program can bring about. -/
inductive InternalError
  | escapedSignal
  | escapedBreak (function : Text)
  | noReceiver
  | missingBinding (name : Text) (distance : Int)
  | unresolvedSuper
  | superNotClass
  | thisMissing
  | missingArgument (index : Nat)
  | unknownUnary (spelling : Text)
  | unknownBinary (spelling : Text)
  | reported (message : Text)
  deriving DecidableEq

namespace InternalError

def message : InternalError → Text
  | escapedSignal => lit "control signal escaped to top level"
  | escapedBreak f => lit "break escaped function body " ++ f
  | noReceiver => lit "initializer called without a receiver"
  | missingBinding name distance =>
    lit "resolved '" ++ name ++ lit "' at distance " ++ .ofInt distance ++
      lit " but frame has no binding"
  | unresolvedSuper => lit "unresolved 'super'"
  | superNotClass => lit "'super' is not bound to a class"
  | thisMissing => lit "'this' missing below 'super'"
  | missingArgument index => lit "no argument at index " ++ .ofNat index
  | unknownUnary spelling => lit "unknown unary operator " ++ Text.quoted spelling
  | unknownBinary spelling => lit "unknown binary operator " ++ Text.quoted spelling
  | reported m => m

end InternalError

/-- How a run failed, and where if that is known. -/
inductive Failure
  | runtime (error : RuntimeError) (span : Option Span)
  | internal (error : InternalError) (span : Option Span)
  | plain (message : Text)
  deriving DecidableEq

namespace Failure

/-- A failure that passed through a call. The call gives its place to a failure without one, and
makes a plain error of a native function an error of the program. -/
def attach (span : Span) : Failure → Failure
  | runtime e none => runtime e (some span)
  | plain m => runtime (.raised .native m) (some span)
  | f => f

def diagnostic : Failure → Diagnostic
  | runtime e span => { code := e.code, message := e.message, span }
  | internal e span => { code := .fault, message := e.message, span }
  | plain m => { code := .fault, message := m }

def message : Failure → Text
  | runtime e _ => e.message
  | internal e _ => lit "internal error: " ++ e.message
  | plain m => m

end Failure
end Lox
