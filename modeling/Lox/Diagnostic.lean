import Lox.Json.Basic
import Lox.Span

set_option autoImplicit false
set_option relaxedAutoImplicit false

namespace Lox

open Text (lit)

/-- The kinds of diagnostics. -/
inductive Code
  | lex
  | parse
  | returnTopLevel
  | breakOutsideLoop
  | selfInit
  | dupParam
  | returnInit
  | thisOutsideClass
  | superOutsideClass
  | superNoSuperclass
  | inheritSelf
  | type
  | divZero
  | undefinedVar
  | undefinedProp
  | notCallable
  | arity
  | notInstance
  | superclass
  | stackOverflow
  | canceled
  | native
  | fault
  | io
  | config
  | custom (name : Text)
  deriving DecidableEq

namespace Code

def name : Code → Text
  | lex => lit "E_LEX"
  | parse => lit "E_PARSE"
  | returnTopLevel => lit "E_RETURN_TOP_LEVEL"
  | breakOutsideLoop => lit "E_BREAK_OUTSIDE_LOOP"
  | selfInit => lit "E_SELF_INIT"
  | dupParam => lit "E_DUP_PARAM"
  | returnInit => lit "E_RETURN_INIT"
  | thisOutsideClass => lit "E_THIS_OUTSIDE_CLASS"
  | superOutsideClass => lit "E_SUPER_OUTSIDE_CLASS"
  | superNoSuperclass => lit "E_SUPER_NO_SUPERCLASS"
  | inheritSelf => lit "E_INHERIT_SELF"
  | type => lit "E_TYPE"
  | divZero => lit "E_DIV_ZERO"
  | undefinedVar => lit "E_UNDEFINED_VAR"
  | undefinedProp => lit "E_UNDEFINED_PROP"
  | notCallable => lit "E_NOT_CALLABLE"
  | arity => lit "E_ARITY"
  | notInstance => lit "E_NOT_INSTANCE"
  | superclass => lit "E_SUPERCLASS"
  | stackOverflow => lit "E_STACK_OVERFLOW"
  | canceled => lit "E_CANCELED"
  | native => lit "E_NATIVE"
  | fault => lit "E_INTERNAL"
  | io => lit "E_IO"
  | config => lit "E_CONFIG"
  | custom n => n

def known : List Code :=
  [lex, parse, returnTopLevel, breakOutsideLoop, selfInit, dupParam, returnInit, thisOutsideClass,
    superOutsideClass, superNoSuperclass, inheritSelf, type, divZero, undefinedVar, undefinedProp,
    notCallable, arity, notInstance, superclass, stackOverflow, canceled, native, fault, io, config]

def ofName (n : Text) : Code := (known.find? fun c => c.name == n).getD (custom n)

/-- Whether a code belongs to the errors of a running program. -/
def isRuntime : Code → Bool
  | type | divZero | undefinedVar | undefinedProp | notCallable | arity | notInstance | superclass
  | stackOverflow | canceled | native => true
  | _ => false

end Code

/-- A diagnostic. An empty hint is no hint. -/
structure Diagnostic where
  code : Code
  message : Text
  span : Option Span := none
  hint : Text := []
  deriving DecidableEq

namespace Diagnostic

def endOfInput : Text := lit "unexpected end of input"

/-- Whether more lines could still mend everything that is wrong. -/
def isIncomplete (ds : List Diagnostic) : Bool :=
  !ds.isEmpty && ds.all fun d => d.hint == endOfInput

def spanJson (s : Span) : Json :=
  .object [
    (lit "file", .string s.file),
    (lit "startLine", .int s.start.line),
    (lit "startCol", .int s.start.column),
    (lit "endLine", .int s.stop.line),
    (lit "endCol", .int s.stop.column)]

/-- A diagnostic as a JSON object; a missing span or hint is left out. -/
def toJson (d : Diagnostic) : Json :=
  .object <|
    [(lit "code", .string d.code.name), (lit "message", .string d.message)] ++
    (match d.span with
      | some s => [(lit "span", spanJson s)]
      | none => []) ++
    (if d.hint.isEmpty then [] else [(lit "hint", .string d.hint)])

def pretty (d : Diagnostic) : Text :=
  let place := match d.span with
    | some s => s.file ++ lit ":" ++ .ofInt s.start.line ++ lit ":" ++ .ofInt s.start.column
    | none => lit "<unknown>"
  lit "error[" ++ d.code.name ++ lit "]: " ++ d.message ++ lit "\n  --> " ++ place ++
    (if d.hint.isEmpty then [] else lit "\n  hint: " ++ d.hint)

/-- Diagnostics as a JSON array, or as notes with an empty line between them. -/
def report (forPeople : Bool) (ds : List Diagnostic) : Text :=
  if forPeople then Text.join (lit "\n\n") (ds.map pretty)
  else (Json.array (ds.map toJson)).write

def summary (ds : List Diagnostic) : Text :=
  Text.join (lit "; ") (ds.map fun d => d.code.name ++ lit ": " ++ d.message)

end Diagnostic
end Lox
