import Lox.Diagnostic
import Lox.Token.Basic

set_option autoImplicit false
set_option relaxedAutoImplicit false

namespace Lox.Parser

open Text (lit)

/-- The three places where a function with a name can stand. -/
inductive FunRole
  | function
  | method
  | staticMethod
  deriving DecidableEq

def FunRole.word : FunRole → Text
  | .function => lit "function"
  | .method => lit "method"
  | .staticMethod => lit "static method"

inductive Wanted
  | expression
  | className | superclassName | classBody | classEnd
  | funName (role : FunRole) | funParams (role : FunRole) | funBody (role : FunRole)
  | lambdaParams | paramName | paramsEnd
  | varName | varEnd | blockEnd
  | forHead | forCondition | forEnd
  | ifHead | ifEnd | whileHead | whileEnd
  | printEnd | returnEnd | breakEnd | statementEnd
  | otherwise | propertyName | argsEnd | superDot | superMethod | groupEnd
  deriving DecidableEq

def Wanted.message : Wanted → Text
  | expression => lit "Expect expression."
  | className => lit "Expect class name."
  | superclassName => lit "Expect superclass name."
  | classBody => lit "Expect '\x7b' before class body."
  | classEnd => lit "Expect '\x7d' after class body."
  | funName role => lit "Expect " ++ role.word ++ lit " name."
  | funParams role => lit "Expect '(' after " ++ role.word ++ lit " name."
  | funBody role => lit "Expect '\x7b' before " ++ role.word ++ lit " body."
  | lambdaParams => lit "Expect '(' after 'fun'."
  | paramName => lit "Expect parameter name."
  | paramsEnd => lit "Expect ')' after parameters."
  | varName => lit "Expect variable name."
  | varEnd => lit "Expect ';' after variable declaration."
  | blockEnd => lit "Expect '\x7d' after block."
  | forHead => lit "Expect '(' after 'for'."
  | forCondition => lit "Expect ';' after loop condition."
  | forEnd => lit "Expect ')' after for clauses."
  | ifHead => lit "Expect '(' after 'if'."
  | ifEnd => lit "Expect ')' after if condition."
  | whileHead => lit "Expect '(' after 'while'."
  | whileEnd => lit "Expect ')' after condition."
  | printEnd => lit "Expect ';' after value."
  | returnEnd => lit "Expect ';' after return value."
  | breakEnd => lit "Expect ';' after 'break'."
  | statementEnd => lit "Expect ';' after expression."
  | otherwise => lit "Expect ':' after then branch of conditional expression."
  | propertyName => lit "Expect property name after '.'."
  | argsEnd => lit "Expect ')' after arguments."
  | superDot => lit "Expect '.' after 'super'."
  | superMethod => lit "Expect superclass method name."
  | groupEnd => lit "Expect ')' after expression."

def maxArgs : Nat := 255

inductive Fault
  | lacks (what : Wanted)
  | tooManyParams
  | tooManyArgs
  | badNumber (text : Text)
  | badTarget
  deriving DecidableEq

def Fault.message : Fault → Text
  | lacks what => what.message
  | tooManyParams => lit "Can't have more than " ++ .ofNat maxArgs ++ lit " parameters."
  | tooManyArgs => lit "Can't have more than " ++ .ofNat maxArgs ++ lit " arguments."
  | badNumber t => lit "Invalid number literal '" ++ t ++ lit "'."
  | badTarget => lit "Invalid assignment target."

/-- A fault at a token. At the end of the source more input could mend it. -/
def Fault.diagnostic (fault : Fault) (token : Token) : Diagnostic :=
  if token.kind = .eof then
    { code := .parse, message := lit "at end: " ++ fault.message, span := some token.span,
      hint := Diagnostic.endOfInput }
  else
    { code := .parse, message := lit "at '" ++ token.text ++ lit "': " ++ fault.message,
      span := some token.span }

/-- The token last passed, the token to read, the tokens after it, and the faults, latest first. -/
structure Cursor where
  previous : Token
  current : Token
  rest : List Token
  faults : List Diagnostic

namespace Cursor

/-- One token further on; the last token is never passed. -/
def advance (c : Cursor) : Cursor :=
  match c.rest with
  | [] => c
  | t :: r => { c with previous := c.current, current := t, rest := r }

def atEnd (c : Cursor) : Bool := c.current.kind == .eof

def nextKind (c : Cursor) : Token.Kind :=
  match c.rest with
  | [] => .eof
  | t :: _ => t.kind

def note (c : Cursor) (fault : Fault) (token : Token) : Cursor :=
  { c with faults := fault.diagnostic token :: c.faults }

end Cursor
end Lox.Parser

namespace Lox

def Parser (α : Type) := Parser.Cursor → Option α × Parser.Cursor

namespace Parser

@[always_inline, inline]
def succeed {α : Type} (a : α) : Parser α := fun c => (some a, c)

/-- One reader after another; a failure ends the reading where it stands. -/
@[always_inline, inline]
def andThen {α β : Type} (p : Parser α) (k : α → Parser β) : Parser β := fun c =>
  match p c with
  | (some a, c') => k a c'
  | (none, c') => (none, c')

instance : Monad Parser where
  pure := succeed
  bind := andThen

def fail {α : Type} : Parser α := fun c => (none, c)

def current : Parser Token := fun c => (some c.current, c)

def peek : Parser Token.Kind := fun c => (some c.current.kind, c)

def peekSecond : Parser Token.Kind := fun c => (some c.nextKind, c)

def next : Parser Token := fun c => (some c.current, c.advance)

/-- Passes the token to read if it is of a kind, and tells whether it was. -/
def accept (kind : Token.Kind) : Parser Bool := fun c =>
  if c.current.kind = kind then (some true, c.advance) else (some false, c)

def note (fault : Fault) (token : Token) : Parser Unit := fun c => (some (), c.note fault token)

/-- Passes a token of a kind; notes what is lacking and fails if it is of another. -/
def expect (kind : Token.Kind) (what : Wanted) : Parser Token := fun c =>
  if c.current.kind = kind then (some c.current, c.advance)
  else (none, c.note (.lacks what) c.current)

def expectMark (mark : Mark) (what : Wanted) : Parser Token := expect (.mark mark) what

def spanFrom (start : Span) : Parser Span := fun c => (some (start.cover c.previous.span), c)

/-- Whether a list is over: at its closing mark, or at the end of the source. -/
def atListEnd (closing : Option Mark) : Parser Bool := fun c =>
  (some (c.atEnd || closing.any fun m => c.current.kind == .mark m), c)

def startsStatement : Token.Kind → Bool
  | .keyword k => k ∈ [.class_, .fun_, .var_, .for_, .if_, .while_, .print_, .return_, .break_]
  | _ => false

def resume (previous current : Token) (faults : List Diagnostic) : List Token → Cursor
  | [] => { previous, current, rest := [], faults }
  | t :: r =>
    if current.kind == .eof || previous.kind == .mark .semicolon || startsStatement current.kind
    then { previous, current, rest := t :: r, faults }
    else resume current t faults r

/-- Leaves the statement in which reading failed, and at least one token. -/
def synchronize (c : Cursor) : Cursor :=
  let c := c.advance
  resume c.previous c.current c.faults c.rest

def recover {α : Type} (p : Parser α) : Parser (Option α) := fun c =>
  match p c with
  | (some a, c') => (some (some a), c')
  | (none, c') => (some none, synchronize c')

end Parser
end Lox
