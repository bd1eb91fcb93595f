import Lox.Decimal.Reader
import Lox.Parser.Cursor
import Lox.Syntax.Basic
import Lox.Token.Scan

/-!
The grammar, read from the top down with one token in sight, and two to tell a declared function
from a nameless one. Every reader takes a bound on the depth of reading, which a wrapper computes
from the number of tokens so that it is never reached.
-/

set_option autoImplicit false
set_option relaxedAutoImplicit false

namespace Lox.Parser

/-- The tiers of operators that associate to the left, loosest first. -/
inductive Tier
  | or
  | and
  | equality
  | comparison
  | term
  | factor
  deriving DecidableEq

inductive Operator
  | logical (op : LogicalOp)
  | binary (op : BinaryOp)
  deriving DecidableEq

namespace Tier

/-- The next tighter tier; the operands of the tightest are unary expressions. -/
def tighter? : Tier → Option Tier
  | or => some and
  | and => some equality
  | equality => some comparison
  | comparison => some term
  | term => some factor
  | factor => none

def operator? : Tier → Token.Kind → Option Operator
  | or, .keyword .or_ => some (.logical .or)
  | and, .keyword .and_ => some (.logical .and)
  | equality, .mark .bangEqual => some (.binary .notEqual)
  | equality, .mark .equalEqual => some (.binary .equal)
  | comparison, .mark .greater => some (.binary .greater)
  | comparison, .mark .greaterEqual => some (.binary .greaterEqual)
  | comparison, .mark .less => some (.binary .less)
  | comparison, .mark .lessEqual => some (.binary .lessEqual)
  | term, .mark .minus => some (.binary .sub)
  | term, .mark .plus => some (.binary .add)
  | factor, .mark .slash => some (.binary .div)
  | factor, .mark .star => some (.binary .mul)
  | _, _ => none

end Tier

def Operator.apply (op : Operator) (left right : Expr) : Expr :=
  let span := left.span.cover right.span
  match op with
  | logical op => .logical span op left right
  | binary op => .binary span op left right

/-- The parameters up to the closing parenthesis, `count` of them read already. -/
def paramsFrom : Nat → Nat → Parser (List Param)
  | 0, _ => fail
  | fuel + 1, count => do
    if maxArgs ≤ count then note .tooManyParams (← current)
    let t ← expect .name .paramName
    let param : Param := { span := t.span, name := t.text }
    if ← accept (.mark .comma) then
      return param :: (← paramsFrom fuel (count + 1))
    else
      let _ ← expectMark .rightParen .paramsEnd
      return [param]

def params (fuel : Nat) : Parser (List Param) := do
  if ← accept (.mark .rightParen) then return []
  else paramsFrom fuel 0

def superclassUse : Parser (Option NameUse) := do
  if ← accept (.mark .less) then
    let t ← expect .name .superclassName
    return some { span := t.span, name := t.text, hops := none }
  else return none

mutual

def expression : Nat → Parser Expr
  | 0 => fail
  | fuel + 1 => do
    let left ← conditional fuel
    if (← peek) = .mark .equal then
      let equals ← next
      let value ← expression fuel
      match left with
      | .name use => return .assign { use with span := use.span.cover value.span } value
      | .get span object name => return .set (span.cover value.span) object name value
      | _ =>
        note .badTarget equals
        return left
    else return left

def conditional : Nat → Parser Expr
  | 0 => fail
  | fuel + 1 => do
    let condition ← chain fuel .or
    if ← accept (.mark .question) then
      let yes ← expression fuel
      let _ ← expectMark .colon .otherwise
      let no ← conditional fuel
      return .conditional (condition.span.cover no.span) condition yes no
    else return condition

def chain : Nat → Tier → Parser Expr
  | 0, _ => fail
  | fuel + 1, tier => do
    let left ← operand fuel tier
    chainAfter fuel tier left

def chainAfter : Nat → Tier → Expr → Parser Expr
  | 0, _, _ => fail
  | fuel + 1, tier, left => do
    match tier.operator? (← peek) with
    | none => return left
    | some op =>
      let _ ← next
      let right ← operand fuel tier
      chainAfter fuel tier (op.apply left right)

def operand : Nat → Tier → Parser Expr
  | 0, _ => fail
  | fuel + 1, tier =>
    match tier.tighter? with
    | some tighter => chain fuel tighter
    | none => unary fuel

def unary : Nat → Parser Expr
  | 0 => fail
  | fuel + 1 => do
    let t ← current
    match t.kind with
    | .mark .bang => do
      let _ ← next
      let inner ← unary fuel
      return .unary (t.span.cover inner.span) .not inner
    | .mark .minus => do
      let _ ← next
      let inner ← unary fuel
      return .unary (t.span.cover inner.span) .negate inner
    | _ => do
      let head ← primary fuel
      callAfter fuel head

def callAfter : Nat → Expr → Parser Expr
  | 0, _ => fail
  | fuel + 1, head => do
    match ← peek with
    | .mark .leftParen => do
      let _ ← next
      let (args, stop) ← arguments fuel
      callAfter fuel (.call (head.span.cover stop.span) head args)
    | .mark .dot => do
      let _ ← next
      let t ← expect .name .propertyName
      callAfter fuel (.get (head.span.cover t.span) head t.text)
    | _ => return head

/-- The arguments of a call after the opening parenthesis, and the closing one. -/
def arguments : Nat → Parser (List Expr × Token)
  | 0 => fail
  | fuel + 1 => do
    if (← peek) = .mark .rightParen then return ([], ← next)
    else argumentsFrom fuel 0

/-- The arguments up to the closing parenthesis, `count` of them read already. -/
def argumentsFrom : Nat → Nat → Parser (List Expr × Token)
  | 0, _ => fail
  | fuel + 1, count => do
    if maxArgs ≤ count then note .tooManyArgs (← current)
    let arg ← expression fuel
    if ← accept (.mark .comma) then
      let (args, stop) ← argumentsFrom fuel (count + 1)
      return (arg :: args, stop)
    else
      let stop ← expectMark .rightParen .argsEnd
      return ([arg], stop)

/-- An expression that begins with no operator and ends before any call. -/
def primary : Nat → Parser Expr
  | 0 => fail
  | fuel + 1 => do
    let t ← current
    match t.kind with
    | .keyword .false_ => do
      let _ ← next
      return .literal t.span (.bool false)
    | .keyword .true_ => do
      let _ ← next
      return .literal t.span (.bool true)
    | .keyword .nil_ => do
      let _ ← next
      return .literal t.span .nil
    | .number => do
      let _ ← next
      match Decimal.read? t.text with
      | some x => return .literal t.span (.number x)
      | none =>
        note (.badNumber t.text) t
        fail
    | .string => do
      let _ ← next
      return .literal t.span (.string t.text)
    | .keyword .this_ => do
      let _ ← next
      return .this t.span none
    | .keyword .super_ => do
      let _ ← next
      let _ ← expectMark .dot .superDot
      let method ← expect .name .superMethod
      return .super (t.span.cover method.span) method.text none
    | .name => do
      let _ ← next
      return .name { span := t.span, name := t.text, hops := none }
    | .keyword .fun_ => do
      let _ ← next
      let _ ← expectMark .leftParen .lambdaParams
      let ps ← params fuel
      let _ ← expectMark .leftBrace (.funBody .function)
      let body ← blockBody fuel
      return .lambda (← spanFrom t.span) ps body
    | .mark .leftParen => do
      let _ ← next
      let inner ← expression fuel
      let _ ← expectMark .rightParen .groupEnd
      return .grouping (← spanFrom t.span) inner
    | _ => do
      note (.lacks .expression) t
      fail

def blockBody : Nat → Parser (List Stmt)
  | 0 => fail
  | fuel + 1 => do
    let body ← declarations fuel (some .rightBrace)
    let _ ← expectMark .rightBrace .blockEnd
    return body

/-- Declarations up to the end of the source, or to a closing mark. Those that cannot be read are
left out. -/
def declarations : Nat → Option Mark → Parser (List Stmt)
  | 0, _ => fail
  | fuel + 1, closing => do
    if ← atListEnd closing then return []
    else
      let first ← recover (declaration fuel)
      let others ← declarations fuel closing
      return first.toList ++ others

/-- A declaration of a class, a function or a variable, or a statement. -/
def declaration : Nat → Parser Stmt
  | 0 => fail
  | fuel + 1 => do
    match ← peek with
    | .keyword .class_ => classDecl fuel
    | .keyword .fun_ => do
      if (← peekSecond) = .name then
        let start ← next
        return .funDecl (← funDecl fuel start.span .function)
      else statement fuel
    | .keyword .var_ => varDecl fuel
    | _ => statement fuel

def classDecl : Nat → Parser Stmt
  | 0 => fail
  | fuel + 1 => do
    let start ← next
    let name ← expect .name .className
    let superclass ← superclassUse
    let _ ← expectMark .leftBrace .classBody
    let (methods, statics) ← members fuel
    let _ ← expectMark .rightBrace .classEnd
    return .classDecl (← spanFrom start.span) name.text superclass methods statics

/-- The methods and static methods of a class, up to its closing brace. -/
def members : Nat → Parser (List FunDecl × List FunDecl)
  | 0 => fail
  | fuel + 1 => do
    if ← atListEnd (some .rightBrace) then return ([], [])
    else
      let t ← current
      if t.kind = .keyword .class_ then
        let _ ← next
        let static ← funDecl fuel t.span .staticMethod
        let (methods, statics) ← members fuel
        return (methods, static :: statics)
      else
        let method ← funDecl fuel t.span .method
        let (methods, statics) ← members fuel
        return (method :: methods, statics)

def funDecl : Nat → Span → FunRole → Parser FunDecl
  | 0, _, _ => fail
  | fuel + 1, start, role => do
    let name ← expect .name (.funName role)
    let _ ← expectMark .leftParen (.funParams role)
    let ps ← params fuel
    let _ ← expectMark .leftBrace (.funBody role)
    let body ← blockBody fuel
    return .mk (← spanFrom start) name.text ps body

def varDecl : Nat → Parser Stmt
  | 0 => fail
  | fuel + 1 => do
    let start ← next
    let name ← expect .name .varName
    let init ← initializer fuel
    let _ ← expectMark .semicolon .varEnd
    return .varDecl (← spanFrom start.span) name.text init

def initializer : Nat → Parser (Option Expr)
  | 0 => fail
  | fuel + 1 => do
    if ← accept (.mark .equal) then return some (← expression fuel)
    else return none

def statement : Nat → Parser Stmt
  | 0 => fail
  | fuel + 1 => do
    let t ← current
    match t.kind with
    | .keyword .for_ => forStmt fuel
    | .keyword .if_ => ifStmt fuel
    | .keyword .print_ => do
      let _ ← next
      let value ← expression fuel
      let _ ← expectMark .semicolon .printEnd
      return .printStmt (← spanFrom t.span) value
    | .keyword .return_ => do
      let _ ← next
      let value ← expressionUnless fuel .semicolon
      let _ ← expectMark .semicolon .returnEnd
      return .returnStmt (← spanFrom t.span) value
    | .keyword .while_ => whileStmt fuel
    | .keyword .break_ => do
      let _ ← next
      let _ ← expectMark .semicolon .breakEnd
      return .breakStmt (← spanFrom t.span)
    | .mark .leftBrace => do
      let _ ← next
      let body ← blockBody fuel
      return .block (← spanFrom t.span) body
    | _ => exprStmt fuel

def expressionUnless : Nat → Mark → Parser (Option Expr)
  | 0, _ => fail
  | fuel + 1, mark => do
    if (← peek) = .mark mark then return none
    else return some (← expression fuel)

def exprStmt : Nat → Parser Stmt
  | 0 => fail
  | fuel + 1 => do
    let t ← current
    let value ← expression fuel
    let _ ← expectMark .semicolon .statementEnd
    return .exprStmt (← spanFrom t.span) value

def forStmt : Nat → Parser Stmt
  | 0 => fail
  | fuel + 1 => do
    let start ← next
    let _ ← expectMark .leftParen .forHead
    let init ← forInit fuel
    let condition ← expressionUnless fuel .semicolon
    let _ ← expectMark .semicolon .forCondition
    let step ← expressionUnless fuel .rightParen
    let _ ← expectMark .rightParen .forEnd
    let body ← statement fuel
    return .forStmt (← spanFrom start.span) init condition step body

def forInit : Nat → Parser (Option Stmt)
  | 0 => fail
  | fuel + 1 => do
    match ← peek with
    | .mark .semicolon => do
      let _ ← next
      return none
    | .keyword .var_ => return some (← varDecl fuel)
    | _ => return some (← exprStmt fuel)

def ifStmt : Nat → Parser Stmt
  | 0 => fail
  | fuel + 1 => do
    let start ← next
    let _ ← expectMark .leftParen .ifHead
    let condition ← expression fuel
    let _ ← expectMark .rightParen .ifEnd
    let yes ← statement fuel
    if ← accept (.keyword .else_) then
      let no ← statement fuel
      return .ifStmt (← spanFrom start.span) condition yes (some no)
    else return .ifStmt (← spanFrom start.span) condition yes none

def whileStmt : Nat → Parser Stmt
  | 0 => fail
  | fuel + 1 => do
    let start ← next
    let _ ← expectMark .leftParen .whileHead
    let condition ← expression fuel
    let _ ← expectMark .rightParen .whileEnd
    let body ← statement fuel
    return .whileStmt (← spanFrom start.span) condition body

end

/-- How deep the reading of so many tokens can go: a few steps for each tier, between two tokens. -/
def depthFor (tokens : List Token) : Nat := 32 * (tokens.length + 2)

end Lox.Parser

namespace Lox.Program

open Lox.Parser

/-- The tokens with an end, if they have none. -/
def closed (file : Text) (tokens : List Token) : List Token :=
  match tokens.getLast? with
  | some t => if t.kind = .eof then tokens else tokens ++ [.endOf file]
  | none => [.endOf file]

/-- Reads a program from tokens, or tells everything that is wrong with it. -/
def ofTokens (file : Text) (tokens : List Token) : Except (List Diagnostic) Program :=
  let tokens := closed file tokens
  let first := tokens.headD (.endOf file)
  let cursor : Cursor := { previous := first, current := first, rest := tokens.tail, faults := [] }
  match declarations (depthFor tokens) none cursor with
  | (some body, c) =>
    if c.faults.isEmpty then .ok { span := first.span.cover c.current.span, body }
    else .error c.faults.reverse
  | (none, c) => .error c.faults.reverse

/-- Reads a program from its source. -/
def parse (file source : Text) : Except (List Diagnostic) Program :=
  match Token.scan file source with
  | .ok tokens => ofTokens file tokens
  | .error f => .error [f.hinted]

end Lox.Program
