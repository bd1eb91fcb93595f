import Lox.Proofs.Progress.Places

set_option autoImplicit false
set_option relaxedAutoImplicit false

namespace Lox.Parser

/-- The pieces of a program that are read, by what reading them gives. -/
inductive Piece : Type → Type
  | paramsFrom (count : Nat) : Piece (List Param)
  | expression : Piece Expr
  | conditional : Piece Expr
  | chain (tier : Tier) : Piece Expr
  | chainAfter (tier : Tier) (left : Expr) : Piece Expr
  | operand (tier : Tier) : Piece Expr
  | unary : Piece Expr
  | callAfter (head : Expr) : Piece Expr
  | arguments : Piece (List Expr × Token)
  | argumentsFrom (count : Nat) : Piece (List Expr × Token)
  | primary : Piece Expr
  | blockBody : Piece (List Stmt)
  | declarations (closing : Option Mark) : Piece (List Stmt)
  | declaration : Piece Stmt
  | classDecl : Piece Stmt
  | members : Piece (List FunDecl × List FunDecl)
  | funDecl (start : Span) (role : FunRole) : Piece FunDecl
  | varDecl : Piece Stmt
  | initializer : Piece (Option Expr)
  | statement : Piece Stmt
  | expressionUnless (mark : Mark) : Piece (Option Expr)
  | exprStmt : Piece Stmt
  | forStmt : Piece Stmt
  | forInit : Piece (Option Stmt)
  | ifStmt : Piece Stmt
  | whileStmt : Piece Stmt

/-- A reader for each piece. -/
abbrev Readers := ∀ {α : Type}, Piece α → Parser α

def Piece.read (fuel : Nat) : Readers
  | _, .paramsFrom count => Parser.paramsFrom fuel count
  | _, .expression => Parser.expression fuel
  | _, .conditional => Parser.conditional fuel
  | _, .chain tier => Parser.chain fuel tier
  | _, .chainAfter tier left => Parser.chainAfter fuel tier left
  | _, .operand tier => Parser.operand fuel tier
  | _, .unary => Parser.unary fuel
  | _, .callAfter head => Parser.callAfter fuel head
  | _, .arguments => Parser.arguments fuel
  | _, .argumentsFrom count => Parser.argumentsFrom fuel count
  | _, .primary => Parser.primary fuel
  | _, .blockBody => Parser.blockBody fuel
  | _, .declarations closing => Parser.declarations fuel closing
  | _, .declaration => Parser.declaration fuel
  | _, .classDecl => Parser.classDecl fuel
  | _, .members => Parser.members fuel
  | _, .funDecl start role => Parser.funDecl fuel start role
  | _, .varDecl => Parser.varDecl fuel
  | _, .initializer => Parser.initializer fuel
  | _, .statement => Parser.statement fuel
  | _, .expressionUnless mark => Parser.expressionUnless fuel mark
  | _, .exprStmt => Parser.exprStmt fuel
  | _, .forStmt => Parser.forStmt fuel
  | _, .forInit => Parser.forInit fuel
  | _, .ifStmt => Parser.ifStmt fuel
  | _, .whileStmt => Parser.whileStmt fuel

def paramsBy (r : Readers) : Parser (List Param) := do
  if ← accept (.mark .rightParen) then return []
  else r (.paramsFrom 0)

/-- One round: a piece is read, and the pieces in it are left to other readers. -/
def Piece.round (r : Readers) {α : Type} : Piece α → Parser α
  | .paramsFrom count => do
    if maxArgs ≤ count then note .tooManyParams (← current)
    let t ← expect .name .paramName
    let param : Param := { span := t.span, name := t.text }
    if ← accept (.mark .comma) then
      return param :: (← r (.paramsFrom (count + 1)))
    else
      let _ ← expectMark .rightParen .paramsEnd
      return [param]
  | .expression => do
    let left ← r .conditional
    if (← peek) = .mark .equal then
      let equals ← next
      let value ← r .expression
      match left with
      | .name use => return .assign { use with span := use.span.cover value.span } value
      | .get span object name => return .set (span.cover value.span) object name value
      | _ =>
        note .badTarget equals
        return left
    else return left
  | .conditional => do
    let condition ← r (.chain .or)
    if ← accept (.mark .question) then
      let yes ← r .expression
      let _ ← expectMark .colon .otherwise
      let no ← r .conditional
      return .conditional (condition.span.cover no.span) condition yes no
    else return condition
  | .chain tier => do
    let left ← r (.operand tier)
    r (.chainAfter tier left)
  | .chainAfter tier left => do
    match tier.operator? (← peek) with
    | none => return left
    | some op =>
      let _ ← next
      let right ← r (.operand tier)
      r (.chainAfter tier (op.apply left right))
  | .operand tier =>
    match tier.tighter? with
    | some tighter => r (.chain tighter)
    | none => r .unary
  | .unary => do
    let t ← current
    match t.kind with
    | .mark .bang => do
      let _ ← next
      let inner ← r .unary
      return .unary (t.span.cover inner.span) .not inner
    | .mark .minus => do
      let _ ← next
      let inner ← r .unary
      return .unary (t.span.cover inner.span) .negate inner
    | _ => do
      let head ← r .primary
      r (.callAfter head)
  | .callAfter head => do
    match ← peek with
    | .mark .leftParen => do
      let _ ← next
      let (args, stop) ← r .arguments
      r (.callAfter (.call (head.span.cover stop.span) head args))
    | .mark .dot => do
      let _ ← next
      let t ← expect .name .propertyName
      r (.callAfter (.get (head.span.cover t.span) head t.text))
    | _ => return head
  | .arguments => do
    if (← peek) = .mark .rightParen then return ([], ← next)
    else r (.argumentsFrom 0)
  | .argumentsFrom count => do
    if maxArgs ≤ count then note .tooManyArgs (← current)
    let arg ← r .expression
    if ← accept (.mark .comma) then
      let (args, stop) ← r (.argumentsFrom (count + 1))
      return (arg :: args, stop)
    else
      let stop ← expectMark .rightParen .argsEnd
      return ([arg], stop)
  | .primary => do
    let t ← current
    match t.kind with
    | .keyword .false_ => do
      let _ ← next
      return .literal t.span (.bool false)
    | .keyword .true_ => do
      let _ ← next
      return .literal t.span (.bool true)
    | .keyword .nil_ => do
      let _ ← next
      return .literal t.span .nil
    | .number => do
      let _ ← next
      match Decimal.read? t.text with
      | some x => return .literal t.span (.number x)
      | none =>
        note (.badNumber t.text) t
        fail
    | .string => do
      let _ ← next
      return .literal t.span (.string t.text)
    | .keyword .this_ => do
      let _ ← next
      return .this t.span none
    | .keyword .super_ => do
      let _ ← next
      let _ ← expectMark .dot .superDot
      let method ← expect .name .superMethod
      return .super (t.span.cover method.span) method.text none
    | .name => do
      let _ ← next
      return .name { span := t.span, name := t.text, hops := none }
    | .keyword .fun_ => do
      let _ ← next
      let _ ← expectMark .leftParen .lambdaParams
      let ps ← paramsBy r
      let _ ← expectMark .leftBrace (.funBody .function)
      let body ← r .blockBody
      return .lambda (← spanFrom t.span) ps body
    | .mark .leftParen => do
      let _ ← next
      let inner ← r .expression
      let _ ← expectMark .rightParen .groupEnd
      return .grouping (← spanFrom t.span) inner
    | _ => do
      note (.lacks .expression) t
      fail
  | .blockBody => do
    let body ← r (.declarations (some .rightBrace))
    let _ ← expectMark .rightBrace .blockEnd
    return body
  | .declarations closing => do
    if ← atListEnd closing then return []
    else
      let first ← recover (r .declaration)
      let others ← r (.declarations closing)
      return first.toList ++ others
  | .declaration => do
    match ← peek with
    | .keyword .class_ => r .classDecl
    | .keyword .fun_ => do
      if (← peekSecond) = .name then
        let start ← next
        return .funDecl (← r (.funDecl start.span .function))
      else r .statement
    | .keyword .var_ => r .varDecl
    | _ => r .statement
  | .classDecl => do
    let start ← next
    let name ← expect .name .className
    let superclass ← superclassUse
    let _ ← expectMark .leftBrace .classBody
    let (methods, statics) ← r .members
    let _ ← expectMark .rightBrace .classEnd
    return .classDecl (← spanFrom start.span) name.text superclass methods statics
  | .members => do
    if ← atListEnd (some .rightBrace) then return ([], [])
    else
      let t ← current
      if t.kind = .keyword .class_ then
        let _ ← next
        let static ← r (.funDecl t.span .staticMethod)
        let (methods, statics) ← r .members
        return (methods, static :: statics)
      else
        let method ← r (.funDecl t.span .method)
        let (methods, statics) ← r .members
        return (method :: methods, statics)
  | .funDecl start role => do
    let name ← expect .name (.funName role)
    let _ ← expectMark .leftParen (.funParams role)
    let ps ← paramsBy r
    let _ ← expectMark .leftBrace (.funBody role)
    let body ← r .blockBody
    return .mk (← spanFrom start) name.text ps body
  | .varDecl => do
    let start ← next
    let name ← expect .name .varName
    let init ← r .initializer
    let _ ← expectMark .semicolon .varEnd
    return .varDecl (← spanFrom start.span) name.text init
  | .initializer => do
    if ← accept (.mark .equal) then return some (← r .expression)
    else return none
  | .statement => do
    let t ← current
    match t.kind with
    | .keyword .for_ => r .forStmt
    | .keyword .if_ => r .ifStmt
    | .keyword .print_ => do
      let _ ← next
      let value ← r .expression
      let _ ← expectMark .semicolon .printEnd
      return .printStmt (← spanFrom t.span) value
    | .keyword .return_ => do
      let _ ← next
      let value ← r (.expressionUnless .semicolon)
      let _ ← expectMark .semicolon .returnEnd
      return .returnStmt (← spanFrom t.span) value
    | .keyword .while_ => r .whileStmt
    | .keyword .break_ => do
      let _ ← next
      let _ ← expectMark .semicolon .breakEnd
      return .breakStmt (← spanFrom t.span)
    | .mark .leftBrace => do
      let _ ← next
      let body ← r .blockBody
      return .block (← spanFrom t.span) body
    | _ => r .exprStmt
  | .expressionUnless mark => do
    if (← peek) = .mark mark then return none
    else return some (← r .expression)
  | .exprStmt => do
    let t ← current
    let value ← r .expression
    let _ ← expectMark .semicolon .statementEnd
    return .exprStmt (← spanFrom t.span) value
  | .forStmt => do
    let start ← next
    let _ ← expectMark .leftParen .forHead
    let init ← r .forInit
    let condition ← r (.expressionUnless .semicolon)
    let _ ← expectMark .semicolon .forCondition
    let step ← r (.expressionUnless .rightParen)
    let _ ← expectMark .rightParen .forEnd
    let body ← r .statement
    return .forStmt (← spanFrom start.span) init condition step body
  | .forInit => do
    match ← peek with
    | .mark .semicolon => do
      let _ ← next
      return none
    | .keyword .var_ => return some (← r .varDecl)
    | _ => return some (← r .exprStmt)
  | .ifStmt => do
    let start ← next
    let _ ← expectMark .leftParen .ifHead
    let condition ← r .expression
    let _ ← expectMark .rightParen .ifEnd
    let yes ← r .statement
    if ← accept (.keyword .else_) then
      let no ← r .statement
      return .ifStmt (← spanFrom start.span) condition yes (some no)
    else return .ifStmt (← spanFrom start.span) condition yes none
  | .whileStmt => do
    let start ← next
    let _ ← expectMark .leftParen .whileHead
    let condition ← r .expression
    let _ ← expectMark .rightParen .whileEnd
    let body ← r .statement
    return .whileStmt (← spanFrom start.span) condition body

/-- Rounds one inside the other, to some depth; deeper, it is left to given readers. -/
def Piece.readOver (base : Readers) : Nat → Readers
  | 0, _, p => base p
  | depth + 1, _, p => p.round (readOver base depth)

namespace Piece

variable {α β : Type}

theorem read_succ (fuel : Nat) (p : Piece α) : p.read (fuel + 1) = p.round (read fuel) := by
  cases p <;> rfl

private theorem read_zero (p : Piece α) : p.read 0 = fail := by
  cases p <;> rfl

theorem read_eq_readOver (fuel : Nat) (p : Piece α) :
    p.read fuel = p.readOver (fun _ => fail) fuel := by
  induction fuel generalizing α with
  | zero => exact p.read_zero
  | succ fuel ih =>
    have heq : @read fuel = @readOver (fun _ => fail) fuel := by
      funext α p
      exact ih p
    rw [read_succ, readOver, heq]

theorem readOver_add (base : Readers) (n k : Nat) (p : Piece α) :
    p.readOver base (n + k) = p.readOver (readOver base k) n := by
  induction n generalizing α with
  | zero => rw [Nat.zero_add]; rfl
  | succ n ih =>
    have heq : @readOver base (n + k) = @readOver (@readOver base k) n := by
      funext α p
      exact ih p
    rw [Nat.succ_add, readOver, readOver, heq]

def rank {α : Type} : Piece α → Nat
  | .blockBody => 21
  | .declarations _ => 20
  | .declaration => 19
  | .statement | .arguments | .forInit => 18
  | .argumentsFrom _ | .initializer | .expressionUnless _ | .exprStmt => 17
  | .expression => 16
  | .conditional => 15
  | .chain .or => 14
  | .operand .or => 13
  | .chain .and => 12
  | .operand .and => 11
  | .chain .equality => 10
  | .operand .equality => 9
  | .chain .comparison => 8
  | .operand .comparison => 7
  | .chain .term => 6
  | .operand .term => 5
  | .chain .factor => 4
  | .operand .factor => 3
  | .unary | .members => 2
  | .primary | .callAfter _ | .chainAfter _ _ | .paramsFrom _ | .classDecl | .funDecl _ _ | .varDecl
  | .forStmt | .ifStmt | .whileStmt => 1

/-- A piece that begins at a place comes before another: it begins further on, or at the same token
and has a lower rank. -/
def Before (p : Piece α) (pos : Nat) (q : Piece β) (pos' : Nat) : Prop :=
  pos' < pos ∨ pos = pos' ∧ p.rank < q.rank

def takes {α : Type} : Piece α → Bool
  | .chainAfter _ _ | .callAfter _ | .declarations _ | .members | .initializer
  | .expressionUnless _ => false
  | _ => true

theorem rank_lt (p : Piece α) : p.rank < 32 := by
  cases p with
  | chain tier => cases tier <;> decide
  | operand tier => cases tier <;> decide
  | _ => exact Nat.le_of_ble_eq_true rfl

end Piece

/-- The loops of the grammar. -/
inductive Loop
  | params
  | operators (tier : Tier)
  | calls
  | arguments
  | declarations (closing : Option Mark)
  | members

def Loop.rank : Loop → Nat
  | .declarations _ => 20
  | .arguments => 17
  | .members => 2
  | .params | .operators _ | .calls => 1

namespace Piece

variable {α β : Type} {p : Piece α} {q : Piece β} {pos pos' : Nat} {l : Loop}

/-- The loop of which a piece is one turn and those that follow. -/
def loop? {α : Type} : Piece α → Option Loop
  | .paramsFrom _ => some .params
  | .chainAfter tier _ => some (.operators tier)
  | .callAfter _ => some .calls
  | .argumentsFrom _ => some .arguments
  | .declarations closing => some (.declarations closing)
  | .members => some .members
  | _ => none

private theorem rank_of_loop? (hp : p.loop? = some l) : p.rank = l.rank := by
  cases p <;> cases hp <;> rfl

theorem Before.lt_of_loop? (h : p.Before pos q pos') (hp : p.loop? = some l)
    (hq : q.loop? = some l) : pos' < pos := by
  rcases h with hlt | ⟨-, hrank⟩
  · exact hlt
  · rw [rank_of_loop? hp, rank_of_loop? hq] at hrank
    exact absurd hrank (Nat.lt_irrefl _)

/-- How many rounds can be one inside the other before the tokens from a place on are read. -/
def size (ts : List Token) (p : Piece α) (pos : Nat) : Nat := 32 * (ts.length - pos) + p.rank

theorem Before.size_lt {ts : List Token} (h : p.Before pos q pos') (hpos : pos' < ts.length) :
    p.size ts pos < q.size ts pos' := by
  have hp := p.rank_lt
  unfold size
  rcases h with hlt | ⟨rfl, hrank⟩
  · omega
  · omega

end Piece

end Lox.Parser
