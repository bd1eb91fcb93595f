import Lox.Proofs.Sexpr.Words

set_option autoImplicit false
set_option relaxedAutoImplicit false

namespace Lox

open Text (lit)
open Token (IsLexeme)

namespace Sexpr

/-! ### Words that are no forms -/

def atom? : Text → Option Expr
  | [] => none
  | b :: r =>
    if b = Byte.quote then some (.literal .blank (.string r.dropLast))
    else if Byte.isDigit b then (Decimal.read? (b :: r)).map fun x => .literal .blank (.number x)
    else match Keyword.ofSpelling? (b :: r) with
      | none => some (.name { span := .blank, name := b :: r, hops := none })
      | some .nil_ => some (.literal .blank .nil)
      | some .true_ => some (.literal .blank (.bool true))
      | some .false_ => some (.literal .blank (.bool false))
      | some .this_ => some (.this .blank none)
      | some _ => none

def names (t : Text) : List Text := (t.splitOnP fun b => !Byte.isNamePart b).filter (!·.isEmpty)

def params (ns : List Text) : List Param := ns.map fun n => { span := .blank, name := n }

/-! ### Forms -/

section Forms

variable (expr? : Text → Option Expr) (stmt? : Text → Option Stmt)

def exprForm (head : Text) (ws : List Text) : Option Expr :=
  match head, ws with
  | 46 :: n, [o] => (expr? o).map fun o => .get .blank o n
  | _, [a] =>
    if head = lit "group" then (expr? a).map (.grouping .blank)
    else if head = lit "super" then some (.super .blank a none)
    else if head = lit "fun" then some (.lambda .blank (params (names a)) [])
    else if head = lit "call" then (expr? a).map fun f => .call .blank f []
    else (expr? a).map (.unary .blank (.ofSpelling head))
  | _, a :: b :: ws =>
    if head = lit "fun" then ((b :: ws).mapM stmt?).map (.lambda .blank (params (names a)))
    else if head = lit "call" then do return .call .blank (← expr? a) (← (b :: ws).mapM expr?)
    else match ws with
      | [] =>
        if head = lit "=" then
          (expr? b).map (.assign { span := .blank, name := a, hops := none })
        else if head = lit "and" || head = lit "or" then do
          return .logical .blank (.ofSpelling head) (← expr? a) (← expr? b)
        else do return .binary .blank (.ofSpelling head) (← expr? a) (← expr? b)
      | [c] =>
        if head = lit "set" then do return .set .blank (← expr? b) a.tail (← expr? c)
        else do return .conditional .blank (← expr? a) (← expr? b) (← expr? c)
      | _ => none
  | _, [] => none

/-- The function with a name and parameters in one word and the statements of its body. -/
def function? (signature : Text) (body : List Text) : Option FunDecl :=
  match names signature with
  | [] => none
  | n :: ps => (body.mapM stmt?).map (.mk .blank n (params ps))

/-- The function of a class that a word denotes, and whether it is a static one. -/
def member? (t : Text) : Option (Bool × FunDecl) :=
  match parts? t with
  | some (head :: signature :: body) =>
    (function? stmt? signature body).map fun d => (head = lit "static", d)
  | _ => none

def class? (n : Text) (sup : Option Text) (members : List Text) : Option Stmt :=
  (members.mapM (member? stmt?)).map fun ds =>
    .classDecl .blank n (sup.map fun name => { span := .blank, name, hops := none })
      ((ds.filter (!·.1)).map Prod.snd) ((ds.filter (·.1)).map Prod.snd)

def stmtForm (head : Text) (ws : List Text) : Option Stmt :=
  if head = lit "block" then (ws.mapM stmt?).map (.block .blank)
  else match ws with
  | [] => if head = lit "return" then some (.returnStmt .blank none) else some (.breakStmt .blank)
  | [e] =>
    if head = lit "var" then some (.varDecl .blank e none)
    else if head = lit "class" then class? stmt? e none []
    else if head = lit "fun" then (function? stmt? e []).map .funDecl
    else if head = lit "print" then (expr? e).map (.printStmt .blank)
    else if head = lit "return" then (expr? e).map fun e => .returnStmt .blank (some e)
    else (expr? e).map (.exprStmt .blank)
  | a :: b :: ws =>
    if head = lit "fun" then (function? stmt? a (b :: ws)).map .funDecl
    else if head = lit "class" then
      match b, ws with
      | [60], sup :: ws => class? stmt? a (some sup) ws
      | _, _ => class? stmt? a none (b :: ws)
    else match ws with
      | [] =>
        if head = lit "var" then (expr? b).map fun e => .varDecl .blank a (some e)
        else if head = lit "if" then do return .ifStmt .blank (← expr? a) (← stmt? b) none
        else do return .whileStmt .blank (← expr? a) (← stmt? b)
      | [c] => do return .ifStmt .blank (← expr? a) (← stmt? b) (some (← stmt? c))
      | [c, d] =>
        if a = lit "nil" then
          do return .forStmt .blank none (some (← expr? b)) (some (← expr? c)) (← stmt? d)
        else do
          return .forStmt .blank (some (← stmt? a)) (some (← expr? b))
            (some (← expr? c)) (← stmt? d)
      | _ => none

end Forms

/-! ### Texts -/

mutual

/-- The expression that a text denotes; each level of forms takes one from the bound. -/
def expr? : Nat → Text → Option Expr
  | 0, _ => none
  | n + 1, t =>
    match parts? t with
    | none => atom? t
    | some [] => none
    | some (head :: ws) => exprForm (expr? n) (stmt? n) head ws

def stmt? : Nat → Text → Option Stmt
  | 0, _ => none
  | n + 1, t =>
    match parts? t with
    | some (head :: ws) => stmtForm (expr? n) (stmt? n) head ws
    | _ => none

end

end Sexpr

def Program.ofSexpr? (t : Text) : Option Program :=
  ((Sexpr.words 0 false t).dropLast.mapM (Sexpr.stmt? t.length)).map
    fun body => { span := .blank, body }

end Lox
