import Lox.Syntax.Sexpr

set_option autoImplicit false
set_option relaxedAutoImplicit false

namespace Lox

open Text (lit)

/-- How tightly an operator binds; one that the language lacks binds most loosely. -/
def BinaryOp.rank : BinaryOp → Int
  | .equal | .notEqual => 1
  | .greater | .less | .greaterEqual | .lessEqual => 2
  | .add | .sub => 3
  | .mul | .div => 4
  | .other _ => 0

def LogicalOp.rank : LogicalOp → Int
  | .or => -1
  | _ => 0

/-- How tightly the outermost part of an expression binds, in the order of the grammar. -/
def Expr.rank : Expr → Int
  | .assign _ _ | .set _ _ _ _ => -3
  | .conditional _ _ _ _ => -2
  | .logical _ op _ _ => op.rank
  | .binary _ op _ _ => op.rank
  | .unary _ _ _ => 5
  | _ => 6

namespace Layout

/-- On which side of its operator an operand stands, where that matters. -/
inductive Side
  | left
  | right
  deriving DecidableEq

/-- Whether an operand of rank `inner` needs parentheses under an operator of rank `outer`. -/
def needsParens (inner outer : Int) (side : Side) : Bool :=
  inner < outer || (inner == outer && side == .right && 0 < inner && inner < 5)

def wrapped (inner outer : Int) (side : Side) (t : Text) : Text :=
  if needsParens inner outer side then lit "(" ++ t ++ lit ")" else t

def indentation (depth : Nat) : Text := List.replicate (2 * depth) Byte.space

def braced (depth : Nat) (lines : List Text) : Text :=
  if lines.isEmpty then lit "\x7b\x7d"
  else lit "\x7b\n" ++ Text.join (lit "\n") lines ++ lit "\n" ++ indentation depth ++ lit "\x7d"

/-- The text before a statement that follows a head: a blank, or a line of its own one level in. -/
def attached (sameLine : Bool) (depth : Nat) (layout : Nat → Text) : Text :=
  if sameLine then lit " " ++ layout depth
  else lit "\n" ++ indentation (depth + 1) ++ layout (depth + 1)

end Layout

def Stmt.isBlock : Stmt → Bool
  | .block _ _ => true
  | _ => false

def Stmt.isBranch : Stmt → Bool
  | .ifStmt _ _ _ _ => true
  | _ => false

namespace Layout

mutual

def expr (depth : Nat) : Expr → Text
  | .literal _ v => v.source
  | .grouping _ e => lit "(" ++ expr depth e ++ lit ")"
  | .name use => use.name
  | .assign target e => target.name ++ lit " = " ++ expr depth e
  | .unary _ op e => op.spelling ++ wrapped e.rank 5 .left (expr depth e)
  | .binary _ op a b =>
    wrapped a.rank op.rank .left (expr depth a) ++ lit " " ++ op.spelling ++ lit " " ++
      wrapped b.rank op.rank .right (expr depth b)
  | .logical _ op a b =>
    wrapped a.rank op.rank .left (expr depth a) ++ lit " " ++ op.spelling ++ lit " " ++
      wrapped b.rank op.rank .right (expr depth b)
  | .conditional _ c a b =>
    wrapped c.rank (-1) .left (expr depth c) ++ lit " ? " ++ expr depth a ++ lit " : " ++
      wrapped b.rank (-2) .left (expr depth b)
  | .call _ f args =>
    wrapped f.rank 6 .left (expr depth f) ++ lit "(" ++ Text.join (lit ", ") (exprs depth args) ++
      lit ")"
  | .get _ o n => wrapped o.rank 6 .left (expr depth o) ++ lit "." ++ n
  | .set _ o n e =>
    wrapped o.rank 6 .left (expr depth o) ++ lit "." ++ n ++ lit " = " ++ expr depth e
  | .this _ _ => lit "this"
  | .super _ m _ => lit "super." ++ m
  | .lambda _ ps body =>
    lit "fun " ++ Param.listSource ps ++ lit " " ++ braced depth (lines (depth + 1) body)

def exprs (depth : Nat) : List Expr → List Text
  | [] => []
  | e :: r => expr depth e :: exprs depth r

def stmt (depth : Nat) : Stmt → Text
  | .exprStmt _ e => expr depth e ++ lit ";"
  | .printStmt _ e => lit "print " ++ expr depth e ++ lit ";"
  | .varDecl _ n none => lit "var " ++ n ++ lit ";"
  | .varDecl _ n (some e) => lit "var " ++ n ++ lit " = " ++ expr depth e ++ lit ";"
  | .block _ body => braced depth (lines (depth + 1) body)
  | .ifStmt _ c a none =>
    lit "if (" ++ expr depth c ++ lit ")" ++ attached a.isBlock depth fun d => stmt d a
  | .ifStmt _ c a (some b) =>
    lit "if (" ++ expr depth c ++ lit ")" ++ (attached a.isBlock depth fun d => stmt d a) ++
      (if a.isBlock then lit " else" else lit "\n" ++ indentation depth ++ lit "else") ++
      attached (b.isBlock || b.isBranch) depth fun d => stmt d b
  | .whileStmt _ c b =>
    lit "while (" ++ expr depth c ++ lit ")" ++ attached b.isBlock depth fun d => stmt d b
  | .forStmt _ none c i b =>
    lit "for (;" ++ condition depth c ++ step depth i ++ lit ")" ++
      attached b.isBlock depth fun d => stmt d b
  | .forStmt _ (some s) c i b =>
    lit "for (" ++ stmt depth s ++ condition depth c ++ step depth i ++ lit ")" ++
      attached b.isBlock depth fun d => stmt d b
  | .breakStmt _ => lit "break;"
  | .returnStmt _ none => lit "return;"
  | .returnStmt _ (some e) => lit "return " ++ expr depth e ++ lit ";"
  | .funDecl d => lit "fun " ++ funDecl depth d
  | .classDecl _ n none ms ss =>
    lit "class " ++ n ++ lit " " ++
      braced depth (funLines (depth + 1) (lit "class ") ss ++ funLines (depth + 1) [] ms)
  | .classDecl _ n (some sup) ms ss =>
    lit "class " ++ n ++ lit " < " ++ sup.name ++ lit " " ++
      braced depth (funLines (depth + 1) (lit "class ") ss ++ funLines (depth + 1) [] ms)

def condition (depth : Nat) : Option Expr → Text
  | none => lit ";"
  | some e => lit " " ++ expr depth e ++ lit ";"

def step (depth : Nat) : Option Expr → Text
  | none => []
  | some e => lit " " ++ expr depth e

/-- Statements with the blanks before their first lines. -/
def lines (depth : Nat) : List Stmt → List Text
  | [] => []
  | s :: r => (indentation depth ++ stmt depth s) :: lines depth r

def funDecl (depth : Nat) : FunDecl → Text
  | .mk _ n ps body =>
    n ++ Param.listSource ps ++ lit " " ++ braced depth (lines (depth + 1) body)

/-- Functions with the blanks before their first lines and a word in front. -/
def funLines (depth : Nat) (head : Text) : List FunDecl → List Text
  | [] => []
  | d :: r => (indentation depth ++ head ++ funDecl depth d) :: funLines depth head r

end

/-- Whether a source has a comment outside its strings. -/
def hasComments (inString : Bool) : Text → Bool
  | [] => false
  | b :: r =>
    if b = Byte.quote then hasComments (!inString) r
    else if !inString && b = Byte.slash && (r.head? == some Byte.slash || r.head? == some Byte.star)
    then true
    else hasComments inString r

end Layout

/-- The canonical form of a program. -/
def Program.layout (p : Program) : Text :=
  if p.body.isEmpty then [] else Text.join (lit "\n") (Layout.lines 0 p.body) ++ lit "\n"

end Lox
