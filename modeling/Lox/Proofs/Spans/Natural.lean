import Lox.Proofs.Spans.Move

set_option autoImplicit false
set_option relaxedAutoImplicit false

namespace Lox.Parser

variable {f : Span → Span}

private theorem moves_paramsFrom (fuel count : Nat) :
    Moves f (List.map (Param.moved f)) (paramsFrom fuel count) (paramsFrom fuel count) := by
  induction fuel generalizing count with
  | zero => exact .fail
  | succ fuel ih =>
    rw [paramsFrom]
    refine .noteIf (.expect fun name => .accept ?_ (.expectMark fun _ => .pure rfl))
    exact .map (ih (count + 1)) fun _ => rfl

private theorem moves_params (fuel : Nat) :
    Moves f (List.map (Param.moved f)) (params fuel) (params fuel) := by
  rw [params]
  exact .accept (.pure rfl) (moves_paramsFrom fuel 0)

private theorem moves_superclassUse :
    Moves f (Option.map (NameUse.moved f)) superclassUse superclassUse := by
  rw [superclassUse]
  exact .accept (.expect fun _ => .pure rfl) (.pure rfl)

variable (f) in
structure MovesAt (fuel : Nat) : Prop where
  expression : Moves f (Expr.moved f) (Parser.expression fuel) (Parser.expression fuel)
  conditional : Moves f (Expr.moved f) (Parser.conditional fuel) (Parser.conditional fuel)
  chain (tier : Tier) : Moves f (Expr.moved f) (Parser.chain fuel tier) (Parser.chain fuel tier)
  chainAfter (tier : Tier) (left : Expr) : Moves f (Expr.moved f)
    (Parser.chainAfter fuel tier left) (Parser.chainAfter fuel tier (left.moved f))
  operand (tier : Tier) :
    Moves f (Expr.moved f) (Parser.operand fuel tier) (Parser.operand fuel tier)
  unary : Moves f (Expr.moved f) (Parser.unary fuel) (Parser.unary fuel)
  callAfter (head : Expr) :
    Moves f (Expr.moved f) (Parser.callAfter fuel head) (Parser.callAfter fuel (head.moved f))
  arguments : Moves f (Prod.map (Expr.movedAll f) (Token.moved f)) (Parser.arguments fuel)
    (Parser.arguments fuel)
  argumentsFrom (count : Nat) : Moves f (Prod.map (Expr.movedAll f) (Token.moved f))
    (Parser.argumentsFrom fuel count) (Parser.argumentsFrom fuel count)
  primary : Moves f (Expr.moved f) (Parser.primary fuel) (Parser.primary fuel)
  blockBody : Moves f (Stmt.movedAll f) (Parser.blockBody fuel) (Parser.blockBody fuel)
  declarations (closing : Option Mark) : Moves f (Stmt.movedAll f)
    (Parser.declarations fuel closing) (Parser.declarations fuel closing)
  declaration : Moves f (Stmt.moved f) (Parser.declaration fuel) (Parser.declaration fuel)
  classDecl : Moves f (Stmt.moved f) (Parser.classDecl fuel) (Parser.classDecl fuel)
  members : Moves f (Prod.map (FunDecl.movedAll f) (FunDecl.movedAll f)) (Parser.members fuel)
    (Parser.members fuel)
  funDecl (start : Span) (role : FunRole) : Moves f (FunDecl.moved f)
    (Parser.funDecl fuel start role) (Parser.funDecl fuel (f start) role)
  varDecl : Moves f (Stmt.moved f) (Parser.varDecl fuel) (Parser.varDecl fuel)
  initializer : Moves f (Expr.movedOption f) (Parser.initializer fuel) (Parser.initializer fuel)
  statement : Moves f (Stmt.moved f) (Parser.statement fuel) (Parser.statement fuel)
  expressionUnless (mark : Mark) : Moves f (Expr.movedOption f)
    (Parser.expressionUnless fuel mark) (Parser.expressionUnless fuel mark)
  exprStmt : Moves f (Stmt.moved f) (Parser.exprStmt fuel) (Parser.exprStmt fuel)
  forStmt : Moves f (Stmt.moved f) (Parser.forStmt fuel) (Parser.forStmt fuel)
  forInit : Moves f (Stmt.movedOption f) (Parser.forInit fuel) (Parser.forInit fuel)
  ifStmt : Moves f (Stmt.moved f) (Parser.ifStmt fuel) (Parser.ifStmt fuel)
  whileStmt : Moves f (Stmt.moved f) (Parser.whileStmt fuel) (Parser.whileStmt fuel)

private theorem movesAt_zero : MovesAt f 0 := by
  constructor <;> intros <;> exact .fail

namespace MovesAt

variable {fuel : Nat} (hf : Span.Respects f) (ih : MovesAt f fuel)

section Spanned

include hf ih

private theorem expression_succ :
    Moves f (Expr.moved f) (Parser.expression (fuel + 1)) (Parser.expression (fuel + 1)) := by
  rw [Parser.expression]
  refine .bind ih.conditional fun left => .peek fun kind => ?_
  split
  · refine .next fun equals => .bind ih.expression fun value => ?_
    cases left with
    | name use => exact .pure (by simp [NameUse.moved, hf _ _])
    | get s o n => exact .pure (by simp [hf _ _])
    | _ => exact .note (.pure rfl)
  · exact .pure rfl

private theorem conditional_succ :
    Moves f (Expr.moved f) (Parser.conditional (fuel + 1)) (Parser.conditional (fuel + 1)) := by
  rw [Parser.conditional]
  refine .bind (ih.chain .or) fun condition =>
    .accept (.bind ih.expression fun yes => ?_) (.pure rfl)
  exact .expectMark fun _ => .map ih.conditional fun no => by simp [hf _ _]

private theorem chainAfter_succ (tier : Tier) (left : Expr) : Moves f (Expr.moved f)
    (Parser.chainAfter (fuel + 1) tier left)
      (Parser.chainAfter (fuel + 1) tier (left.moved f)) := by
  rw [Parser.chainAfter, Parser.chainAfter]
  refine .peek fun kind => ?_
  split
  · exact .pure rfl
  · rename_i op _
    refine .next fun _ => .bind (ih.operand tier) fun right => ?_
    rw [← op.apply_moved hf]
    exact ih.chainAfter tier _

private theorem unary_succ :
    Moves f (Expr.moved f) (Parser.unary (fuel + 1)) (Parser.unary (fuel + 1)) := by
  rw [Parser.unary]
  refine .current fun t => ?_
  rw [Token.kind_moved]
  split
  · exact .next fun _ => .map ih.unary fun e => by simp [hf _ _]
  · exact .next fun _ => .map ih.unary fun e => by simp [hf _ _]
  · exact .bind ih.primary fun head => ih.callAfter head

private theorem callAfter_succ (head : Expr) : Moves f (Expr.moved f)
    (Parser.callAfter (fuel + 1) head) (Parser.callAfter (fuel + 1) (head.moved f)) := by
  rw [Parser.callAfter, Parser.callAfter]
  refine .peek fun kind => ?_
  split
  · refine .next fun _ => .bind ih.arguments fun r => ?_
    obtain ⟨args, stop⟩ := r
    simpa [hf _ _] using ih.callAfter (.call (head.span.cover stop.span) head args)
  · refine .next fun _ => .expect fun t => ?_
    simpa [hf _ _] using ih.callAfter (.get (head.span.cover t.span) head t.text)
  · exact .pure rfl

private theorem primary_succ :
    Moves f (Expr.moved f) (Parser.primary (fuel + 1)) (Parser.primary (fuel + 1)) := by
  rw [Parser.primary]
  refine .current fun t => ?_
  rw [Token.kind_moved]
  split
  · exact .next fun _ => .pure rfl
  · exact .next fun _ => .pure rfl
  · exact .next fun _ => .pure rfl
  · refine .next fun _ => ?_
    rw [Token.text_moved]
    split
    · exact .pure rfl
    · exact .note .fail
  · exact .next fun _ => .pure rfl
  · exact .next fun _ => .pure rfl
  · exact .next fun _ => .expectMark fun _ => .expect fun t => .pure (by simp [hf _ _])
  · exact .next fun _ => .pure rfl
  · refine .next fun _ => .expectMark fun _ => .bind (moves_params fuel) fun ps => ?_
    exact .expectMark fun _ => .bind ih.blockBody fun body => .spanFrom hf fun s => .pure rfl
  · refine .next fun _ => .bind ih.expression fun inner => ?_
    exact .expectMark fun _ => .spanFrom hf fun s => .pure rfl
  · exact .note .fail

private theorem funDecl_succ (start : Span) (role : FunRole) : Moves f (FunDecl.moved f)
    (Parser.funDecl (fuel + 1) start role) (Parser.funDecl (fuel + 1) (f start) role) := by
  rw [Parser.funDecl, Parser.funDecl]
  refine .expect fun name => .expectMark fun _ => .bind (moves_params fuel) fun ps => ?_
  exact .expectMark fun _ => .bind ih.blockBody fun body => .spanFrom hf fun s => .pure rfl

private theorem exprStmt_succ :
    Moves f (Stmt.moved f) (Parser.exprStmt (fuel + 1)) (Parser.exprStmt (fuel + 1)) := by
  rw [Parser.exprStmt]
  refine .current fun t => .bind ih.expression fun value => .expectMark fun _ => ?_
  exact .spanFrom hf fun s => .pure rfl

private theorem varDecl_succ :
    Moves f (Stmt.moved f) (Parser.varDecl (fuel + 1)) (Parser.varDecl (fuel + 1)) := by
  rw [Parser.varDecl]
  refine .next fun _ => .expect fun name => .bind ih.initializer fun init => .expectMark fun _ => ?_
  exact .spanFrom hf fun s => .pure rfl

private theorem classDecl_succ :
    Moves f (Stmt.moved f) (Parser.classDecl (fuel + 1)) (Parser.classDecl (fuel + 1)) := by
  rw [Parser.classDecl]
  refine .next fun _ => .expect fun name => .bind moves_superclassUse fun sup => ?_
  refine .expectMark fun _ => .bind ih.members fun r => .expectMark fun _ => ?_
  exact .spanFrom hf fun s => .pure rfl

private theorem statement_succ :
    Moves f (Stmt.moved f) (Parser.statement (fuel + 1)) (Parser.statement (fuel + 1)) := by
  rw [Parser.statement]
  refine .current fun t => ?_
  rw [Token.kind_moved]
  split
  · exact ih.forStmt
  · exact ih.ifStmt
  · refine .next fun _ => .bind ih.expression fun value => .expectMark fun _ => ?_
    exact .spanFrom hf fun s => .pure rfl
  · refine .next fun _ => .bind (ih.expressionUnless _) fun value => .expectMark fun _ => ?_
    exact .spanFrom hf fun s => .pure rfl
  · exact ih.whileStmt
  · exact .next fun _ => .expectMark fun _ => .spanFrom hf fun s => .pure rfl
  · exact .next fun _ => .bind ih.blockBody fun body => .spanFrom hf fun s => .pure rfl
  · exact ih.exprStmt

private theorem forStmt_succ :
    Moves f (Stmt.moved f) (Parser.forStmt (fuel + 1)) (Parser.forStmt (fuel + 1)) := by
  rw [Parser.forStmt]
  refine .next fun _ => .expectMark fun _ => .bind ih.forInit fun init => ?_
  refine .bind (ih.expressionUnless _) fun condition => .expectMark fun _ => ?_
  refine .bind (ih.expressionUnless _) fun step => .expectMark fun _ => ?_
  exact .bind ih.statement fun body => .spanFrom hf fun s => .pure rfl

private theorem ifStmt_succ :
    Moves f (Stmt.moved f) (Parser.ifStmt (fuel + 1)) (Parser.ifStmt (fuel + 1)) := by
  rw [Parser.ifStmt]
  refine .next fun _ => .expectMark fun _ => .bind ih.expression fun condition => ?_
  refine .expectMark fun _ => .bind ih.statement fun yes => .accept ?_ ?_
  · exact .bind ih.statement fun no => .spanFrom hf fun s => .pure rfl
  · exact .spanFrom hf fun s => .pure rfl

private theorem whileStmt_succ :
    Moves f (Stmt.moved f) (Parser.whileStmt (fuel + 1)) (Parser.whileStmt (fuel + 1)) := by
  rw [Parser.whileStmt]
  refine .next fun _ => .expectMark fun _ => .bind ih.expression fun condition => ?_
  refine .expectMark fun _ => .bind ih.statement fun body => ?_
  exact .spanFrom hf fun s => .pure rfl

end Spanned

section Unspanned

include ih

private theorem chain_succ (tier : Tier) :
    Moves f (Expr.moved f) (Parser.chain (fuel + 1) tier) (Parser.chain (fuel + 1) tier) := by
  rw [Parser.chain]
  exact .bind (ih.operand tier) fun left => ih.chainAfter tier left

private theorem operand_succ (tier : Tier) :
    Moves f (Expr.moved f) (Parser.operand (fuel + 1) tier) (Parser.operand (fuel + 1) tier) := by
  rw [Parser.operand]
  split
  · exact ih.chain _
  · exact ih.unary

private theorem arguments_succ : Moves f (Prod.map (Expr.movedAll f) (Token.moved f))
    (Parser.arguments (fuel + 1)) (Parser.arguments (fuel + 1)) := by
  rw [Parser.arguments]
  refine .peek fun kind => ?_
  split
  · exact .next fun t => .pure rfl
  · exact ih.argumentsFrom 0

private theorem argumentsFrom_succ (count : Nat) :
    Moves f (Prod.map (Expr.movedAll f) (Token.moved f))
    (Parser.argumentsFrom (fuel + 1) count) (Parser.argumentsFrom (fuel + 1) count) := by
  rw [Parser.argumentsFrom]
  refine .noteIf (.bind ih.expression fun arg => .accept ?_ (.expectMark fun stop => .pure rfl))
  exact .bind (ih.argumentsFrom (count + 1)) fun r => .pure rfl

private theorem blockBody_succ :
    Moves f (Stmt.movedAll f) (Parser.blockBody (fuel + 1)) (Parser.blockBody (fuel + 1)) := by
  rw [Parser.blockBody]
  exact .bind (ih.declarations _) fun body => .expectMark fun _ => .pure rfl

private theorem declarations_succ (closing : Option Mark) : Moves f (Stmt.movedAll f)
    (Parser.declarations (fuel + 1) closing) (Parser.declarations (fuel + 1) closing) := by
  rw [Parser.declarations]
  refine .atListEnd fun ended => ?_
  split
  · exact .pure rfl
  · refine .bind (.recover ih.declaration) fun first =>
      .map (ih.declarations closing) fun others => ?_
    cases first <;> simp

private theorem declaration_succ :
    Moves f (Stmt.moved f) (Parser.declaration (fuel + 1)) (Parser.declaration (fuel + 1)) := by
  rw [Parser.declaration]
  refine .peek fun kind => ?_
  split
  · exact ih.classDecl
  · refine .peekSecond fun second => ?_
    split
    · exact .next fun start => .map (ih.funDecl start.span .function) fun d => rfl
    · exact ih.statement
  · exact ih.varDecl
  · exact ih.statement

private theorem members_succ : Moves f (Prod.map (FunDecl.movedAll f) (FunDecl.movedAll f))
    (Parser.members (fuel + 1)) (Parser.members (fuel + 1)) := by
  rw [Parser.members]
  refine .atListEnd fun ended => ?_
  split
  · exact .pure rfl
  · refine .current fun t => ?_
    rw [Token.kind_moved]
    split
    · refine .next fun _ => .bind (ih.funDecl t.span .staticMethod) fun d => ?_
      exact .bind ih.members fun r => .pure rfl
    · exact .bind (ih.funDecl t.span .method) fun d => .bind ih.members fun r => .pure rfl

private theorem initializer_succ : Moves f (Expr.movedOption f) (Parser.initializer (fuel + 1))
    (Parser.initializer (fuel + 1)) := by
  rw [Parser.initializer]
  exact .accept (.map ih.expression fun e => rfl) (.pure rfl)

private theorem expressionUnless_succ (mark : Mark) : Moves f (Expr.movedOption f)
    (Parser.expressionUnless (fuel + 1) mark) (Parser.expressionUnless (fuel + 1) mark) := by
  rw [Parser.expressionUnless]
  refine .peek fun kind => ?_
  split
  · exact .pure rfl
  · exact .map ih.expression fun e => rfl

private theorem forInit_succ :
    Moves f (Stmt.movedOption f) (Parser.forInit (fuel + 1)) (Parser.forInit (fuel + 1)) := by
  rw [Parser.forInit]
  refine .peek fun kind => ?_
  split
  · exact .next fun _ => .pure rfl
  · exact .map ih.varDecl fun s => rfl
  · exact .map ih.exprStmt fun s => rfl

end Unspanned

include hf ih in
private theorem succ : MovesAt f (fuel + 1) where
  expression := expression_succ hf ih
  conditional := conditional_succ hf ih
  chain := chain_succ ih
  chainAfter := chainAfter_succ hf ih
  operand := operand_succ ih
  unary := unary_succ hf ih
  callAfter := callAfter_succ hf ih
  arguments := arguments_succ ih
  argumentsFrom := argumentsFrom_succ ih
  primary := primary_succ hf ih
  blockBody := blockBody_succ ih
  declarations := declarations_succ ih
  declaration := declaration_succ ih
  classDecl := classDecl_succ hf ih
  members := members_succ ih
  funDecl := funDecl_succ hf ih
  varDecl := varDecl_succ hf ih
  initializer := initializer_succ ih
  statement := statement_succ hf ih
  expressionUnless := expressionUnless_succ ih
  exprStmt := exprStmt_succ hf ih
  forStmt := forStmt_succ hf ih
  forInit := forInit_succ ih
  ifStmt := ifStmt_succ hf ih
  whileStmt := whileStmt_succ hf ih

end MovesAt

private theorem movesAt (hf : Span.Respects f) (fuel : Nat) : MovesAt f fuel := by
  induction fuel with
  | zero => exact movesAt_zero
  | succ fuel ih => exact ih.succ hf

end Lox.Parser

namespace Lox.Program

open Lox.Parser

def readMoved (f : Span → Span) :
    Except (List Diagnostic) Program → Except (List Diagnostic) Program
  | .ok p => .ok (p.moved f)
  | .error ds => .error (ds.map (Diagnostic.moved f))

/-- A list of tokens with other spans is read as the program with other spans, or it is refused with
the diagnostics with other spans. -/
theorem ofTokens_moved {f : Span → Span} (hf : Span.Respects f) {file : Text} (file' : Text)
    {ts : List Token} (hended : Ended ts) :
    ofTokens file' (ts.map (Token.moved f)) = readMoved f (ofTokens file ts) := by
  cases ts with
  | nil => exact hended.elim
  | cons t ts =>
    have hended' : Ended (t.moved f :: ts.map (Token.moved f)) := hended.moved f
    have hdepth : depthFor (t.moved f :: ts.map (Token.moved f)) = depthFor (t :: ts) := by
      simp [depthFor]
    have hrun := (movesAt hf (depthFor (t :: ts))).declarations none (startOf t ts)
    have hstart : startOf (t.moved f) (ts.map (Token.moved f)) = (startOf t ts).moved f := rfl
    rw [List.map_cons, ofTokens_eq file' hended', ofTokens_eq file hended, hdepth, hstart, hrun]
    cases declarations (depthFor (t :: ts)) none (startOf t ts) with
    | mk o c =>
      cases o with
      | none => simp [readMoved, Cursor.moved]
      | some body =>
        cases hfaults : c.faults with
        | nil => simp [readMoved, moved, Cursor.moved, hfaults, hf _ _]
        | cons d ds => simp [readMoved, Cursor.moved, hfaults]

end Lox.Program
