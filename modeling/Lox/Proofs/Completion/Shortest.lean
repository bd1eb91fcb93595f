import Lox.Proofs.Completion.Mends

set_option autoImplicit false
set_option relaxedAutoImplicit false

namespace Lox.Parser

open Token Grammar

variable {file : Text}

namespace Passed

theorem of {α : Type} {Q : α → List Token → Cursor → Prop} (a : α) {ts : List Token}
    (h : Q a ts (startOf (.endOf []) [])) : Passed Q ts :=
  ⟨a, _, h⟩

variable {sym : Sym} {ts : List Token}

theorem expr {e : Expr} (h : Derives sym ts (.expr e)) : Passed (Yields sym .expr) ts := .of e h

theorem stmt {b : Stmt} (h : Derives sym ts (.stmt b)) : Passed (Yields sym .stmt) ts := .of b h

theorem function {d : FunDecl} (h : Derives sym ts (.function d)) :
    Passed (Yields sym .function) ts :=
  .of d h

theorem statement {b : Stmt} (h : Derives .statement ts (.stmt b)) : Passed YieldsStmt ts :=
  .of b ⟨h, nofun⟩

theorem declaration {b : Stmt} (h : Derives .statement ts (.stmt b)) :
    Passed (Yields .declaration .stmt) ts :=
  .stmt (.statement h)

end Passed

def nothing : Expr := .literal .blank .nil

section

variable {t : Token} (ht : t.kind = .keyword .nil_)
include ht

private theorem derives_primary_nil : Derives .primary [t] (.expr nothing) := .nil_ ht

private theorem derives_unary_nil : Derives .unary [t] (.expr nothing) :=
  .called (.head (derives_primary_nil ht))

theorem derives_tier_nil (tier : Tier) : Derives (.tier tier) [t] (.expr nothing) := by
  have hfactor : Derives (.tier .factor) [t] (.expr nothing) := .operand (derives_unary_nil ht)
  have hterm : Derives (.tier .term) [t] (.expr nothing) := .operand hfactor
  have hcomparison : Derives (.tier .comparison) [t] (.expr nothing) := .operand hterm
  have hequality : Derives (.tier .equality) [t] (.expr nothing) := .operand hcomparison
  have hand : Derives (.tier .and) [t] (.expr nothing) := .operand hequality
  cases tier with
  | or => exact .operand hand
  | and => exact hand
  | equality => exact hequality
  | comparison => exact hcomparison
  | term => exact hterm
  | factor => exact hfactor

theorem derives_operand_nil (tier : Tier) : Derives (operandOf tier) [t] (.expr nothing) := by
  cases tier with
  | factor => exact derives_unary_nil ht
  | _ => exact derives_tier_nil ht _

theorem derives_conditional_nil : Derives .conditional [t] (.expr nothing) :=
  .plain (derives_tier_nil ht .or)

private theorem derives_expression_nil : Derives .expression [t] (.expr nothing) :=
  .simple (derives_conditional_nil ht)

end

private theorem writable_keyword {R : List Token → Prop} (word : Keyword)
    (h : ∀ t : Token, t.kind = .keyword word → Writable file fun us => R (t :: us)) :
    Writable file R :=
  .cons (.keyword word) fun t ht _ => h t ht

theorem writable_mark {R : List Token → Prop} (mark : Mark)
    (h : ∀ t : Token, t.kind = .mark mark → Writable file fun us => R (t :: us)) :
    Writable file R :=
  .cons (.mark mark) fun t ht _ => h t ht

theorem exists_name : ∃ text x, IsLexeme .name text x :=
  ⟨_, _, .name (b := 120) (r := []) (by decide) nofun fun k => by cases k <;> decide⟩

private theorem writable_name {R : List Token → Prop}
    (h : ∀ t : Token, t.kind = .name → Writable file fun us => R (t :: us)) : Writable file R := by
  obtain ⟨text, x, hname⟩ := exists_name
  exact .cons hname fun t ht _ => h t ht

theorem writable_nil {sym : Sym}
    (h : ∀ t : Token, t.kind = .keyword .nil_ → Derives sym [t] (.expr nothing)) :
    Writable file (Passed (Yields sym .expr)) :=
  writable_keyword .nil_ fun t ht => .nil (.expr (h t ht))

theorem writable_expression : Writable file (Passed (Yields .expression .expr)) :=
  writable_nil fun _ => derives_expression_nil

theorem writable_unary : Writable file (Passed (Yields .unary .expr)) :=
  writable_nil fun _ => derives_unary_nil

theorem writable_primary : Writable file (Passed (Yields .primary .expr)) :=
  writable_nil fun _ => derives_primary_nil

theorem writable_exprStmt : Writable file (Passed fun b ts _ => ∃ e s us semicolon,
    b = Stmt.exprStmt s e ∧ ts = us ++ [semicolon] ∧ Derives .expression us (.expr e) ∧
      semicolon.kind = .mark .semicolon) := by
  refine writable_expression.append fun ts ⟨e, _, he⟩ =>
    writable_mark .semicolon fun t ht => .nil ?_
  exact .of (.exprStmt .blank e) ⟨e, .blank, ts, t, rfl, rfl, he, ht⟩

theorem writable_statement : Writable file (Passed YieldsStmt) := by
  refine writable_exprStmt.imp ?_
  rintro ts ⟨_, _, e, s, us, semicolon, rfl, rfl, he, hsemicolon⟩
  exact .statement (.exprStmt (s := s) he hsemicolon)

theorem writable_declaration : Writable file (Passed (Yields .declaration .stmt)) :=
  writable_statement.imp fun _ ⟨_, _, h⟩ => .declaration h.1

theorem writable_variable : Writable file (Passed (Yields .variable_ .stmt)) := by
  refine writable_keyword .var_ fun t ht => writable_name fun name hname => ?_
  refine writable_mark .semicolon fun semicolon hsemicolon => .nil ?_
  exact .stmt (.noValue (s := .blank) ht hname hsemicolon)

theorem writable_block : Writable file (Passed fun body ts _ => ∀ left : Token,
    left.kind = .mark .leftBrace → Derives .block (left :: ts) (.stmts body)) :=
  writable_mark .rightBrace fun _ hright => .nil (.of [] fun _ hleft =>
    Derives.block hleft .noDeclarations hright)

theorem writable_paramList {count : Nat} (h : ¬ maxArgs ≤ count) :
    Writable file (Passed fun ps ts _ => IsParamList ts ps ∧ count + ps.length ≤ maxArgs) := by
  refine writable_name fun name hname => writable_mark .rightParen fun close hclose => .nil ?_
  exact .of [⟨.blank, name.text⟩] ⟨.last hname hclose, by rw [List.length_singleton]; omega⟩

theorem writable_params : Writable file (Passed fun ps ts _ => ∀ left : Token,
    left.kind = .mark .leftParen → IsParams (left :: ts) ps) :=
  writable_mark .rightParen fun _ hright => .nil (.of [] fun _ hleft => .none hleft hright)

theorem writable_function : Writable file (Passed (Yields .function .function)) := by
  refine writable_name fun name hname => writable_mark .leftParen fun left hleft => ?_
  refine writable_params.append fun ts ⟨ps, _, hps⟩ =>
    writable_mark .leftBrace fun brace hbrace => ?_
  refine writable_block.imp fun us ⟨body, _, hbody⟩ => ?_
  have hfunction := Derives.function (s := .blank) hname (hps left hleft) (hbody brace hbrace)
  exact .function (by simpa using hfunction)

theorem writable_arguments : Writable file (Passed fun (r : List Expr × Token) ts _ =>
    Derives .arguments ts (.exprs r.1) ∧ r.1.length ≤ maxArgs) :=
  writable_mark .rightParen fun t ht => .nil (.of ([], t) ⟨.noArguments ht, Nat.zero_le _⟩)

theorem writable_argumentList {count : Nat} (h : ¬ maxArgs ≤ count) :
    Writable file (Passed fun (r : List Expr × Token) ts _ =>
      Derives .argumentList ts (.exprs r.1) ∧ count + r.1.length ≤ maxArgs) := by
  refine writable_expression.append fun ts ⟨e, _, he⟩ =>
    writable_mark .rightParen fun t ht => .nil ?_
  exact .of ([e], t) ⟨.lastArgument he ht, by rw [List.length_singleton]; omega⟩

theorem writable_members : Writable file (Passed (Yields .members
    fun r : List FunDecl × List FunDecl => .members r.1 r.2)) :=
  .nil (.of ([], []) Derives.noMembers)

theorem writable_initializer : Writable file (Passed fun init ts _ => ∀ t name semicolon : Token,
    ∀ s : Span, t.kind = .keyword .var_ → name.kind = .name → semicolon.kind = .mark .semicolon →
    Derives .variable_ (t :: name :: (ts ++ [semicolon])) (.stmt (.varDecl s name.text init))) :=
  .nil (.of none fun _ _ _ _ ht hname hsemicolon => .noValue ht hname hsemicolon)

theorem writable_clause : Writable file (Passed (Yields .clause .clause)) :=
  .nil (.of none Derives.noClause)

theorem writable_forInit : Writable file (Passed (Yields .forInit .init)) :=
  writable_mark .semicolon fun _ ht => .nil (.of none (Derives.noInit ht))

theorem writable_declarations (closing : Option Mark) : Writable file (Passed fun body ts c =>
    Derives .declarations ts (.stmts body) ∧ (closing = none → c.current.kind = .eof)) :=
  .nil (.of [] ⟨.noDeclarations, fun _ => rfl⟩)

end Lox.Parser
