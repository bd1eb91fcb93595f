import Lox.Parser.Grammar

/-!
The grammar of the language as derivations. A derivation says that a list of tokens is a piece of a
program of some kind and which tree it denotes. Spans are left open: a derivation of a tree is one
of every tree that differs from it in spans only.
-/

set_option autoImplicit false
set_option relaxedAutoImplicit false

namespace Lox

namespace Stmt

/-- Whether a statement ends with a branch that an `else` could still follow. -/
def endsOpen : Stmt → Bool
  | .ifStmt _ _ _ none => true
  | .ifStmt _ _ _ (some no) => no.endsOpen
  | .whileStmt _ _ body => body.endsOpen
  | .forStmt _ _ _ _ body => body.endsOpen
  | _ => false

end Stmt

namespace Grammar

open Lox.Parser (Tier Operator maxArgs)

inductive Sym
  | expression
  | conditional
  | tier (tier : Tier)
  | unary
  | call
  | arguments
  | argumentList
  | primary
  | block
  | declarations
  | declaration
  | variable_
  | function
  | members
  | statement
  | forInit
  | clause
  deriving DecidableEq

inductive Node
  | expr (e : Expr)
  | exprs (es : List Expr)
  | stmt (s : Stmt)
  | stmts (ss : List Stmt)
  | function (d : FunDecl)
  | members (methods statics : List FunDecl)
  | init (s : Option Stmt)
  | clause (e : Option Expr)

inductive IsOperator : Tier → Token.Kind → Operator → Prop
  | or : IsOperator .or (.keyword .or_) (.logical .or)
  | and : IsOperator .and (.keyword .and_) (.logical .and)
  | notEqual : IsOperator .equality (.mark .bangEqual) (.binary .notEqual)
  | equal : IsOperator .equality (.mark .equalEqual) (.binary .equal)
  | greater : IsOperator .comparison (.mark .greater) (.binary .greater)
  | greaterEqual : IsOperator .comparison (.mark .greaterEqual) (.binary .greaterEqual)
  | less : IsOperator .comparison (.mark .less) (.binary .less)
  | lessEqual : IsOperator .comparison (.mark .lessEqual) (.binary .lessEqual)
  | sub : IsOperator .term (.mark .minus) (.binary .sub)
  | add : IsOperator .term (.mark .plus) (.binary .add)
  | div : IsOperator .factor (.mark .slash) (.binary .div)
  | mul : IsOperator .factor (.mark .star) (.binary .mul)

def operandOf : Tier → Sym
  | .or => .tier .and
  | .and => .tier .equality
  | .equality => .tier .comparison
  | .comparison => .tier .term
  | .term => .tier .factor
  | .factor => .unary

def combine (span : Span) (left right : Expr) : Operator → Expr
  | .logical op => .logical span op left right
  | .binary op => .binary span op left right

inductive IsParamList : List Token → List Param → Prop
  | last {name close : Token} {s : Span} :
      name.kind = .name → close.kind = .mark .rightParen →
      IsParamList [name, close] [{ span := s, name := name.text }]
  | more {name comma : Token} {s : Span} {ts : List Token} {ps : List Param} :
      name.kind = .name → comma.kind = .mark .comma → IsParamList ts ps →
      IsParamList (name :: comma :: ts) ({ span := s, name := name.text } :: ps)

inductive IsParams : List Token → List Param → Prop
  | none {left right : Token} :
      left.kind = .mark .leftParen → right.kind = .mark .rightParen → IsParams [left, right] []
  | some {left : Token} {ts : List Token} {ps : List Param} :
      left.kind = .mark .leftParen → IsParamList ts ps → ps.length ≤ maxArgs →
      IsParams (left :: ts) ps

theorem IsParamList.forall_name {P : Text → Prop} {ts : List Token} {ps : List Param}
    (h : IsParamList ts ps) (hts : ∀ t ∈ ts, t.kind = .name → P t.text) : ∀ p ∈ ps, P p.name := by
  induction h with
  | last hname _ =>
    intro p hp
    cases List.mem_singleton.1 hp
    exact hts _ (List.mem_cons_self ..) hname
  | more hname _ _ ih =>
    simp only [List.forall_mem_cons] at hts
    intro p hp
    rcases List.mem_cons.1 hp with rfl | hp
    · exact hts.1 hname
    · exact ih hts.2.2 p hp

theorem IsParams.forall_name {P : Text → Prop} {ts : List Token} {ps : List Param}
    (h : IsParams ts ps) (hts : ∀ t ∈ ts, t.kind = .name → P t.text) : ∀ p ∈ ps, P p.name := by
  cases h with
  | none => nofun
  | some _ hps _ => exact hps.forall_name fun t ht => hts t (List.mem_cons_of_mem _ ht)

inductive IsSuperclass : List Token → Option NameUse → Prop
  | none : IsSuperclass [] none
  | some {less name : Token} {s : Span} :
      less.kind = .mark .less → name.kind = .name →
      IsSuperclass [less, name] (some { span := s, name := name.text, hops := .none })

/-- The rules of the grammar. -/
inductive Derives : Sym → List Token → Node → Prop
  -- Assignments, and everything that binds more tightly.
  | assignName {name equal : Token} {ts : List Token} {value : Expr} {s : Span} :
      name.kind = .name → equal.kind = .mark .equal → Derives .expression ts (.expr value) →
      Derives .expression (name :: equal :: ts)
        (.expr (.assign { span := s, name := name.text, hops := none } value))
  | assignField {dot name equal : Token} {ts us : List Token} {object value : Expr} {s : Span} :
      Derives .call ts (.expr object) → dot.kind = .mark .dot → name.kind = .name →
      equal.kind = .mark .equal → Derives .expression us (.expr value) →
      Derives .expression (ts ++ dot :: name :: equal :: us) (.expr (.set s object name.text value))
  | simple {ts : List Token} {e : Expr} :
      Derives .conditional ts (.expr e) → Derives .expression ts (.expr e)
  | choice {question colon : Token} {ts us vs : List Token} {c a b : Expr} {s : Span} :
      Derives (.tier .or) ts (.expr c) → question.kind = .mark .question →
      Derives .expression us (.expr a) → colon.kind = .mark .colon →
      Derives .conditional vs (.expr b) →
      Derives .conditional (ts ++ question :: (us ++ colon :: vs)) (.expr (.conditional s c a b))
  | plain {ts : List Token} {e : Expr} :
      Derives (.tier .or) ts (.expr e) → Derives .conditional ts (.expr e)
  -- Operators of one tier associate to the left.
  | chain {tier : Tier} {token : Token} {op : Operator} {ts us : List Token}
      {a b : Expr} {s : Span} :
      Derives (.tier tier) ts (.expr a) → IsOperator tier token.kind op →
      Derives (operandOf tier) us (.expr b) →
      Derives (.tier tier) (ts ++ token :: us) (.expr (combine s a b op))
  | operand {tier : Tier} {ts : List Token} {e : Expr} :
      Derives (operandOf tier) ts (.expr e) → Derives (.tier tier) ts (.expr e)
  | not {bang : Token} {ts : List Token} {e : Expr} {s : Span} :
      bang.kind = .mark .bang → Derives .unary ts (.expr e) →
      Derives .unary (bang :: ts) (.expr (.unary s .not e))
  | negate {minus : Token} {ts : List Token} {e : Expr} {s : Span} :
      minus.kind = .mark .minus → Derives .unary ts (.expr e) →
      Derives .unary (minus :: ts) (.expr (.unary s .negate e))
  | called {ts : List Token} {e : Expr} :
      Derives .call ts (.expr e) → Derives .unary ts (.expr e)
  -- Calls and properties.
  | head {ts : List Token} {e : Expr} :
      Derives .primary ts (.expr e) → Derives .call ts (.expr e)
  | apply {left : Token} {ts us : List Token} {f : Expr} {args : List Expr} {s : Span} :
      Derives .call ts (.expr f) → left.kind = .mark .leftParen →
      Derives .arguments us (.exprs args) → args.length ≤ maxArgs →
      Derives .call (ts ++ left :: us) (.expr (.call s f args))
  | get {dot name : Token} {ts : List Token} {object : Expr} {s : Span} :
      Derives .call ts (.expr object) → dot.kind = .mark .dot → name.kind = .name →
      Derives .call (ts ++ [dot, name]) (.expr (.get s object name.text))
  | noArguments {right : Token} :
      right.kind = .mark .rightParen → Derives .arguments [right] (.exprs [])
  | someArguments {ts : List Token} {es : List Expr} :
      Derives .argumentList ts (.exprs es) → Derives .arguments ts (.exprs es)
  | lastArgument {right : Token} {ts : List Token} {e : Expr} :
      Derives .expression ts (.expr e) → right.kind = .mark .rightParen →
      Derives .argumentList (ts ++ [right]) (.exprs [e])
  | moreArguments {comma : Token} {ts us : List Token} {e : Expr} {es : List Expr} :
      Derives .expression ts (.expr e) → comma.kind = .mark .comma →
      Derives .argumentList us (.exprs es) →
      Derives .argumentList (ts ++ comma :: us) (.exprs (e :: es))
  -- Expressions that begin with no operator and end before any call.
  | false_ {t : Token} {s : Span} :
      t.kind = .keyword .false_ → Derives .primary [t] (.expr (.literal s (.bool false)))
  | true_ {t : Token} {s : Span} :
      t.kind = .keyword .true_ → Derives .primary [t] (.expr (.literal s (.bool true)))
  | nil_ {t : Token} {s : Span} :
      t.kind = .keyword .nil_ → Derives .primary [t] (.expr (.literal s .nil))
  | number {t : Token} {x : Float} {s : Span} :
      t.kind = .number → Decimal.read? t.text = some x →
      Derives .primary [t] (.expr (.literal s (.number x)))
  | string {t : Token} {s : Span} :
      t.kind = .string → Derives .primary [t] (.expr (.literal s (.string t.text)))
  | this {t : Token} {s : Span} :
      t.kind = .keyword .this_ → Derives .primary [t] (.expr (.this s none))
  | super {t dot name : Token} {s : Span} :
      t.kind = .keyword .super_ → dot.kind = .mark .dot → name.kind = .name →
      Derives .primary [t, dot, name] (.expr (.super s name.text none))
  | name {t : Token} {s : Span} :
      t.kind = .name →
        Derives .primary [t] (.expr (.name { span := s, name := t.text, hops := none }))
  | lambda {t : Token} {ts us : List Token} {ps : List Param} {body : List Stmt} {s : Span} :
      t.kind = .keyword .fun_ → IsParams ts ps → Derives .block us (.stmts body) →
      Derives .primary (t :: (ts ++ us)) (.expr (.lambda s ps body))
  | group {left right : Token} {ts : List Token} {e : Expr} {s : Span} :
      left.kind = .mark .leftParen → Derives .expression ts (.expr e) →
      right.kind = .mark .rightParen →
      Derives .primary (left :: (ts ++ [right])) (.expr (.grouping s e))
  -- Declarations.
  | block {left right : Token} {ts : List Token} {body : List Stmt} :
      left.kind = .mark .leftBrace → Derives .declarations ts (.stmts body) →
      right.kind = .mark .rightBrace → Derives .block (left :: (ts ++ [right])) (.stmts body)
  | noDeclarations : Derives .declarations [] (.stmts [])
  | moreDeclarations {ts us : List Token} {first : Stmt} {others : List Stmt} :
      Derives .declaration ts (.stmt first) → Derives .declarations us (.stmts others) →
      Derives .declarations (ts ++ us) (.stmts (first :: others))
  | classDecl {t name left right : Token} {ts us : List Token} {sup : Option NameUse}
      {methods statics : List FunDecl} {s : Span} :
      t.kind = .keyword .class_ → name.kind = .name → IsSuperclass ts sup →
      left.kind = .mark .leftBrace → Derives .members us (.members methods statics) →
      right.kind = .mark .rightBrace →
      Derives .declaration (t :: name :: (ts ++ left :: (us ++ [right])))
        (.stmt (.classDecl s name.text sup methods statics))
  | funDecl {t : Token} {ts : List Token} {d : FunDecl} :
      t.kind = .keyword .fun_ → Derives .function ts (.function d) →
      Derives .declaration (t :: ts) (.stmt (.funDecl d))
  | varDecl {ts : List Token} {v : Stmt} :
      Derives .variable_ ts (.stmt v) → Derives .declaration ts (.stmt v)
  | statement {ts : List Token} {b : Stmt} :
      Derives .statement ts (.stmt b) → Derives .declaration ts (.stmt b)
  | noValue {t name semicolon : Token} {s : Span} :
      t.kind = .keyword .var_ → name.kind = .name → semicolon.kind = .mark .semicolon →
      Derives .variable_ [t, name, semicolon] (.stmt (.varDecl s name.text none))
  | value {t name equal semicolon : Token} {ts : List Token} {e : Expr} {s : Span} :
      t.kind = .keyword .var_ → name.kind = .name → equal.kind = .mark .equal →
      Derives .expression ts (.expr e) → semicolon.kind = .mark .semicolon →
      Derives .variable_ (t :: name :: equal :: (ts ++ [semicolon]))
        (.stmt (.varDecl s name.text (some e)))
  | function {name : Token} {ts us : List Token} {ps : List Param} {body : List Stmt} {s : Span} :
      name.kind = .name → IsParams ts ps → Derives .block us (.stmts body) →
      Derives .function (name :: (ts ++ us)) (.function (.mk s name.text ps body))
  | noMembers : Derives .members [] (.members [] [])
  | method {ts us : List Token} {d : FunDecl} {methods statics : List FunDecl} :
      Derives .function ts (.function d) → Derives .members us (.members methods statics) →
      Derives .members (ts ++ us) (.members (d :: methods) statics)
  | static {t : Token} {ts us : List Token} {d : FunDecl} {methods statics : List FunDecl} :
      t.kind = .keyword .class_ → Derives .function ts (.function d) →
      Derives .members us (.members methods statics) →
      Derives .members (t :: (ts ++ us)) (.members methods (d :: statics))
  -- Statements. An `else` belongs to the nearest `if`, so it follows no open branch.
  | exprStmt {semicolon : Token} {ts : List Token} {e : Expr} {s : Span} :
      Derives .expression ts (.expr e) → semicolon.kind = .mark .semicolon →
      Derives .statement (ts ++ [semicolon]) (.stmt (.exprStmt s e))
  | print {t semicolon : Token} {ts : List Token} {e : Expr} {s : Span} :
      t.kind = .keyword .print_ → Derives .expression ts (.expr e) →
      semicolon.kind = .mark .semicolon →
      Derives .statement (t :: (ts ++ [semicolon])) (.stmt (.printStmt s e))
  | return_ {t semicolon : Token} {ts : List Token} {e : Option Expr} {s : Span} :
      t.kind = .keyword .return_ → Derives .clause ts (.clause e) →
      semicolon.kind = .mark .semicolon →
      Derives .statement (t :: (ts ++ [semicolon])) (.stmt (.returnStmt s e))
  | break_ {t semicolon : Token} {s : Span} :
      t.kind = .keyword .break_ → semicolon.kind = .mark .semicolon →
      Derives .statement [t, semicolon] (.stmt (.breakStmt s))
  | inBlock {ts : List Token} {body : List Stmt} {s : Span} :
      Derives .block ts (.stmts body) → Derives .statement ts (.stmt (.block s body))
  | while_ {t left right : Token} {ts us : List Token} {c : Expr} {body : Stmt} {s : Span} :
      t.kind = .keyword .while_ → left.kind = .mark .leftParen →
      Derives .expression ts (.expr c) → right.kind = .mark .rightParen →
      Derives .statement us (.stmt body) →
      Derives .statement (t :: left :: (ts ++ right :: us)) (.stmt (.whileStmt s c body))
  | if_ {t left right : Token} {ts us : List Token} {c : Expr} {yes : Stmt} {s : Span} :
      t.kind = .keyword .if_ → left.kind = .mark .leftParen →
      Derives .expression ts (.expr c) → right.kind = .mark .rightParen →
      Derives .statement us (.stmt yes) →
      Derives .statement (t :: left :: (ts ++ right :: us)) (.stmt (.ifStmt s c yes none))
  | ifElse {t left right else_ : Token} {ts us vs : List Token} {c : Expr}
      {yes no : Stmt} {s : Span} :
      t.kind = .keyword .if_ → left.kind = .mark .leftParen →
      Derives .expression ts (.expr c) → right.kind = .mark .rightParen →
      Derives .statement us (.stmt yes) → yes.endsOpen = false →
      else_.kind = .keyword .else_ → Derives .statement vs (.stmt no) →
      Derives .statement (t :: left :: (ts ++ right :: (us ++ else_ :: vs)))
        (.stmt (.ifStmt s c yes (some no)))
  | for_ {t left semicolon right : Token} {ts us vs ws : List Token} {init : Option Stmt}
      {c step : Option Expr} {body : Stmt} {s : Span} :
      t.kind = .keyword .for_ → left.kind = .mark .leftParen → Derives .forInit ts (.init init) →
      Derives .clause us (.clause c) → semicolon.kind = .mark .semicolon →
      Derives .clause vs (.clause step) → right.kind = .mark .rightParen →
      Derives .statement ws (.stmt body) →
      Derives .statement (t :: left :: (ts ++ us ++ semicolon :: (vs ++ right :: ws)))
        (.stmt (.forStmt s init c step body))
  | noInit {semicolon : Token} :
      semicolon.kind = .mark .semicolon → Derives .forInit [semicolon] (.init none)
  | varInit {ts : List Token} {v : Stmt} :
      Derives .variable_ ts (.stmt v) → Derives .forInit ts (.init (some v))
  | exprInit {semicolon : Token} {ts : List Token} {e : Expr} {s : Span} :
      Derives .expression ts (.expr e) → semicolon.kind = .mark .semicolon →
      Derives .forInit (ts ++ [semicolon]) (.init (some (.exprStmt s e)))
  | noClause : Derives .clause [] (.clause none)
  | someClause {ts : List Token} {e : Expr} :
      Derives .expression ts (.expr e) → Derives .clause ts (.clause (some e))

theorem isOperator_of_operator? {tier : Tier} {kind : Token.Kind} {op : Operator}
    (h : tier.operator? kind = some op) : IsOperator tier kind op := by
  unfold Tier.operator? at h
  split at h <;> cases h <;> constructor

theorem apply_eq_combine (op : Operator) (a b : Expr) :
    op.apply a b = combine (a.span.cover b.span) a b op := by
  cases op <;> rfl

/-! ### What pieces begin with -/

def primaryFirst : List Token.Kind :=
  [.keyword .false_, .keyword .true_, .keyword .nil_, .number, .string, .keyword .this_,
    .keyword .super_, .name, .keyword .fun_, .mark .leftParen]

def expressionFirst : List Token.Kind := [.mark .bang, .mark .minus] ++ primaryFirst

def statementFirst : List Token.Kind :=
  [.keyword .for_, .keyword .if_, .keyword .print_, .keyword .return_, .keyword .while_,
    .keyword .break_, .mark .leftBrace] ++ expressionFirst

/-- The kinds of tokens that a piece begins with; none are told of a piece that may be empty. -/
def Sym.first : Sym → List Token.Kind
  | .primary | .call => primaryFirst
  | .expression | .conditional | .tier _ | .unary | .argumentList => expressionFirst
  | .arguments => .mark .rightParen :: expressionFirst
  | .statement => statementFirst
  | .declaration => [.keyword .class_, .keyword .var_] ++ statementFirst
  | .variable_ => [.keyword .var_]
  | .function => [.name]
  | .block => [.mark .leftBrace]
  | .forInit => [.mark .semicolon, .keyword .var_] ++ expressionFirst
  | .members | .declarations | .clause => []

/-- A piece begins as told, and one that is no declaration and begins with `fun` goes on with a
parenthesis. -/
def Starts (sym : Sym) (ts : List Token) : Prop :=
  ∃ t us, ts = t :: us ∧ t.kind ∈ sym.first ∧
    (sym ≠ .declaration → t.kind = .keyword .fun_ →
      ∃ v vs, us = v :: vs ∧ v.kind = .mark .leftParen)

private theorem Starts.append {sym sym' : Sym} {ts : List Token}
    (us : List Token) (h : Starts sym ts)
    (hd : sym ≠ .declaration) (hs : sym.first ⊆ sym'.first) : Starts sym' (ts ++ us) := by
  obtain ⟨t, vs, rfl, ht, hfun⟩ := h
  refine ⟨t, vs ++ us, rfl, hs ht, fun _ hf => ?_⟩
  obtain ⟨v, ws, rfl, hv⟩ := hfun hd hf
  exact ⟨v, ws ++ us, rfl, hv⟩

private theorem Starts.weaken {sym sym' : Sym} {ts : List Token} (h : Starts sym ts)
    (hd : sym ≠ .declaration) (hs : sym.first ⊆ sym'.first) : Starts sym' ts := by
  simpa using h.append [] hd hs

private theorem Starts.token {sym : Sym} {t : Token} {kind : Token.Kind} (us : List Token)
    (ht : t.kind = kind) (h : kind ∈ sym.first) (hf : kind ≠ .keyword .fun_) :
    Starts sym (t :: us) :=
  ⟨t, us, rfl, ht ▸ h, fun _ hfun => absurd (ht ▸ hfun) hf⟩

private theorem IsParams.leftParen {ts : List Token} {ps : List Param} (h : IsParams ts ps) :
    ∃ v vs, ts = v :: vs ∧ v.kind = .mark .leftParen := by
  cases h with
  | none hl _ => exact ⟨_, _, rfl, hl⟩
  | some hl _ _ => exact ⟨_, _, rfl, hl⟩

theorem Derives.starts {sym : Sym} {ts : List Token} {n : Node} (h : Derives sym ts n)
    (hne : sym.first ≠ []) : Starts sym ts := by
  induction h with
  | assignName hn _ _ => exact .token _ hn (by decide) (by decide)
  | assignField _ _ _ _ _ ih => exact (ih (by decide)).append _ (by decide) (by decide)
  | simple _ ih | plain _ ih | called _ ih | head _ ih | someArguments _ ih =>
    exact (ih (by decide)).weaken (by decide) (by decide)
  | choice _ _ _ _ _ ih => exact (ih (by decide)).append _ (by decide) (by decide)
  | chain _ _ _ ih => exact (ih hne).append _ (by simp) (List.Subset.refl _)
  | @operand tier _ _ _ ih => cases tier <;> exact (ih (by decide)).weaken (by decide) (by decide)
  | not ht _ | negate ht _ | noArguments ht | false_ ht | true_ ht | nil_ ht | number ht _
  | string ht | this ht | super ht _ _ | name ht | group ht _ _ | block ht _ _ | noValue ht _ _
  | value ht _ _ _ _ | function ht _ _ | print ht _ _ | return_ ht _ _ | break_ ht _
  | while_ ht _ _ _ _ | if_ ht _ _ _ _ | ifElse ht _ _ _ _ _ _ _ | for_ ht _ _ _ _ _ _ _
  | noInit ht | classDecl ht _ _ _ _ _ => exact .token _ ht (by decide) (by decide)
  | apply _ _ _ _ ih | get _ _ _ ih | lastArgument _ _ ih | moreArguments _ _ _ ih
  | exprStmt _ _ ih | exprInit _ _ ih => exact (ih (by decide)).append _ (by decide) (by decide)
  | lambda ht hp _ =>
    obtain ⟨v, vs, rfl, hv⟩ := hp.leftParen
    exact ⟨_, _, rfl, by rw [ht]; decide, fun _ _ => ⟨v, _, rfl, hv⟩⟩
  | funDecl ht _ => exact ⟨_, _, rfl, by rw [ht]; decide, fun hd => absurd rfl hd⟩
  | varDecl _ ih | statement _ ih | inBlock _ ih | varInit _ ih =>
    exact (ih (by decide)).weaken (by decide) (by decide)
  | noDeclarations | moreDeclarations _ _ | noMembers | method _ _ | static _ _ _ | noClause
  | someClause _ => exact absurd rfl hne

/-- A whole program: declarations, and the end of the source. -/
def IsProgram (tokens : List Token) (body : List Stmt) : Prop :=
  ∃ ts eof, tokens = ts ++ [eof] ∧ eof.kind = .eof ∧ Derives .declarations ts (.stmts body)

end Grammar
end Lox
