import Lox.Proofs.Grammar.Soundness
import Lox.Proofs.Spans.Locate

set_option autoImplicit false
set_option relaxedAutoImplicit false

namespace Lox

namespace Grammar

open Lox.Parser

/-! ### Spans that cover tokens -/

private theorem Covers.cons {ts : List Token} {s : Span} (t : Token) (h : Covers ts s) :
    Covers (t :: ts) (t.span.cover s) := by
  simpa using (Covers.token t).append h []

private theorem Covers.through (t t' : Token) (ts : List Token) {us ws : List Token} (hus : us ≠ [])
    (hws : ws = ts ++ us) : Covers (t :: ws) (t.span.cover (lastOf t' us).span) := by
  subst hws
  refine ⟨t, lastOf t' us, rfl, ?_, rfl⟩
  rw [← List.cons_append, List.getLast?_append, getLast?_of_ne_nil hus t']
  rfl

private theorem Covers.ends (t u : Token) (ts : List Token) {ws : List Token}
    (hws : ws = ts ++ [u]) :
    Covers (t :: ws) (t.span.cover u.span) :=
  .through t t ts (List.cons_ne_nil u []) hws

private theorem StandAll.ne_nil {ps : List Piece} {m : Mark} {ts : List Token} (h : StandAll ps ts)
    (hm : Piece.mark m ∈ ps) : ts ≠ [] := by
  induction h with
  | nil => cases hm
  | token _ _ _ => exact List.cons_ne_nil _ _
  | tree _ _ _ _ ih =>
    exact List.append_ne_nil_of_right_ne_nil _ (ih (by simpa [Piece.mark] using hm))
  | noMembers _ ih | method _ ih | static _ ih => exact ih (by simpa [Piece.mark] using hm)

private theorem parts_apply (op : Operator) (a b : Expr) : (Tree.expr (op.apply a b)).parts =
    [.tree (.expr a), Piece.operator op, .tree (.expr b)] := by
  cases op <;> rfl

private theorem span_apply (op : Operator) (a b : Expr) :
    (op.apply a b).span = a.span.cover b.span := by
  cases op <;> rfl

private theorem StandAll.separated {u : Tree} {us : List Tree} {ts vs : List Token} {comma : Token}
    {ps : List Piece} (hu : Stands u ts) (hcomma : comma.kind = .mark .comma) (hne : us ≠ [])
    (h : StandAll (Piece.separated us ++ ps) vs) :
    StandAll (Piece.separated (u :: us) ++ ps) (ts ++ comma :: vs) := by
  cases us with
  | nil => exact absurd rfl hne
  | cons v us => exact .cons hu (.token hcomma h)

/-! ### Readers -/

def At {α : Type} (tree : α → Tree) (a : α) (ts : List Token) : Prop := Stands (tree a) ts

def Takes {α : Type} (parts : α → List Piece) (a : α) (ts : List Token) : Prop :=
  StandAll (parts a) ts

def paramParts (ps : List Param) : List Piece :=
  Piece.separated (ps.map .param) ++ [Piece.mark .rightParen]

def bodyParts (body : List Stmt) : List Piece := Piece.statements body ++ [Piece.mark .rightBrace]

private theorem Takes.ne_nil_of_body {body : List Stmt} {ts : List Token}
    (h : Takes bodyParts body ts) :
    ts ≠ [] :=
  StandAll.ne_nil h (List.mem_append_right _ List.mem_cons_self)

private theorem locates_paramsFrom (fuel count : Nat) (c : Cursor) :
    Locates True (paramsFrom fuel count) c fun ps ts => ps ≠ [] ∧ Takes paramParts ps ts := by
  induction fuel generalizing count c with
  | zero => exact .fail
  | succ fuel ih =>
    rw [paramsFrom]
    refine .noteIf fun c₁ => .expect (by decide) fun name c₂ => ?_
    refine .accept (by decide) (fun c₃ => ?_) (.expectMark fun close c₃ => .pure fun h => ?_)
    · refine .map ((ih (count + 1) c₃).weaken fun _ => trivial) fun ps ts h hps => ?_
      obtain ⟨⟨-, ⟨hname, -⟩, -⟩, ⟨hcomma, -⟩, -⟩ := h
      have hparam : Stands (.param { span := name.span, name := name.text }) [name] :=
        ⟨.token ⟨hname, rfl⟩ .nil, .token name⟩
      exact ⟨List.cons_ne_nil _ _, .separated hparam hcomma (by simpa using hps.1) hps.2⟩
    · obtain ⟨⟨-, ⟨hname, -⟩, -⟩, ⟨hclose, -⟩, -⟩ := h
      have hparam : Stands (.param { span := name.span, name := name.text }) [name] :=
        ⟨.token ⟨hname, rfl⟩ .nil, .token name⟩
      exact ⟨List.cons_ne_nil _ _, .cons hparam (.token hclose .nil)⟩

private theorem locates_params (fuel : Nat) (c : Cursor) :
    Locates True (params fuel) c (Takes paramParts) := by
  rw [params]
  refine .accept (by decide) (fun c₁ => .pure fun h => .token h.2.1.1 .nil) ?_
  exact (locates_paramsFrom fuel 0 c).imp fun ps ts _ h => h.2

private theorem locates_superclassUse (c : Cursor) :
    Locates True superclassUse c (Takes Piece.inherits) := by
  rw [superclassUse]
  refine .accept (by decide) (fun c₁ => .expect (by decide) fun name c₂ => .pure fun h => ?_)
    (.pure fun _ => .nil)
  obtain ⟨⟨-, ⟨hless, -⟩, -⟩, ⟨hname, -⟩, -⟩ := h
  have huse : Stands (.superclass { span := name.span, name := name.text, hops := none }) [name] :=
    ⟨.token ⟨hname, rfl⟩ .nil, .token name⟩
  exact .token hless (.single huse)

/-- A function from its name on takes the tokens, and its span goes from where it was told to the
last of them. -/
def AtFunction (start : Span) (d : FunDecl) (ts : List Token) : Prop :=
  StandAll (Piece.function d) ts ∧ ∃ last, ts.getLast? = some last ∧ d.span = start.cover last.span

private theorem AtFunction.covers_cons {t : Token} {d : FunDecl} {ts : List Token}
    (h : AtFunction t.span d ts) : Covers (t :: ts) d.span := by
  obtain ⟨last, hlast, hspan⟩ := h.2
  exact ⟨t, last, rfl, by simp [List.getLast?_cons, hlast], hspan⟩

private theorem AtFunction.covers {t : Token} {d : FunDecl} {ts : List Token}
    (h : AtFunction t.span d ts) (ht : ts.head? = some t) : Covers ts d.span := by
  obtain ⟨last, hlast, hspan⟩ := h.2
  exact ⟨t, last, ht, hlast, hspan⟩

private theorem AtFunction.ne_nil {start : Span} {d : FunDecl} {ts : List Token}
    (h : AtFunction start d ts) : ts ≠ [] := by
  rintro rfl
  obtain ⟨_, hlast, -⟩ := h.2
  cases hlast

private theorem standAll_callable {left brace : Token} {ps : List Param} {body : List Stmt}
    {ts us : List Token} (hleft : left.kind = .mark .leftParen) (hps : Takes paramParts ps ts)
    (hbrace : brace.kind = .mark .leftBrace) (hbody : Takes bodyParts body us) :
    StandAll (Piece.callable ps body) (left :: (ts ++ brace :: us)) := by
  have hparts : Piece.callable ps body =
      Piece.mark .leftParen :: (paramParts ps ++ Piece.mark .leftBrace :: bodyParts body) := by
    simp [Piece.callable, paramParts, bodyParts]
  rw [hparts]
  exact .token hleft (hps.append (.token hbrace hbody))

def AtArguments (r : List Expr × Token) (ts : List Token) : Prop :=
  StandAll (Piece.separated (r.1.map .expr) ++ [Piece.mark .rightParen]) ts ∧ ts.getLast? = some r.2

def AtMembers (r : List FunDecl × List FunDecl) (ts : List Token) : Prop :=
  ∀ ps us, StandAll ps us → StandAll (.members r.1 r.2 :: ps) (ts ++ us)

/-- All readers put their trees where they stand, at a depth that suffices for the tokens left. -/
structure LocatesAt (fuel : Nat) : Prop where
  expression (c : Cursor) : Locates (32 * c.left.length + 16 ≤ fuel) (Parser.expression fuel) c
    (At .expr)
  conditional (c : Cursor) : Locates (32 * c.left.length + 15 ≤ fuel) (Parser.conditional fuel) c
    (At .expr)
  chain (tier : Tier) (c : Cursor) : Locates (32 * c.left.length + tierDepth tier ≤ fuel)
    (Parser.chain fuel tier) c (At .expr)
  chainAfter (tier : Tier) (left : Expr) (before : List Token) (c : Cursor) :
    Locates (32 * c.left.length + 1 ≤ fuel ∧ Stands (.expr left) before)
      (Parser.chainAfter fuel tier left) c fun e ts => At .expr e (before ++ ts)
  operand (tier : Tier) (c : Cursor) : Locates (32 * c.left.length + tierDepth tier ≤ fuel + 1)
    (Parser.operand fuel tier) c (At .expr)
  unary (c : Cursor) : Locates (32 * c.left.length + 2 ≤ fuel) (Parser.unary fuel) c (At .expr)
  callAfter (head : Expr) (before : List Token) (c : Cursor) :
    Locates (32 * c.left.length + 1 ≤ fuel ∧ Stands (.expr head) before)
      (Parser.callAfter fuel head) c fun e ts => At .expr e (before ++ ts)
  arguments (c : Cursor) : Locates (32 * c.left.length + 18 ≤ fuel) (Parser.arguments fuel) c
    AtArguments
  argumentsFrom (count : Nat) (c : Cursor) :
    Locates (32 * c.left.length + 17 ≤ fuel) (Parser.argumentsFrom fuel count) c
      fun r ts => r.1 ≠ [] ∧ AtArguments r ts
  primary (c : Cursor) : Locates (32 * c.left.length + 1 ≤ fuel) (Parser.primary fuel) c (At .expr)
  blockBody (c : Cursor) : Locates (32 * c.left.length + 21 ≤ fuel) (Parser.blockBody fuel) c
    (Takes bodyParts)
  declarations (closing : Option Mark) (c : Cursor) :
    Locates (32 * c.left.length + 20 ≤ fuel) (Parser.declarations fuel closing) c
      (Takes Piece.statements)
  declaration (c : Cursor) : Locates (32 * c.left.length + 19 ≤ fuel) (Parser.declaration fuel) c
    (At .stmt)
  classDecl (c : Cursor) :
    Locates (32 * c.left.length + 1 ≤ fuel ∧ c.current.kind = .keyword .class_)
      (Parser.classDecl fuel) c (At .stmt)
  members (c : Cursor) : Locates (32 * c.left.length + 2 ≤ fuel) (Parser.members fuel) c AtMembers
  funDecl (start : Span) (role : FunRole) (c : Cursor) :
    Locates (32 * c.left.length + 1 ≤ fuel) (Parser.funDecl fuel start role) c (AtFunction start)
  varDecl (c : Cursor) :
    Locates (32 * c.left.length + 1 ≤ fuel ∧ c.current.kind = .keyword .var_)
      (Parser.varDecl fuel) c (At .stmt)
  initializer (c : Cursor) : Locates (32 * c.left.length + 17 ≤ fuel) (Parser.initializer fuel) c
    (Takes Piece.initial)
  statement (c : Cursor) : Locates (32 * c.left.length + 18 ≤ fuel) (Parser.statement fuel) c
    (At .stmt)
  expressionUnless (mark : Mark) (c : Cursor) :
    Locates (32 * c.left.length + 17 ≤ fuel) (Parser.expressionUnless fuel mark) c
      (Takes Piece.clause)
  exprStmt (c : Cursor) : Locates (32 * c.left.length + 17 ≤ fuel) (Parser.exprStmt fuel) c
    (At .stmt)
  forStmt (c : Cursor) :
    Locates (32 * c.left.length + 1 ≤ fuel ∧ c.current.kind = .keyword .for_)
      (Parser.forStmt fuel) c (At .stmt)
  forInit (c : Cursor) : Locates (32 * c.left.length + 18 ≤ fuel) (Parser.forInit fuel) c
    (Takes Piece.loopInitial)
  ifStmt (c : Cursor) :
    Locates (32 * c.left.length + 1 ≤ fuel ∧ c.current.kind = .keyword .if_)
      (Parser.ifStmt fuel) c (At .stmt)
  whileStmt (c : Cursor) :
    Locates (32 * c.left.length + 1 ≤ fuel ∧ c.current.kind = .keyword .while_)
      (Parser.whileStmt fuel) c (At .stmt)

private theorem locatesAt_zero : LocatesAt 0 := by
  constructor <;> intros <;> exact .fail

namespace LocatesAt

variable {fuel : Nat} (ih : LocatesAt fuel) (c : Cursor)
include ih

private theorem expression_succ : Locates (32 * c.left.length + 16 ≤ fuel + 1)
    (Parser.expression (fuel + 1)) c (At .expr) := by
  rw [Parser.expression]
  refine .bind ((ih.conditional c).weaken fun h => by omega) fun left ts c₁ => .peek ?_
  split
  · rename_i hequal
    refine .next (fun _ => by simp [hequal]) fun c₂ => ?_
    refine .bind ((ih.expression c₂).weaken fun h => by omega) fun value us c₃ => ?_
    -- The parts of an assignment are those of its target, an equals sign and the value.
    split
    · refine .pure fun h => ?_
      obtain ⟨⟨⟨-, ⟨hleft, -⟩, -⟩, -⟩, ⟨hvalue, -⟩, -⟩ := h
      rw [List.append_nil]
      exact ⟨hleft.parts.append (.token hequal (.single hvalue)),
        hleft.covers.append hvalue.covers [_]⟩
    · refine .pure fun h => ?_
      obtain ⟨⟨⟨-, ⟨hleft, -⟩, -⟩, -⟩, ⟨hvalue, -⟩, -⟩ := h
      rw [List.append_nil]
      exact ⟨hleft.parts.append (.token hequal (.single hvalue)),
        hleft.covers.append hvalue.covers [_]⟩
    · exact .note fun c₄ => .pure False.elim
  · exact .pure fun h => by simpa using h.2.1.1

private theorem conditional_succ : Locates (32 * c.left.length + 15 ≤ fuel + 1)
    (Parser.conditional (fuel + 1)) c (At .expr) := by
  rw [Parser.conditional]
  refine .bind ((ih.chain .or c).weaken fun h => by rw [tierDepth]; omega) fun condition ts c₁ => ?_
  refine .accept (by decide) (fun c₂ => ?_) (.pure fun h => by simpa using h.2.1.1)
  refine .bind ((ih.expression c₂).weaken fun h => by omega) fun yes us c₃ => ?_
  refine .expectMark fun colon c₄ => ?_
  refine .map ((ih.conditional c₄).weaken fun h => by omega) fun no vs h hno => ?_
  obtain ⟨⟨⟨⟨-, ⟨hcond, -⟩, -⟩, ⟨hquestion, -⟩, -⟩, ⟨hyes, -⟩, -⟩, ⟨hcolon, -⟩, -⟩ := h
  refine ⟨.cons hcond (.token hquestion (.cons hyes (.token hcolon (.single hno)))), ?_⟩
  have hcovers := hcond.covers.append hno.covers (c₁.current :: (us ++ [colon]))
  rw [List.cons_append, List.append_assoc] at hcovers
  exact hcovers

private theorem chain_succ (tier : Tier) : Locates (32 * c.left.length + tierDepth tier ≤ fuel + 1)
    (Parser.chain (fuel + 1) tier) c (At .expr) := by
  rw [Parser.chain]
  refine .bind ((ih.operand tier c).weaken id) fun left ts c₁ => ?_
  refine (ih.chainAfter tier left ts c₁).weaken fun h => ?_
  have hpos : 1 < tierDepth tier := by cases tier <;> decide
  exact ⟨by omega, h.2.1.1⟩

private theorem chainAfter_succ (tier : Tier) (left : Expr) (before : List Token) :
    Locates (32 * c.left.length + 1 ≤ fuel + 1 ∧ Stands (.expr left) before)
      (Parser.chainAfter (fuel + 1) tier left) c fun e ts => At .expr e (before ++ ts) := by
  rw [Parser.chainAfter]
  refine .peek ?_
  split
  · exact .pure fun h => by simpa [At] using h.2
  · rename_i op hop
    have hop := isOperator_of_operator? hop
    refine .next (fun _ heof => ?_) fun c₁ => ?_
    · rw [heof] at hop
      cases hop
    · refine .bind ((ih.operand tier c₁).weaken fun h => ?_) fun right us c₂ => ?_
      · have : tierDepth tier ≤ 14 := by cases tier <;> decide
        omega
      · have hnext := ih.chainAfter tier (op.apply left right) (before ++ c.current :: us) c₂
        refine (hnext.weaken fun h => ⟨by omega, ?_, ?_⟩).imp fun e vs _ h => by simpa [At] using h
        · rw [parts_apply]
          exact .cons h.1.1.2 (.token ⟨tier, hop⟩ (.single h.2.1.1))
        · have hcovers := h.1.1.2.covers.append h.2.1.1.covers [c.current]
          have hspan : (Tree.expr (op.apply left right)).span =
              (Tree.expr left).span.cover (Tree.expr right).span := span_apply op left right
          rw [hspan]
          exact hcovers

private theorem operand_succ (tier : Tier) :
    Locates (32 * c.left.length + tierDepth tier ≤ fuel + 1 + 1)
    (Parser.operand (fuel + 1) tier) c (At .expr) := by
  rw [Parser.operand]
  cases tier
  case factor => exact (ih.unary c).weaken fun h => by rw [tierDepth] at h; omega
  all_goals exact (ih.chain _ c).weaken fun h => by simp only [tierDepth] at h ⊢; omega

private theorem unary_succ : Locates (32 * c.left.length + 2 ≤ fuel + 1) (Parser.unary (fuel + 1)) c
    (At .expr) := by
  rw [Parser.unary]
  refine .current ?_
  split
  · rename_i hbang
    refine .next (fun _ => by simp [hbang]) fun c₁ => ?_
    refine .map ((ih.unary c₁).weaken fun h => by omega) fun e ts h he => ?_
    exact ⟨.token (.inl ⟨rfl, hbang⟩) (.single he), he.covers.cons c.current⟩
  · rename_i hminus
    refine .next (fun _ => by simp [hminus]) fun c₁ => ?_
    refine .map ((ih.unary c₁).weaken fun h => by omega) fun e ts h he => ?_
    exact ⟨.token (.inr ⟨rfl, hminus⟩) (.single he), he.covers.cons c.current⟩
  · refine .bind ((ih.primary c).weaken fun h => by omega) fun head ts c₁ => ?_
    exact (ih.callAfter head ts c₁).weaken fun h => ⟨by omega, h.2.1.1⟩

private theorem callAfter_succ (head : Expr) (before : List Token) :
    Locates (32 * c.left.length + 1 ≤ fuel + 1 ∧ Stands (.expr head) before)
      (Parser.callAfter (fuel + 1) head) c fun e ts => At .expr e (before ++ ts) := by
  rw [Parser.callAfter]
  refine .peek ?_
  split
  · rename_i hparen
    refine .next (fun _ => by simp [hparen]) fun c₁ => ?_
    refine .bind ((ih.arguments c₁).weaken fun h => by omega) fun r us c₂ => ?_
    obtain ⟨args, stop⟩ := r
    have hnext := ih.callAfter (.call (head.span.cover stop.span) head args)
      (before ++ c.current :: us) c₂
    refine (hnext.weaken fun h => ⟨by omega, ?_⟩).imp fun e vs _ h => by simpa [At] using h
    obtain ⟨⟨⟨-, hhead⟩, -⟩, ⟨⟨hargs, hstop⟩, -⟩, -⟩ := h
    refine ⟨.cons hhead (.token hparen hargs), ?_⟩
    obtain ⟨us, rfl⟩ := List.getLast?_eq_some_iff.1 hstop
    exact hhead.covers.append (.token stop) (c.current :: us)
  · rename_i hdot
    refine .next (fun _ => by simp [hdot]) fun c₁ => .expect (by decide) fun name c₂ => ?_
    have hnext := ih.callAfter (.get (head.span.cover name.span) head name.text)
      (before ++ [c.current, name]) c₂
    refine (hnext.weaken fun h => ⟨by omega, ?_⟩).imp fun e vs _ h => by simpa [At] using h
    obtain ⟨⟨⟨-, hhead⟩, -⟩, ⟨hname, -⟩, -⟩ := h
    exact ⟨.cons hhead (.token hdot (.token ⟨hname, rfl⟩ .nil)),
      hhead.covers.append (.token name) [c.current]⟩
  · exact .pure fun h => by simpa [At] using h.2

private theorem arguments_succ : Locates (32 * c.left.length + 18 ≤ fuel + 1)
    (Parser.arguments (fuel + 1)) c AtArguments := by
  rw [Parser.arguments]
  refine .peek ?_
  split
  · rename_i hright
    exact .next (fun _ => by simp [hright]) fun c₁ => .pure fun _ => ⟨.token hright .nil, rfl⟩
  · exact ((ih.argumentsFrom 0 c).weaken fun h => by omega).imp fun r ts _ h => h.2

private theorem argumentsFrom_succ (count : Nat) : Locates (32 * c.left.length + 17 ≤ fuel + 1)
    (Parser.argumentsFrom (fuel + 1) count) c fun r ts => r.1 ≠ [] ∧ AtArguments r ts := by
  rw [Parser.argumentsFrom]
  refine .noteIf fun c₁ => ?_
  refine .bind ((ih.expression c₁).weaken fun h => by rw [h.2]; omega) fun arg ts c₂ => ?_
  refine .accept (by decide) (fun c₃ => ?_) (.expectMark fun right c₃ => .pure fun h => ?_)
  · refine .bind ((ih.argumentsFrom (count + 1) c₃).weaken fun h => ?_) fun r us c₄ =>
      .pure fun h => ?_
    · obtain ⟨⟨⟨hfuel, rfl⟩, -, h₂⟩, -, h₃⟩ := h
      omega
    · obtain ⟨⟨⟨-, ⟨harg, -⟩, -⟩, ⟨hcomma, -⟩, -⟩, ⟨⟨hne, hargs, hlast⟩, -⟩, -⟩ := h
      rw [List.append_nil]
      refine ⟨List.cons_ne_nil _ _, .separated harg hcomma (by simpa using hne) hargs, ?_⟩
      simp [List.getLast?_append, List.getLast?_cons, hlast]
  · obtain ⟨⟨-, ⟨harg, -⟩, -⟩, ⟨hright, -⟩, -⟩ := h
    exact ⟨List.cons_ne_nil _ _, .cons harg (.token hright .nil), by simp⟩

private theorem primary_succ :
    Locates (32 * c.left.length + 1 ≤ fuel + 1) (Parser.primary (fuel + 1)) c
    (At .expr) := by
  rw [Parser.primary]
  refine .current ?_
  split <;> rename_i ht
  · exact .next (fun _ => by simp [ht]) fun c₁ => .pure fun _ => ⟨.token ht .nil, .token _⟩
  · exact .next (fun _ => by simp [ht]) fun c₁ => .pure fun _ => ⟨.token ht .nil, .token _⟩
  · exact .next (fun _ => by simp [ht]) fun c₁ => .pure fun _ => ⟨.token ht .nil, .token _⟩
  · refine .next (fun _ => by simp [ht]) fun c₁ => ?_
    split
    · rename_i x hx
      exact .pure fun _ => ⟨.token ⟨ht, hx⟩ .nil, .token _⟩
    · exact .note fun c₂ => .fail
  · exact .next (fun _ => by simp [ht]) fun c₁ => .pure fun _ => ⟨.token ⟨ht, rfl⟩ .nil, .token _⟩
  · exact .next (fun _ => by simp [ht]) fun c₁ => .pure fun _ => ⟨.token ht .nil, .token _⟩
  · refine .next (fun _ => by simp [ht]) fun c₁ => .expectMark fun dot c₂ => ?_
    refine .expect (by decide) fun name c₃ => .pure fun h => ?_
    obtain ⟨⟨-, ⟨hdot, -⟩, -⟩, ⟨hname, -⟩, -⟩ := h
    exact ⟨.token ht (.token hdot (.token ⟨hname, rfl⟩ .nil)), .ends c.current name [dot] rfl⟩
  · exact .next (fun _ => by simp [ht]) fun c₁ => .pure fun _ => ⟨.token ⟨ht, rfl⟩ .nil, .token _⟩
  · refine .next (fun _ => by simp [ht]) fun c₁ => .expectMark fun left c₂ => ?_
    refine .bind ((locates_params fuel c₂).weaken fun _ => trivial) fun ps ts c₃ => ?_
    refine .expectMark fun brace c₄ => ?_
    refine .bind ((ih.blockBody c₄).weaken fun h => by omega) fun body us c₅ => ?_
    refine .spanFrom (.pure fun h => ?_)
    obtain ⟨⟨⟨⟨-, ⟨hleft, -⟩, -⟩, ⟨hps, -⟩, -⟩, ⟨hbrace, -⟩, -⟩, ⟨hbody, -, hlast⟩, -⟩ := h
    rw [List.append_nil]
    refine ⟨.token ht (standAll_callable hleft hps hbrace hbody), ?_⟩
    rw [hlast]
    exact .through c.current c₄.previous (left :: (ts ++ [brace])) hbody.ne_nil_of_body (by simp)
  · refine .next (fun _ => by simp [ht]) fun c₁ => ?_
    refine .bind ((ih.expression c₁).weaken fun h => by omega) fun e ts c₂ => ?_
    refine .expectMark fun right c₃ => .spanFrom (.pure fun h => ?_)
    obtain ⟨⟨-, ⟨he, -⟩, -⟩, ⟨hright, -, hlast⟩, -⟩ := h
    rw [hlast]
    exact ⟨.token ht (.cons he (.token hright .nil)), .ends c.current right ts rfl⟩
  · exact .note fun c₁ => .fail

private theorem blockBody_succ : Locates (32 * c.left.length + 21 ≤ fuel + 1)
    (Parser.blockBody (fuel + 1)) c (Takes bodyParts) := by
  rw [Parser.blockBody]
  refine .bind ((ih.declarations _ c).weaken fun h => by omega) fun body ts c₁ => ?_
  refine .expectMark fun right c₂ => .pure fun h => ?_
  exact h.1.2.1.1.append (.token h.2.1.1 .nil)

private theorem declarations_succ (closing : Option Mark) :
    Locates (32 * c.left.length + 20 ≤ fuel + 1)
    (Parser.declarations (fuel + 1) closing) c (Takes Piece.statements) := by
  rw [Parser.declarations]
  refine .atListEnd ?_
  split
  · exact .pure fun _ => .nil
  · have hsound := (soundAt fuel).declaration c
    refine .bind (.recover ((ih.declaration c).weaken fun h => by omega) hsound fun h => by omega)
      fun first ts c₁ => ?_
    refine .map ((ih.declarations closing c₁).weaken fun h => ?_) fun others us h hothers => ?_
    · obtain ⟨hfuel, ⟨⟨b, -, hb⟩, -⟩, hlen⟩ := h
      have hpos := List.length_pos_iff.2 hb.covers.ne_nil
      omega
    · obtain ⟨-, ⟨⟨b, rfl, hb⟩, -⟩, -⟩ := h
      exact .cons hb hothers

private theorem declaration_succ : Locates (32 * c.left.length + 19 ≤ fuel + 1)
    (Parser.declaration (fuel + 1)) c (At .stmt) := by
  rw [Parser.declaration]
  refine .peek ?_
  split <;> rename_i ht
  · exact (ih.classDecl c).weaken fun h => ⟨by omega, ht⟩
  · refine .peekSecond ?_
    split
    · refine .next (fun _ => by simp [ht]) fun c₁ => ?_
      refine .map ((ih.funDecl _ _ c₁).weaken fun h => by omega) fun d ts h hd => ?_
      exact ⟨.token ht hd.1, hd.covers_cons⟩
    · exact (ih.statement c).weaken fun h => by omega
  · exact (ih.varDecl c).weaken fun h => ⟨by omega, ht⟩
  · exact (ih.statement c).weaken fun h => by omega

private theorem classDecl_succ :
    Locates (32 * c.left.length + 1 ≤ fuel + 1 ∧ c.current.kind = .keyword .class_)
      (Parser.classDecl (fuel + 1)) c (At .stmt) := by
  rw [Parser.classDecl]
  refine .next (fun h => by simp [h.2]) fun c₁ => .expect (by decide) fun name c₂ => ?_
  refine .bind ((locates_superclassUse c₂).weaken fun _ => trivial) fun sup ts c₃ => ?_
  refine .expectMark fun left c₄ => ?_
  refine .bind ((ih.members c₄).weaken fun h => by omega) fun r us c₅ => ?_
  obtain ⟨methods, statics⟩ := r
  refine .expectMark fun right c₆ => .spanFrom (.pure fun h => ?_)
  obtain ⟨⟨⟨⟨⟨⟨⟨-, ht⟩, -⟩, ⟨hname, -⟩, -⟩, ⟨hsup, -⟩, -⟩, ⟨hleft, -⟩, -⟩, ⟨hmembers, -⟩, -⟩,
    ⟨hright, -, hlast⟩, -⟩ := h
  rw [hlast]
  refine ⟨.token ht (.token ⟨hname, rfl⟩
    (hsup.append (.token hleft (hmembers _ _ (.token hright .nil))))), ?_⟩
  exact .ends c.current right (name :: (ts ++ left :: us)) (by simp)

private theorem members_succ :
    Locates (32 * c.left.length + 2 ≤ fuel + 1) (Parser.members (fuel + 1)) c
    AtMembers := by
  rw [Parser.members]
  refine .atListEnd ?_
  split
  · exact .pure fun _ ps us h => .noMembers h
  · refine .current ?_
    split
    · rename_i ht
      refine .next (fun _ => by simp [ht]) fun c₁ => ?_
      refine .bind ((ih.funDecl _ _ c₁).weaken fun h => by omega) fun d ts c₂ => ?_
      refine .bind ((ih.members c₂).weaken fun h => by omega) fun r us c₃ =>
        .pure fun h ps vs hrest => ?_
      obtain ⟨⟨-, ⟨hd, -⟩, -⟩, ⟨hr, -⟩, -⟩ := h
      have hstatic : Stands (.static d) (c.current :: ts) := ⟨.token ht hd.1, hd.covers_cons⟩
      have hstand := StandAll.static (.cons hstatic (hr ps vs hrest))
      simpa only [List.cons_append, List.append_assoc, List.append_nil] using hstand
    · refine .bind ((ih.funDecl _ _ c).weaken fun h => by omega) fun d ts c₁ => ?_
      refine .bind ((ih.members c₁).weaken fun h => ?_) fun r us c₂ => .pure fun h ps vs hrest => ?_
      · obtain ⟨hfuel, ⟨hd, -⟩, hlen⟩ := h
        have hpos := List.length_pos_iff.2 hd.ne_nil
        omega
      · obtain ⟨⟨-, ⟨hd, hleft, -⟩, -⟩, ⟨hr, -⟩, -⟩ := h
        have hmethod : Stands (.method d) ts :=
          ⟨hd.1, hd.covers (Cursor.head?_of_left hleft hd.ne_nil)⟩
        have hstand := StandAll.method (.cons hmethod (hr ps vs hrest))
        simpa only [List.append_assoc, List.append_nil] using hstand

private theorem funDecl_succ (start : Span) (role : FunRole) :
    Locates (32 * c.left.length + 1 ≤ fuel + 1)
    (Parser.funDecl (fuel + 1) start role) c (AtFunction start) := by
  rw [Parser.funDecl]
  refine .expect (by decide) fun name c₁ => .expectMark fun left c₂ => ?_
  refine .bind ((locates_params fuel c₂).weaken fun _ => trivial) fun ps ts c₃ => ?_
  refine .expectMark fun brace c₄ => ?_
  refine .bind ((ih.blockBody c₄).weaken fun h => by omega) fun body us c₅ => ?_
  refine .spanFrom (.pure fun h => ?_)
  obtain ⟨⟨⟨⟨⟨-, ⟨hname, -⟩, -⟩, ⟨hleft, -⟩, -⟩, ⟨hps, -⟩, -⟩, ⟨hbrace, -⟩, -⟩,
    ⟨hbody, -, hlast⟩, -⟩ := h
  rw [List.append_nil]
  refine ⟨.token ⟨hname, rfl⟩ (standAll_callable hleft hps hbrace hbody), c₅.previous, ?_, rfl⟩
  have hend := getLast?_of_ne_nil hbody.ne_nil_of_body c₄.previous
  rw [hlast]
  simp [List.getLast?_cons, List.getLast?_append, hend]

private theorem varDecl_succ :
    Locates (32 * c.left.length + 1 ≤ fuel + 1 ∧ c.current.kind = .keyword .var_)
      (Parser.varDecl (fuel + 1)) c (At .stmt) := by
  rw [Parser.varDecl]
  refine .next (fun h => by simp [h.2]) fun c₁ => .expect (by decide) fun name c₂ => ?_
  refine .bind ((ih.initializer c₂).weaken fun h => by omega) fun init ts c₃ => ?_
  refine .expectMark fun semicolon c₄ => .spanFrom (.pure fun h => ?_)
  obtain ⟨⟨⟨⟨⟨-, ht⟩, -⟩, ⟨hname, -⟩, -⟩, ⟨hinit, -⟩, -⟩, ⟨hsemicolon, -, hlast⟩, -⟩ := h
  rw [hlast]
  exact ⟨.token ht (.token ⟨hname, rfl⟩ (hinit.append (.token hsemicolon .nil))),
    .ends c.current semicolon (name :: ts) rfl⟩

private theorem initializer_succ : Locates (32 * c.left.length + 17 ≤ fuel + 1)
    (Parser.initializer (fuel + 1)) c (Takes Piece.initial) := by
  rw [Parser.initializer]
  refine .accept (by decide) (fun c₁ => ?_) (.pure fun _ => .nil)
  exact .map ((ih.expression c₁).weaken fun h => by omega) fun e ts h he =>
    .token h.2.1.1 (.single he)

private theorem expressionUnless_succ (mark : Mark) : Locates (32 * c.left.length + 17 ≤ fuel + 1)
    (Parser.expressionUnless (fuel + 1) mark) c (Takes Piece.clause) := by
  rw [Parser.expressionUnless]
  refine .peek ?_
  split
  · exact .pure fun _ => .nil
  · exact .map ((ih.expression c).weaken fun h => by omega) fun e ts _ he => .single he

private theorem exprStmt_succ :
    Locates (32 * c.left.length + 17 ≤ fuel + 1) (Parser.exprStmt (fuel + 1)) c
    (At .stmt) := by
  rw [Parser.exprStmt]
  refine .current (.bind ((ih.expression c).weaken fun h => by omega) fun e ts c₁ => ?_)
  refine .expectMark fun semicolon c₂ => .spanFrom (.pure fun h => ?_)
  obtain ⟨⟨-, ⟨he, hleft, -⟩, -⟩, ⟨hsemicolon, -, hlast⟩, -⟩ := h
  rw [hlast]
  have hhead := Cursor.head?_of_left hleft he.covers.ne_nil
  exact ⟨.cons he (.token hsemicolon .nil), c.current, semicolon, by simp [hhead], by simp, rfl⟩

private theorem statement_succ : Locates (32 * c.left.length + 18 ≤ fuel + 1)
    (Parser.statement (fuel + 1)) c (At .stmt) := by
  rw [Parser.statement]
  refine .current ?_
  split <;> rename_i ht
  · exact (ih.forStmt c).weaken fun h => ⟨by omega, ht⟩
  · exact (ih.ifStmt c).weaken fun h => ⟨by omega, ht⟩
  · refine .next (fun _ => by simp [ht]) fun c₁ => ?_
    refine .bind ((ih.expression c₁).weaken fun h => by omega) fun e ts c₂ => ?_
    refine .expectMark fun semicolon c₃ => .spanFrom (.pure fun h => ?_)
    obtain ⟨⟨-, ⟨he, -⟩, -⟩, ⟨hsemicolon, -, hlast⟩, -⟩ := h
    rw [hlast]
    exact ⟨.token ht (.cons he (.token hsemicolon .nil)), .ends c.current semicolon ts rfl⟩
  · refine .next (fun _ => by simp [ht]) fun c₁ => ?_
    refine .bind ((ih.expressionUnless _ c₁).weaken fun h => by omega) fun e ts c₂ => ?_
    refine .expectMark fun semicolon c₃ => .spanFrom (.pure fun h => ?_)
    obtain ⟨⟨-, ⟨he, -⟩, -⟩, ⟨hsemicolon, -, hlast⟩, -⟩ := h
    rw [hlast]
    exact ⟨.token ht (he.append (.token hsemicolon .nil)), .ends c.current semicolon ts rfl⟩
  · exact (ih.whileStmt c).weaken fun h => ⟨by omega, ht⟩
  · refine .next (fun _ => by simp [ht]) fun c₁ => .expectMark fun semicolon c₂ => ?_
    refine .spanFrom (.pure fun h => ?_)
    obtain ⟨-, ⟨hsemicolon, -, hlast⟩, -⟩ := h
    rw [hlast]
    exact ⟨.token ht (.token hsemicolon .nil), .ends c.current semicolon [] rfl⟩
  · refine .next (fun _ => by simp [ht]) fun c₁ => ?_
    refine .bind ((ih.blockBody c₁).weaken fun h => by omega) fun body ts c₂ => ?_
    refine .spanFrom (.pure fun h => ?_)
    obtain ⟨-, ⟨hbody, -, hlast⟩, -⟩ := h
    rw [List.append_nil, hlast]
    exact ⟨.token ht hbody, .through c.current c₁.previous [] hbody.ne_nil_of_body rfl⟩
  · exact (ih.exprStmt c).weaken fun h => by omega

private theorem forInit_succ :
    Locates (32 * c.left.length + 18 ≤ fuel + 1) (Parser.forInit (fuel + 1)) c
    (Takes Piece.loopInitial) := by
  rw [Parser.forInit]
  refine .peek ?_
  split <;> rename_i ht
  · exact .next (fun _ => by simp [ht]) fun c₁ => .pure fun _ => .token ht .nil
  · exact .map ((ih.varDecl c).weaken fun h => ⟨by omega, ht⟩) fun b ts _ h => .single h
  · exact .map ((ih.exprStmt c).weaken fun h => by omega) fun b ts _ h => .single h

private theorem forStmt_succ :
    Locates (32 * c.left.length + 1 ≤ fuel + 1 ∧ c.current.kind = .keyword .for_)
      (Parser.forStmt (fuel + 1)) c (At .stmt) := by
  rw [Parser.forStmt]
  refine .next (fun h => by simp [h.2]) fun c₁ => .expectMark fun left c₂ => ?_
  refine .bind ((ih.forInit c₂).weaken fun h => by omega) fun init ts c₃ => ?_
  refine .bind ((ih.expressionUnless _ c₃).weaken fun h => by omega) fun condition us c₄ => ?_
  refine .expectMark fun semicolon c₅ => ?_
  refine .bind ((ih.expressionUnless _ c₅).weaken fun h => by omega) fun step vs c₆ => ?_
  refine .expectMark fun right c₇ => ?_
  refine .bind ((ih.statement c₇).weaken fun h => by omega) fun body ws c₈ => ?_
  refine .spanFrom (.pure fun h => ?_)
  obtain ⟨⟨⟨⟨⟨⟨⟨⟨⟨-, ht⟩, -⟩, ⟨hleft, -⟩, -⟩, ⟨hinit, -⟩, -⟩, ⟨hcond, -⟩, -⟩, ⟨hsemi, -⟩, -⟩,
    ⟨hstep, -⟩, -⟩, ⟨hright, -⟩, -⟩, ⟨hbody, -, hlast⟩, -⟩ := h
  rw [List.append_nil, hlast]
  refine ⟨.token ht (.token hleft (hinit.append (hcond.append (.token hsemi
    (hstep.append (.token hright (.single hbody))))))), ?_⟩
  exact .through c.current c₇.previous
    (left :: (ts ++ us ++ semicolon :: (vs ++ [right]))) hbody.covers.ne_nil (by simp)

private theorem ifStmt_succ :
    Locates (32 * c.left.length + 1 ≤ fuel + 1 ∧ c.current.kind = .keyword .if_)
      (Parser.ifStmt (fuel + 1)) c (At .stmt) := by
  rw [Parser.ifStmt]
  refine .next (fun h => by simp [h.2]) fun c₁ => .expectMark fun left c₂ => ?_
  refine .bind ((ih.expression c₂).weaken fun h => by omega) fun condition ts c₃ => ?_
  refine .expectMark fun right c₄ => ?_
  refine .bind ((ih.statement c₄).weaken fun h => by omega) fun yes us c₅ => ?_
  refine .accept (by decide) (fun c₆ => ?_) (.spanFrom (.pure fun h => ?_))
  · refine .bind ((ih.statement c₆).weaken fun h => by omega) fun no vs c₇ => ?_
    refine .spanFrom (.pure fun h => ?_)
    obtain ⟨⟨⟨⟨⟨⟨⟨⟨-, ht⟩, -⟩, ⟨hleft, -⟩, -⟩, ⟨hcond, -⟩, -⟩, ⟨hright, -⟩, -⟩, ⟨hyes, -⟩, -⟩,
      ⟨helse, -⟩, -⟩, ⟨hno, -, hlast⟩, -⟩ := h
    rw [List.append_nil, hlast]
    refine ⟨.token ht (.token hleft (.cons hcond (.token hright (.cons hyes
      (.token helse (.single hno)))))), ?_⟩
    exact .through c.current c₆.previous
      (left :: (ts ++ right :: (us ++ [c₅.current]))) hno.covers.ne_nil (by simp)
  · obtain ⟨⟨⟨⟨⟨⟨-, ht⟩, -⟩, ⟨hleft, -⟩, -⟩, ⟨hcond, -⟩, -⟩, ⟨hright, -⟩, -⟩,
      ⟨hyes, -, hlast⟩, -⟩ := h
    rw [List.append_nil, hlast]
    refine ⟨.token ht (.token hleft (.cons hcond (.token hright (.single hyes)))), ?_⟩
    exact .through c.current c₄.previous (left :: (ts ++ [right]))
      hyes.covers.ne_nil (by simp)

private theorem whileStmt_succ :
    Locates (32 * c.left.length + 1 ≤ fuel + 1 ∧ c.current.kind = .keyword .while_)
      (Parser.whileStmt (fuel + 1)) c (At .stmt) := by
  rw [Parser.whileStmt]
  refine .next (fun h => by simp [h.2]) fun c₁ => .expectMark fun left c₂ => ?_
  refine .bind ((ih.expression c₂).weaken fun h => by omega) fun condition ts c₃ => ?_
  refine .expectMark fun right c₄ => ?_
  refine .bind ((ih.statement c₄).weaken fun h => by omega) fun body us c₅ => ?_
  refine .spanFrom (.pure fun h => ?_)
  obtain ⟨⟨⟨⟨⟨⟨-, ht⟩, -⟩, ⟨hleft, -⟩, -⟩, ⟨hcond, -⟩, -⟩, ⟨hright, -⟩, -⟩,
    ⟨hbody, -, hlast⟩, -⟩ := h
  rw [List.append_nil, hlast]
  refine ⟨.token ht (.token hleft (.cons hcond (.token hright (.single hbody)))), ?_⟩
  exact .through c.current c₄.previous (left :: (ts ++ [right]))
    hbody.covers.ne_nil (by simp)

omit c in
private theorem succ : LocatesAt (fuel + 1) where
  expression c := ih.expression_succ c
  conditional c := ih.conditional_succ c
  chain tier c := ih.chain_succ c tier
  chainAfter tier left before c := ih.chainAfter_succ c tier left before
  operand tier c := ih.operand_succ c tier
  unary c := ih.unary_succ c
  callAfter head before c := ih.callAfter_succ c head before
  arguments c := ih.arguments_succ c
  argumentsFrom count c := ih.argumentsFrom_succ c count
  primary c := ih.primary_succ c
  blockBody c := ih.blockBody_succ c
  declarations closing c := ih.declarations_succ c closing
  declaration c := ih.declaration_succ c
  classDecl c := ih.classDecl_succ c
  members c := ih.members_succ c
  funDecl start role c := ih.funDecl_succ c start role
  varDecl c := ih.varDecl_succ c
  initializer c := ih.initializer_succ c
  statement c := ih.statement_succ c
  expressionUnless mark c := ih.expressionUnless_succ c mark
  exprStmt c := ih.exprStmt_succ c
  forStmt c := ih.forStmt_succ c
  forInit c := ih.forInit_succ c
  ifStmt c := ih.ifStmt_succ c
  whileStmt c := ih.whileStmt_succ c

end LocatesAt

theorem locatesAt (fuel : Nat) : LocatesAt fuel := by
  induction fuel with
  | zero => exact locatesAt_zero
  | succ fuel ih => exact ih.succ

end Grammar
end Lox
