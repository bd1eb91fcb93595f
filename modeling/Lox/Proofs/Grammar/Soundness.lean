import Lox.Proofs.Grammar.Basic
import Lox.Proofs.Grammar.Reader

set_option autoImplicit false
set_option relaxedAutoImplicit false

namespace Lox

namespace Grammar

open Lox.Parser

theorem sound_paramsFrom (fuel count : Nat) (c : Cursor) :
    Sound (c.left.length ≤ fuel) (paramsFrom fuel count) c fun ps ts _ =>
      IsParamList ts ps ∧ count + ps.length ≤ maxArgs := by
  induction fuel generalizing count c with
  | zero => exact .fail (by simp [Cursor.left])
  | succ fuel ih =>
    rw [paramsFrom]
    refine .noteIf fun c₁ => .expect (by decide) fun name c₂ => ?_
    refine .accept (by decide) (fun c₃ => ?_) (.expectMark fun close c₃ => ?_)
    · refine .map ((ih (count + 1) c₃).weaken fun h => ?_) fun ps ts _ h hps => ?_
      · obtain ⟨⟨⟨hfuel, -, rfl⟩, -, h₂⟩, -, h₃⟩ := h
        omega
      · obtain ⟨⟨-, hname, -⟩, hcomma, -⟩ := h
        exact ⟨.more hname hcomma hps.1, by rw [List.length_cons]; omega⟩
    · refine .pure fun h => ?_
      obtain ⟨⟨⟨⟨-, hcount, -⟩, hname, -⟩, -⟩, hclose, -⟩ := h
      exact ⟨.last hname hclose, by rw [List.length_singleton]; omega⟩


theorem sound_params (fuel : Nat) (c : Cursor) :
    Sound (c.left.length ≤ fuel) (params fuel) c fun ps ts _ =>
      ∀ left : Token, left.kind = .mark .leftParen → IsParams (left :: ts) ps := by
  rw [params]
  refine .accept (by decide) (fun c₁ => .pure fun h left hl => ?_) ?_
  · exact .none hl h.2.1
  · refine ((sound_paramsFrom fuel 0 c).weaken fun h => h.1).imp fun ps ts _ h left hl => ?_
    exact .some hl h.1 (by omega)

theorem sound_superclassUse (c : Cursor) :
    Sound True superclassUse c fun sup ts _ => IsSuperclass ts sup := by
  rw [superclassUse]
  refine .accept (by decide)
    (fun c₁ => .expect (by decide) fun name c₂ => ?_) (.pure fun _ => .none)
  exact .pure fun h => .some h.1.2.1 h.2.1

theorem Derives.of_name {sym : Sym} {ts : List Token} {use : NameUse}
    (h : Derives sym ts (.expr (.name use))) :
    ∃ t, ts = [t] ∧ t.kind = .name ∧ use.name = t.text ∧ use.hops = none := by
  generalize hn : Node.expr (.name use) = n at h
  induction h with
  | name ht =>
    cases hn
    exact ⟨_, rfl, ht, rfl, rfl⟩
  | simple _ ih | plain _ ih | operand _ ih | called _ ih | head _ ih => exact ih hn
  | @chain _ _ op => cases op <;> cases hn
  | _ => cases hn

theorem Derives.of_get {sym : Sym} {ts : List Token} {s : Span} {object : Expr} {name : Text}
    (h : Derives sym ts (.expr (.get s object name))) :
    ∃ us dot t, ts = us ++ [dot, t] ∧ Derives .call us (.expr object) ∧ dot.kind = .mark .dot ∧
      t.kind = .name ∧ name = t.text := by
  generalize hn : Node.expr (.get s object name) = n at h
  induction h with
  | get ho hd ht =>
    cases hn
    exact ⟨_, _, _, rfl, ho, hd, ht, rfl⟩
  | simple _ ih | plain _ ih | operand _ ih | called _ ih | head _ ih => exact ih hn
  | @chain _ _ op => cases op <;> cases hn
  | _ => cases hn

def Yields {α : Type} (sym : Sym) (node : α → Node) (a : α) (ts : List Token) (_ : Cursor) : Prop :=
  Derives sym ts (node a)

/-- A derivation of a statement, after which an `else` stands only where it cannot belong to it. -/
def YieldsStmt (s : Stmt) (ts : List Token) (c : Cursor) : Prop :=
  Derives .statement ts (.stmt s) ∧ (s.endsOpen = true → c.current.kind ≠ .keyword .else_)

structure SoundAt (fuel : Nat) : Prop where
  expression (c : Cursor) : Sound (32 * c.left.length + 16 ≤ fuel) (Parser.expression fuel) c
    (Yields .expression .expr)
  conditional (c : Cursor) : Sound (32 * c.left.length + 15 ≤ fuel) (Parser.conditional fuel) c
    (Yields .conditional .expr)
  chain (tier : Tier) (c : Cursor) : Sound (32 * c.left.length + tierDepth tier ≤ fuel)
    (Parser.chain fuel tier) c (Yields (.tier tier) .expr)
  chainAfter (tier : Tier) (left : Expr) (before : List Token) (c : Cursor) :
    Sound (32 * c.left.length + 1 ≤ fuel ∧ Derives (.tier tier) before (.expr left))
      (Parser.chainAfter fuel tier left) c fun e ts => Yields (.tier tier) .expr e (before ++ ts)
  operand (tier : Tier) (c : Cursor) : Sound (32 * c.left.length + tierDepth tier ≤ fuel + 1)
    (Parser.operand fuel tier) c (Yields (operandOf tier) .expr)
  unary (c : Cursor) : Sound (32 * c.left.length + 2 ≤ fuel) (Parser.unary fuel) c
    (Yields .unary .expr)
  callAfter (head : Expr) (before : List Token) (c : Cursor) :
    Sound (32 * c.left.length + 1 ≤ fuel ∧ Derives .call before (.expr head))
      (Parser.callAfter fuel head) c fun e ts => Yields .call .expr e (before ++ ts)
  arguments (c : Cursor) : Sound (32 * c.left.length + 18 ≤ fuel) (Parser.arguments fuel) c
    fun r ts _ => Derives .arguments ts (.exprs r.1) ∧ r.1.length ≤ maxArgs
  argumentsFrom (count : Nat) (c : Cursor) :
    Sound (32 * c.left.length + 17 ≤ fuel) (Parser.argumentsFrom fuel count) c
      fun r ts _ => Derives .argumentList ts (.exprs r.1) ∧ count + r.1.length ≤ maxArgs
  primary (c : Cursor) : Sound (32 * c.left.length + 1 ≤ fuel) (Parser.primary fuel) c
    (Yields .primary .expr)
  blockBody (c : Cursor) : Sound (32 * c.left.length + 21 ≤ fuel) (Parser.blockBody fuel) c
    fun body ts _ => ∀ left : Token, left.kind = .mark .leftBrace →
      Derives .block (left :: ts) (.stmts body)
  declarations (closing : Option Mark) (c : Cursor) :
    Sound (32 * c.left.length + 20 ≤ fuel) (Parser.declarations fuel closing) c
      fun body ts c' => Derives .declarations ts (.stmts body) ∧
        (closing = none → c'.current.kind = .eof)
  declaration (c : Cursor) : Sound (32 * c.left.length + 19 ≤ fuel) (Parser.declaration fuel) c
    (Yields .declaration .stmt)
  classDecl (c : Cursor) :
    Sound (32 * c.left.length + 1 ≤ fuel ∧ c.current.kind = .keyword .class_)
      (Parser.classDecl fuel) c (Yields .declaration .stmt)
  members (c : Cursor) : Sound (32 * c.left.length + 2 ≤ fuel) (Parser.members fuel) c
    (Yields .members fun r => .members r.1 r.2)
  funDecl (start : Span) (role : FunRole) (c : Cursor) :
    Sound (32 * c.left.length + 1 ≤ fuel) (Parser.funDecl fuel start role) c
      (Yields .function .function)
  varDecl (c : Cursor) :
    Sound (32 * c.left.length + 1 ≤ fuel ∧ c.current.kind = .keyword .var_)
      (Parser.varDecl fuel) c (Yields .variable_ .stmt)
  initializer (c : Cursor) : Sound (32 * c.left.length + 17 ≤ fuel) (Parser.initializer fuel) c
    fun init ts _ => ∀ t name semicolon : Token, ∀ s : Span, t.kind = .keyword .var_ →
      name.kind = .name → semicolon.kind = .mark .semicolon →
      Derives .variable_ (t :: name :: (ts ++ [semicolon])) (.stmt (.varDecl s name.text init))
  statement (c : Cursor) : Sound (32 * c.left.length + 18 ≤ fuel) (Parser.statement fuel) c
    YieldsStmt
  expressionUnless (mark : Mark) (c : Cursor) :
    Sound (32 * c.left.length + 17 ≤ fuel) (Parser.expressionUnless fuel mark) c
      (Yields .clause .clause)
  exprStmt (c : Cursor) : Sound (32 * c.left.length + 17 ≤ fuel) (Parser.exprStmt fuel) c
    fun b ts _ => ∃ e s us semicolon, b = .exprStmt s e ∧ ts = us ++ [semicolon] ∧
      Derives .expression us (.expr e) ∧ semicolon.kind = .mark .semicolon
  forStmt (c : Cursor) :
    Sound (32 * c.left.length + 1 ≤ fuel ∧ c.current.kind = .keyword .for_)
      (Parser.forStmt fuel) c YieldsStmt
  forInit (c : Cursor) : Sound (32 * c.left.length + 18 ≤ fuel) (Parser.forInit fuel) c
    (Yields .forInit .init)
  ifStmt (c : Cursor) :
    Sound (32 * c.left.length + 1 ≤ fuel ∧ c.current.kind = .keyword .if_)
      (Parser.ifStmt fuel) c YieldsStmt
  whileStmt (c : Cursor) :
    Sound (32 * c.left.length + 1 ≤ fuel ∧ c.current.kind = .keyword .while_)
      (Parser.whileStmt fuel) c YieldsStmt

private theorem soundAt_zero : SoundAt 0 := by
  constructor <;> intros <;> refine .fail fun h => ?_
  all_goals
    have hpos : 0 < (Cursor.left ‹Cursor›).length := Nat.succ_pos _
    omega

namespace SoundAt

variable {fuel : Nat} (ih : SoundAt fuel) (c : Cursor)
include ih

private theorem expression_succ :
    Sound (32 * c.left.length + 16 ≤ fuel + 1) (Parser.expression (fuel + 1))
    c (Yields .expression .expr) := by
  rw [Parser.expression]
  refine .bind ((ih.conditional c).weaken fun h => by omega) fun left ts c₁ => .peek ?_
  split
  · rename_i hequal
    refine .next (fun _ => by simp [hequal]) fun c₂ => ?_
    refine .bind ((ih.expression c₂).weaken fun h => by omega) fun value us c₃ => ?_
    -- Only a name and a property can be assigned to; of others a fault is noted.
    split
    · refine .pure fun h => ?_
      obtain ⟨⟨⟨-, hleft, -⟩, -⟩, hvalue, -⟩ := h
      obtain ⟨t, rfl, ht, hname, hhops⟩ := Derives.of_name hleft
      rename_i use
      obtain ⟨s, name, hops⟩ := use
      cases hname
      cases hhops
      simpa [Yields] using Derives.assignName ht hequal hvalue
    · refine .pure fun h => ?_
      obtain ⟨⟨⟨-, hleft, -⟩, -⟩, hvalue, -⟩ := h
      obtain ⟨vs, dot, t, rfl, hobject, hdot, ht, rfl⟩ := Derives.of_get hleft
      simpa [Yields] using Derives.assignField hobject hdot ht hequal hvalue
    · exact .note fun c₄ => .pure False.elim
  · refine .pure fun h => ?_
    simpa [Yields] using Derives.simple h.2.1

private theorem conditional_succ : Sound (32 * c.left.length + 15 ≤ fuel + 1)
    (Parser.conditional (fuel + 1)) c (Yields .conditional .expr) := by
  rw [Parser.conditional]
  refine .bind ((ih.chain .or c).weaken fun h => by rw [tierDepth]; omega) fun condition ts c₁ => ?_
  refine .accept (by decide) (fun c₂ => ?_) (.pure fun h => ?_)
  · refine .bind ((ih.expression c₂).weaken fun h => by omega) fun yes us c₃ => ?_
    refine .expectMark fun colon c₄ => ?_
    refine .map ((ih.conditional c₄).weaken fun h => by omega) fun no vs c₅ h hno => ?_
    obtain ⟨⟨⟨⟨-, hcond, -⟩, hquestion, -⟩, hyes, -⟩, hcolon, -⟩ := h
    exact Derives.choice hcond hquestion hyes hcolon hno
  · simpa [Yields] using Derives.plain h.1.2.1

private theorem chain_succ (tier : Tier) : Sound (32 * c.left.length + tierDepth tier ≤ fuel + 1)
    (Parser.chain (fuel + 1) tier) c (Yields (.tier tier) .expr) := by
  rw [Parser.chain]
  refine .bind ((ih.operand tier c).weaken id) fun left ts c₁ => ?_
  refine (ih.chainAfter tier left ts c₁).weaken fun h => ?_
  have hpos : 1 < tierDepth tier := by cases tier <;> decide
  exact ⟨by omega, .operand h.2.1⟩

private theorem chainAfter_succ (tier : Tier) (left : Expr) (before : List Token) :
    Sound (32 * c.left.length + 1 ≤ fuel + 1 ∧ Derives (.tier tier) before (.expr left))
      (Parser.chainAfter (fuel + 1) tier left) c
      fun e ts => Yields (.tier tier) .expr e (before ++ ts) := by
  rw [Parser.chainAfter]
  refine .peek ?_
  split
  · exact .pure fun h => by simpa [Yields] using h.2
  · rename_i op hop
    have hop := isOperator_of_operator? hop
    refine .next (fun _ heof => ?_) fun c₁ => ?_
    · rw [heof] at hop
      cases hop
    · refine .bind ((ih.operand tier c₁).weaken fun h => ?_) fun right us c₂ => ?_
      · have : tierDepth tier ≤ 14 := by cases tier <;> decide
        omega
      · have hnext := ih.chainAfter tier (op.apply left right) (before ++ c.current :: us) c₂
        refine (hnext.weaken fun h => ?_).imp fun e vs c₃ h => by simpa [Yields] using h
        rw [apply_eq_combine]
        exact ⟨by omega, .chain h.1.1.2 hop h.2.1⟩

private theorem operand_succ (tier : Tier) :
    Sound (32 * c.left.length + tierDepth tier ≤ fuel + 1 + 1)
    (Parser.operand (fuel + 1) tier) c (Yields (operandOf tier) .expr) := by
  rw [Parser.operand]
  cases tier
  case factor => exact (ih.unary c).weaken fun h => by rw [tierDepth] at h; omega
  all_goals exact (ih.chain _ c).weaken fun h => by simp only [tierDepth] at h ⊢; omega

private theorem unary_succ : Sound (32 * c.left.length + 2 ≤ fuel + 1) (Parser.unary (fuel + 1)) c
    (Yields .unary .expr) := by
  rw [Parser.unary]
  refine .current ?_
  split
  · rename_i hbang
    refine .next (fun _ => by simp [hbang]) fun c₁ => ?_
    refine .map ((ih.unary c₁).weaken fun h => by omega) fun e ts c₂ h he => ?_
    exact Derives.not hbang he
  · rename_i hminus
    refine .next (fun _ => by simp [hminus]) fun c₁ => ?_
    refine .map ((ih.unary c₁).weaken fun h => by omega) fun e ts c₂ h he => ?_
    exact Derives.negate hminus he
  · refine .bind ((ih.primary c).weaken fun h => by omega) fun head ts c₁ => ?_
    refine ((ih.callAfter head ts c₁).weaken fun h => ?_).imp fun e us c₂ h => Derives.called h
    exact ⟨by omega, .head h.2.1⟩

private theorem callAfter_succ (head : Expr) (before : List Token) :
    Sound (32 * c.left.length + 1 ≤ fuel + 1 ∧ Derives .call before (.expr head))
      (Parser.callAfter (fuel + 1) head) c fun e ts => Yields .call .expr e (before ++ ts) := by
  rw [Parser.callAfter]
  refine .peek ?_
  split
  · rename_i hparen
    refine .next (fun _ => by simp [hparen]) fun c₁ => ?_
    refine .bind ((ih.arguments c₁).weaken fun h => by omega) fun r us c₂ => ?_
    obtain ⟨args, stop⟩ := r
    have hnext := ih.callAfter (.call (head.span.cover stop.span) head args)
      (before ++ c.current :: us) c₂
    refine (hnext.weaken fun h => ?_).imp fun e vs c₃ h => by simpa [Yields] using h
    exact ⟨by omega, .apply h.1.1.2 hparen h.2.1.1 h.2.1.2⟩
  · rename_i hdot
    refine .next (fun _ => by simp [hdot]) fun c₁ => .expect (by decide) fun name c₂ => ?_
    have hnext := ih.callAfter (.get (head.span.cover name.span) head name.text)
      (before ++ [c.current, name]) c₂
    refine (hnext.weaken fun h => ?_).imp fun e vs c₃ h => by simpa [Yields] using h
    exact ⟨by omega, .get h.1.1.2 hdot h.2.1⟩
  · exact .pure fun h => by simpa [Yields] using h.2

private theorem arguments_succ :
    Sound (32 * c.left.length + 18 ≤ fuel + 1) (Parser.arguments (fuel + 1)) c
    fun r ts _ => Derives .arguments ts (.exprs r.1) ∧ r.1.length ≤ maxArgs := by
  rw [Parser.arguments]
  refine .peek ?_
  split
  · rename_i hright
    refine .next (fun _ => by simp [hright]) fun c₁ => .pure fun _ => ?_
    exact ⟨.noArguments hright, Nat.zero_le _⟩
  · refine ((ih.argumentsFrom 0 c).weaken fun h => by omega).imp fun r ts c₁ h => ?_
    exact ⟨.someArguments h.1, by omega⟩

private theorem argumentsFrom_succ (count : Nat) : Sound (32 * c.left.length + 17 ≤ fuel + 1)
    (Parser.argumentsFrom (fuel + 1) count) c
    fun r ts _ => Derives .argumentList ts (.exprs r.1) ∧ count + r.1.length ≤ maxArgs := by
  rw [Parser.argumentsFrom]
  refine .noteIf fun c₁ => ?_
  refine .bind ((ih.expression c₁).weaken fun h => by rw [h.2.2]; omega) fun arg ts c₂ => ?_
  refine .accept (by decide) (fun c₃ => ?_) (.expectMark fun right c₃ => .pure fun h => ?_)
  · refine .bind ((ih.argumentsFrom (count + 1) c₃).weaken fun h => ?_) fun r us c₄ => ?_
    · obtain ⟨⟨⟨hfuel, -, rfl⟩, -, h₂⟩, -, h₃⟩ := h
      omega
    · obtain ⟨args, stop⟩ := r
      refine .pure fun h => ?_
      obtain ⟨⟨⟨-, harg, -⟩, hcomma, -⟩, hargs, -⟩ := h
      have hcount := hargs.2
      exact ⟨by simpa using Derives.moreArguments harg hcomma hargs.1,
        by simp only [List.length_cons] at hcount ⊢; omega⟩
  · obtain ⟨⟨⟨⟨-, hcount, -⟩, harg, -⟩, -⟩, hright, -⟩ := h
    exact ⟨.lastArgument harg hright, by rw [List.length_singleton]; omega⟩

private theorem primary_succ :
    Sound (32 * c.left.length + 1 ≤ fuel + 1) (Parser.primary (fuel + 1)) c
    (Yields .primary .expr) := by
  rw [Parser.primary]
  refine .current ?_
  split <;> rename_i ht
  · exact .next (fun _ => by simp [ht]) fun c₁ => .pure fun _ => Derives.false_ ht
  · exact .next (fun _ => by simp [ht]) fun c₁ => .pure fun _ => Derives.true_ ht
  · exact .next (fun _ => by simp [ht]) fun c₁ => .pure fun _ => Derives.nil_ ht
  · refine .next (fun _ => by simp [ht]) fun c₁ => ?_
    split
    · rename_i x hx
      exact .pure fun _ => Derives.number ht hx
    · exact .note fun c₂ => .fail id
  · exact .next (fun _ => by simp [ht]) fun c₁ => .pure fun _ => Derives.string ht
  · exact .next (fun _ => by simp [ht]) fun c₁ => .pure fun _ => Derives.this ht
  · refine .next (fun _ => by simp [ht]) fun c₁ => .expectMark fun dot c₂ => ?_
    refine .expect (by decide) fun name c₃ => .pure fun h => ?_
    exact Derives.super ht h.1.2.1 h.2.1
  · exact .next (fun _ => by simp [ht]) fun c₁ => .pure fun _ => Derives.name ht
  · refine .next (fun _ => by simp [ht]) fun c₁ => .expectMark fun left c₂ => ?_
    refine .bind ((sound_params fuel c₂).weaken fun h => by omega) fun ps ts c₃ => ?_
    refine .expectMark fun brace c₄ => ?_
    refine .bind ((ih.blockBody c₄).weaken fun h => by omega) fun body us c₅ => ?_
    refine .spanFrom fun s => .pure fun h => ?_
    obtain ⟨⟨⟨⟨-, hleft, -⟩, hps, -⟩, hbrace, -⟩, hbody, -⟩ := h
    simpa [Yields] using Derives.lambda ht (hps left hleft) (hbody brace hbrace)
  · refine .next (fun _ => by simp [ht]) fun c₁ => ?_
    refine .bind ((ih.expression c₁).weaken fun h => by omega) fun e ts c₂ => ?_
    refine .expectMark fun right c₃ => .spanFrom fun s => .pure fun h => ?_
    exact Derives.group ht h.1.2.1 h.2.1
  · exact .note fun c₁ => .fail id

private theorem blockBody_succ :
    Sound (32 * c.left.length + 21 ≤ fuel + 1) (Parser.blockBody (fuel + 1)) c
    fun body ts _ => ∀ left : Token, left.kind = .mark .leftBrace →
      Derives .block (left :: ts) (.stmts body) := by
  rw [Parser.blockBody]
  refine .bind ((ih.declarations _ c).weaken fun h => by omega) fun body ts c₁ => ?_
  refine .expectMark fun right c₂ => .pure fun h left hleft => ?_
  exact Derives.block hleft h.1.2.1.1 h.2.1

private theorem declarations_succ (closing : Option Mark) :
    Sound (32 * c.left.length + 20 ≤ fuel + 1)
    (Parser.declarations (fuel + 1) closing) c fun body ts c' =>
      Derives .declarations ts (.stmts body) ∧ (closing = none → c'.current.kind = .eof) := by
  rw [Parser.declarations]
  refine .atListEnd ?_
  split
  · rename_i hend
    refine .pure fun _ => ⟨.noDeclarations, fun hnone => ?_⟩
    subst hnone
    simpa [Cursor.atEnd] using hend
  · refine .bind (.recover ((ih.declaration c).weaken fun h => by omega)) fun first ts c₁ => ?_
    refine .map ((ih.declarations closing c₁).weaken fun h => ?_) fun others us c₂ h hothers => ?_
    · obtain ⟨hfuel, ⟨b, -, hb⟩, hlen⟩ := h
      obtain ⟨t, vs, rfl, -⟩ := hb.starts (by decide)
      rw [List.length_cons] at hlen
      omega
    · obtain ⟨-, ⟨b, rfl, hb⟩, -⟩ := h
      exact ⟨.moreDeclarations hb hothers.1, hothers.2⟩

private theorem declaration_succ : Sound (32 * c.left.length + 19 ≤ fuel + 1)
    (Parser.declaration (fuel + 1)) c (Yields .declaration .stmt) := by
  rw [Parser.declaration]
  have hstatement : Sound (32 * c.left.length + 19 ≤ fuel + 1) (Parser.statement fuel) c
      (Yields .declaration .stmt) :=
    ((ih.statement c).weaken fun h => by omega).imp fun b ts c₁ h => Derives.statement h.1
  refine .peek ?_
  split <;> rename_i ht
  · exact (ih.classDecl c).weaken fun h => ⟨by omega, ht⟩
  · refine .peekSecond ?_
    split
    · refine .next (fun _ => by simp [ht]) fun c₁ => ?_
      refine .map ((ih.funDecl _ _ c₁).weaken fun h => by omega) fun d ts c₂ h hd => ?_
      exact Derives.funDecl ht hd
    · exact hstatement
  · refine ((ih.varDecl c).weaken fun h => ⟨by omega, ht⟩).imp fun b ts c₁ h => Derives.varDecl h
  · exact hstatement

private theorem classDecl_succ :
    Sound (32 * c.left.length + 1 ≤ fuel + 1 ∧ c.current.kind = .keyword .class_)
      (Parser.classDecl (fuel + 1)) c (Yields .declaration .stmt) := by
  rw [Parser.classDecl]
  refine .next (fun h => by simp [h.2]) fun c₁ => .expect (by decide) fun name c₂ => ?_
  refine .bind ((sound_superclassUse c₂).weaken fun _ => trivial) fun sup ts c₃ => ?_
  refine .expectMark fun left c₄ => ?_
  refine .bind ((ih.members c₄).weaken fun h => by omega) fun r us c₅ => ?_
  obtain ⟨methods, statics⟩ := r
  refine .expectMark fun right c₆ => .spanFrom fun s => .pure fun h => ?_
  obtain ⟨⟨⟨⟨⟨⟨⟨-, ht⟩, -⟩, hname, -⟩, hsup, -⟩, hleft, -⟩, hmembers, -⟩, hright, -⟩ := h
  exact Derives.classDecl ht hname hsup hleft hmembers hright

private theorem members_succ :
    Sound (32 * c.left.length + 2 ≤ fuel + 1) (Parser.members (fuel + 1)) c
    (Yields .members fun r => .members r.1 r.2) := by
  rw [Parser.members]
  refine .atListEnd ?_
  split
  · exact .pure fun _ => Derives.noMembers
  · refine .current ?_
    split
    · rename_i ht
      refine .next (fun _ => by simp [ht]) fun c₁ => ?_
      refine .bind ((ih.funDecl _ _ c₁).weaken fun h => by omega) fun d ts c₂ => ?_
      refine .bind ((ih.members c₂).weaken fun h => by omega) fun r us c₃ => ?_
      obtain ⟨methods, statics⟩ := r
      refine .pure fun h => ?_
      simpa [Yields] using Derives.static ht h.1.2.1 h.2.1
    · refine .bind ((ih.funDecl _ _ c).weaken fun h => by omega) fun d ts c₁ => ?_
      refine .bind ((ih.members c₁).weaken fun h => ?_) fun r us c₂ => ?_
      · obtain ⟨hfuel, hd, hlen⟩ := h
        obtain ⟨t, vs, rfl, -⟩ := hd.starts (by decide)
        rw [List.length_cons] at hlen
        omega
      · obtain ⟨methods, statics⟩ := r
        refine .pure fun h => ?_
        simpa [Yields] using Derives.method h.1.2.1 h.2.1

private theorem funDecl_succ (start : Span) (role : FunRole) :
    Sound (32 * c.left.length + 1 ≤ fuel + 1)
    (Parser.funDecl (fuel + 1) start role) c (Yields .function .function) := by
  rw [Parser.funDecl]
  refine .expect (by decide) fun name c₁ => .expectMark fun left c₂ => ?_
  refine .bind ((sound_params fuel c₂).weaken fun h => by omega) fun ps ts c₃ => ?_
  refine .expectMark fun brace c₄ => ?_
  refine .bind ((ih.blockBody c₄).weaken fun h => by omega) fun body us c₅ => ?_
  refine .spanFrom fun s => .pure fun h => ?_
  obtain ⟨⟨⟨⟨⟨-, hname, -⟩, hleft, -⟩, hps, -⟩, hbrace, -⟩, hbody, -⟩ := h
  simpa [Yields] using Derives.function hname (hps left hleft) (hbody brace hbrace)

private theorem varDecl_succ :
    Sound (32 * c.left.length + 1 ≤ fuel + 1 ∧ c.current.kind = .keyword .var_)
      (Parser.varDecl (fuel + 1)) c (Yields .variable_ .stmt) := by
  rw [Parser.varDecl]
  refine .next (fun h => by simp [h.2]) fun c₁ => .expect (by decide) fun name c₂ => ?_
  refine .bind ((ih.initializer c₂).weaken fun h => by omega) fun init ts c₃ => ?_
  refine .expectMark fun semicolon c₄ => .spanFrom fun s => .pure fun h => ?_
  obtain ⟨⟨⟨⟨⟨-, ht⟩, -⟩, hname, -⟩, hinit, -⟩, hsemicolon, -⟩ := h
  exact hinit c.current name semicolon s ht hname hsemicolon

private theorem initializer_succ : Sound (32 * c.left.length + 17 ≤ fuel + 1)
    (Parser.initializer (fuel + 1)) c fun init ts _ => ∀ t name semicolon : Token, ∀ s : Span,
      t.kind = .keyword .var_ → name.kind = .name → semicolon.kind = .mark .semicolon →
      Derives .variable_ (t :: name :: (ts ++ [semicolon]))
        (.stmt (.varDecl s name.text init)) := by
  rw [Parser.initializer]
  refine .accept (by decide) (fun c₁ => ?_) (.pure fun _ t name semicolon s ht hn hs => ?_)
  · refine .map ((ih.expression c₁).weaken fun h => by omega) fun e ts c₂ h he => ?_
    exact fun t name semicolon s ht hn hs => .value ht hn h.2.1 he hs
  · exact .noValue ht hn hs

private theorem expressionUnless_succ (mark : Mark) : Sound (32 * c.left.length + 17 ≤ fuel + 1)
    (Parser.expressionUnless (fuel + 1) mark) c (Yields .clause .clause) := by
  rw [Parser.expressionUnless]
  refine .peek ?_
  split
  · exact .pure fun _ => Derives.noClause
  · exact .map ((ih.expression c).weaken fun h => by omega) fun e ts c₁ _ he =>
      Derives.someClause he

private theorem exprStmt_succ :
    Sound (32 * c.left.length + 17 ≤ fuel + 1) (Parser.exprStmt (fuel + 1)) c
    fun b ts _ => ∃ e s us semicolon, b = .exprStmt s e ∧ ts = us ++ [semicolon] ∧
      Derives .expression us (.expr e) ∧ semicolon.kind = .mark .semicolon := by
  rw [Parser.exprStmt]
  refine .current (.bind ((ih.expression c).weaken fun h => by omega) fun e ts c₁ => ?_)
  refine .expectMark fun semicolon c₂ => .spanFrom fun s => .pure fun h => ?_
  exact ⟨e, s, ts, semicolon, rfl, rfl, h.1.2.1, h.2.1⟩

private theorem statement_succ :
    Sound (32 * c.left.length + 18 ≤ fuel + 1) (Parser.statement (fuel + 1)) c
    YieldsStmt := by
  rw [Parser.statement]
  refine .current ?_
  split <;> rename_i ht
  · exact (ih.forStmt c).weaken fun h => ⟨by omega, ht⟩
  · exact (ih.ifStmt c).weaken fun h => ⟨by omega, ht⟩
  · refine .next (fun _ => by simp [ht]) fun c₁ => ?_
    refine .bind ((ih.expression c₁).weaken fun h => by omega) fun e ts c₂ => ?_
    refine .expectMark fun semicolon c₃ => .spanFrom fun s => .pure fun h => ?_
    exact ⟨.print ht h.1.2.1 h.2.1, fun h => absurd h Bool.false_ne_true⟩
  · refine .next (fun _ => by simp [ht]) fun c₁ => ?_
    refine .bind ((ih.expressionUnless _ c₁).weaken fun h => by omega) fun e ts c₂ => ?_
    refine .expectMark fun semicolon c₃ => .spanFrom fun s => .pure fun h => ?_
    exact ⟨.return_ ht h.1.2.1 h.2.1, fun h => absurd h Bool.false_ne_true⟩
  · exact (ih.whileStmt c).weaken fun h => ⟨by omega, ht⟩
  · refine .next (fun _ => by simp [ht]) fun c₁ => .expectMark fun semicolon c₂ => ?_
    refine .spanFrom fun s => .pure fun h => ?_
    exact ⟨.break_ ht h.2.1, fun h => absurd h Bool.false_ne_true⟩
  · refine .next (fun _ => by simp [ht]) fun c₁ => ?_
    refine .bind ((ih.blockBody c₁).weaken fun h => by omega) fun body ts c₂ => ?_
    refine .spanFrom fun s => .pure fun h => ?_
    exact ⟨by simpa using Derives.inBlock (h.2.1 c.current
      ht), fun h => absurd h Bool.false_ne_true⟩
  · refine ((ih.exprStmt c).weaken fun h => by omega).imp fun b ts c₁ h => ?_
    obtain ⟨e, s, us, semicolon, rfl, rfl, he, hs⟩ := h
    exact ⟨.exprStmt he hs, fun h => absurd h Bool.false_ne_true⟩

private theorem forInit_succ :
    Sound (32 * c.left.length + 18 ≤ fuel + 1) (Parser.forInit (fuel + 1)) c
    (Yields .forInit .init) := by
  rw [Parser.forInit]
  refine .peek ?_
  split <;> rename_i ht
  · exact .next (fun _ => by simp [ht]) fun c₁ => .pure fun _ => Derives.noInit ht
  · exact .map ((ih.varDecl c).weaken fun h => ⟨by omega, ht⟩) fun b ts c₁ _ h => Derives.varInit h
  · refine .map ((ih.exprStmt c).weaken fun h => by omega) fun b ts c₁ _ h => ?_
    obtain ⟨e, s, us, semicolon, rfl, rfl, he, hs⟩ := h
    exact Derives.exprInit he hs

private theorem forStmt_succ :
    Sound (32 * c.left.length + 1 ≤ fuel + 1 ∧ c.current.kind = .keyword .for_)
      (Parser.forStmt (fuel + 1)) c YieldsStmt := by
  rw [Parser.forStmt]
  refine .next (fun h => by simp [h.2]) fun c₁ => .expectMark fun left c₂ => ?_
  refine .bind ((ih.forInit c₂).weaken fun h => by omega) fun init ts c₃ => ?_
  refine .bind ((ih.expressionUnless _ c₃).weaken fun h => by omega) fun condition us c₄ => ?_
  refine .expectMark fun semicolon c₅ => ?_
  refine .bind ((ih.expressionUnless _ c₅).weaken fun h => by omega) fun step vs c₆ => ?_
  refine .expectMark fun right c₇ => ?_
  refine .bind ((ih.statement c₇).weaken fun h => by omega) fun body ws c₈ => ?_
  refine .spanFrom fun s => .pure fun h => ?_
  obtain ⟨⟨⟨⟨⟨⟨⟨⟨⟨-, ht⟩, -⟩, hleft, -⟩, hinit, -⟩, hcond, -⟩, hsemi, -⟩, hstep, -⟩, hright, -⟩,
    hbody, -⟩ := h
  exact ⟨by simpa using Derives.for_ ht hleft hinit hcond hsemi hstep hright hbody.1, hbody.2⟩

private theorem ifStmt_succ :
    Sound (32 * c.left.length + 1 ≤ fuel + 1 ∧ c.current.kind = .keyword .if_)
      (Parser.ifStmt (fuel + 1)) c YieldsStmt := by
  rw [Parser.ifStmt]
  refine .next (fun h => by simp [h.2]) fun c₁ => .expectMark fun left c₂ => ?_
  refine .bind ((ih.expression c₂).weaken fun h => by omega) fun condition ts c₃ => ?_
  refine .expectMark fun right c₄ => ?_
  refine .bind ((ih.statement c₄).weaken fun h => by omega) fun yes us c₅ => ?_
  refine .accept (by decide) (fun c₆ => ?_) (.spanFrom fun s => .pure fun h => ?_)
  · refine .bind ((ih.statement c₆).weaken fun h => by omega) fun no vs c₇ => ?_
    refine .spanFrom fun s => .pure fun h => ?_
    obtain ⟨⟨⟨⟨⟨⟨⟨⟨-, ht⟩, -⟩, hleft, -⟩, hcond, -⟩, hright, -⟩, hyes, -⟩, helse, -⟩, hno, -⟩ := h
    have hclosed : yes.endsOpen = false := by
      rw [← Bool.not_eq_true]
      exact fun hopen => hyes.2 hopen helse
    have hif := Derives.ifElse (s := s) ht hleft hcond hright hyes.1 hclosed helse hno.1
    exact ⟨by simpa using hif, hno.2⟩
  · obtain ⟨⟨⟨⟨⟨⟨⟨-, ht⟩, -⟩, hleft, -⟩, hcond, -⟩, hright, -⟩, hyes, -⟩, hnot⟩ := h
    exact ⟨by simpa using Derives.if_ ht hleft hcond hright hyes.1, fun _ => hnot⟩

private theorem whileStmt_succ :
    Sound (32 * c.left.length + 1 ≤ fuel + 1 ∧ c.current.kind = .keyword .while_)
      (Parser.whileStmt (fuel + 1)) c YieldsStmt := by
  rw [Parser.whileStmt]
  refine .next (fun h => by simp [h.2]) fun c₁ => .expectMark fun left c₂ => ?_
  refine .bind ((ih.expression c₂).weaken fun h => by omega) fun condition ts c₃ => ?_
  refine .expectMark fun right c₄ => ?_
  refine .bind ((ih.statement c₄).weaken fun h => by omega) fun body us c₅ => ?_
  refine .spanFrom fun s => .pure fun h => ?_
  obtain ⟨⟨⟨⟨⟨⟨-, ht⟩, -⟩, hleft, -⟩, hcond, -⟩, hright, -⟩, hbody, -⟩ := h
  exact ⟨by simpa using Derives.while_ ht hleft hcond hright hbody.1, hbody.2⟩

omit c in
private theorem succ : SoundAt (fuel + 1) where
  expression c := ih.expression_succ c
  conditional c := ih.conditional_succ c
  chain tier c := ih.chain_succ c tier
  chainAfter tier left before c := ih.chainAfter_succ c tier left before
  operand tier c := ih.operand_succ c tier
  unary c := ih.unary_succ c
  callAfter head before c := ih.callAfter_succ c head before
  arguments c := ih.arguments_succ c
  argumentsFrom count c := ih.argumentsFrom_succ c count
  primary c := ih.primary_succ c
  blockBody c := ih.blockBody_succ c
  declarations closing c := ih.declarations_succ c closing
  declaration c := ih.declaration_succ c
  classDecl c := ih.classDecl_succ c
  members c := ih.members_succ c
  funDecl start role c := ih.funDecl_succ c start role
  varDecl c := ih.varDecl_succ c
  initializer c := ih.initializer_succ c
  statement c := ih.statement_succ c
  expressionUnless mark c := ih.expressionUnless_succ c mark
  exprStmt c := ih.exprStmt_succ c
  forStmt c := ih.forStmt_succ c
  forInit c := ih.forInit_succ c
  ifStmt c := ih.ifStmt_succ c
  whileStmt c := ih.whileStmt_succ c

end SoundAt

theorem soundAt (fuel : Nat) : SoundAt fuel := by
  induction fuel with
  | zero => exact soundAt_zero
  | succ fuel ih => exact ih.succ

/-- A list of tokens is read as a program that it derives, or something wrong with it is told. -/
theorem ofTokens_sound (file : Text) {tokens : List Token} (h : Ended tokens) :
    (∃ p, Program.ofTokens file tokens = .ok p ∧ IsProgram tokens p.body) ∨
      ∃ ds, Program.ofTokens file tokens = .error ds ∧ ds ≠ [] := by
  cases tokens with
  | nil => exact h.elim
  | cons t ts =>
    have hsound := (soundAt (depthFor (t :: ts))).declarations none (startOf t ts)
    rw [ofTokens_eq file h]
    rcases hsound.result
      (le_depthFor t ts) h with hlt | ⟨body, us, c, hrun, hfaults, hleft, hbody, heof⟩
    · right
      split
      all_goals
        rename_i c hrun
        rw [hrun] at hlt
        have hne : c.faults ≠ [] := by
          intro hnil
          rw [hnil] at hlt
          exact Nat.not_lt_zero _ hlt
      · rw [if_neg (by simpa using hne)]
        exact ⟨_, rfl, by simpa using hne⟩
      · exact ⟨_, rfl, by simpa using hne⟩
    · left
      have hrest : c.rest = [] := by
        have hstart : Ended (startOf t ts).left := h
        have hc : Ended c.left := Ended.left_of_append (hleft ▸ hstart)
        exact hc.rest_eq_nil (heof rfl)
      rw [hrun]
      refine ⟨_, if_pos (by rw [hfaults]; rfl), us, c.current, ?_, heof rfl, hbody⟩
      simpa [Cursor.left, startOf, hrest] using hleft

end Grammar
end Lox
