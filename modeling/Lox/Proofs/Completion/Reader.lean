import Lox.Proofs.Completion.Shortest

set_option autoImplicit false
set_option relaxedAutoImplicit false

namespace Lox.Parser

open Token Grammar

variable {file : Text}

private theorem mends_paramsFrom (fuel count : Nat) (before : List Token) (c : Cursor) :
    Mends file before (¬ maxArgs ≤ count) True (c.left.length ≤ fuel) (paramsFrom fuel count) c
      (Passed fun ps ts _ => IsParamList ts ps ∧ count + ps.length ≤ maxArgs) := by
  induction fuel generalizing count before c with
  | zero => exact .fail fun _ => writable_paramList
  | succ fuel ih =>
    rw [paramsFrom]
    refine .noteIf (.inl rfl) fun d => .expect exists_name fun name e => ?_
    have hlast (close : Token) (h : (True ∧ ¬ maxArgs ≤ count) ∧ name.kind = .name)
        (hclose : close.kind = .mark .rightParen) : Passed (fun ps ts _ =>
          IsParamList ts ps ∧ count + ps.length ≤ maxArgs) [name, close] :=
      .of [⟨.blank, name.text⟩] ⟨.last h.2 hclose, by rw [List.length_singleton]; omega⟩
    refine .accept (G := ¬ maxArgs ≤ count + 1) (by decide)
      (fun h _ => writable_mark .rightParen fun close hclose => .nil (hlast close h hclose))
      (fun i => ?_) (.expectMark fun close i => .pure fun h => hlast close h.1.1 h.2)
    refine .map ((ih (count + 1) _ i).within fun _ h => ?_)
      ((sound_paramsFrom fuel (count + 1) i).weaken fun h => ?_) fun ps ts j h hps => ?_
    · obtain ⟨⟨⟨h, rfl⟩, h₁⟩, h₂⟩ := h
      omega
    · obtain ⟨-, ⟨⟨h, rfl⟩, h₁⟩, h₂⟩ := h
      omega
    · have hlist := IsParamList.more (s := .blank) h.1.2 h.2 hps.1
      exact .of _ ⟨hlist, by rw [List.length_cons]; omega⟩

private theorem mends_params (fuel : Nat) (before : List Token) (c : Cursor) :
    Mends file before True True (c.left.length ≤ fuel) (params fuel) c (Passed fun ps ts _ =>
      ∀ left : Token, left.kind = .mark .leftParen → IsParams (left :: ts) ps) := by
  rw [params]
  refine .accept (G := True) (by decide) (fun _ _ => writable_params)
    (fun d => .pure fun h => ?_) ?_
  · exact .of [] fun left hleft => .none hleft h.2
  · have hsome : Mends file before True (True ∧ c.current.kind ≠ .mark .rightParen)
        (c.left.length ≤ fuel) (paramsFrom fuel 0) c
        (Passed fun ps ts _ => IsParamList ts ps ∧ 0 + ps.length ≤ maxArgs) :=
      ((mends_paramsFrom fuel 0 before c).within fun _ h => h).whenever fun _ => by decide
    refine hsome.imp fun ts ⟨ps, _, hlist, hcount⟩ => ?_
    exact .of ps fun left hleft => .some hleft hlist (by omega)

private theorem mends_superclassUse (before : List Token) (c : Cursor) :
    Mends file before True True True superclassUse c
      (Passed fun sup ts _ => IsSuperclass ts sup) := by
  rw [superclassUse]
  refine .accept (G := True) (by decide) (fun _ _ => .nil (.of none .none)) (fun d => ?_)
    (.pure fun _ => .of none .none)
  refine .expect exists_name fun name e => .pure fun h => ?_
  exact .of _ (.some (s := .blank) h.1.2 h.2)

/-- Every reader mends what it lacks at a depth that suffices for the tokens left. -/
structure MendsAt (file : Text) (fuel : Nat) : Prop where
  expression (before : List Token) (c : Cursor) :
    Mends file before True True (32 * c.left.length + 16 ≤ fuel) (Parser.expression fuel) c
      (Passed (Yields .expression .expr))
  conditional (before : List Token) (c : Cursor) :
    Mends file before True True (32 * c.left.length + 15 ≤ fuel) (Parser.conditional fuel) c
      (Passed (Yields .conditional .expr))
  chain (tier : Tier) (before : List Token) (c : Cursor) :
    Mends file before True True (32 * c.left.length + tierDepth tier ≤ fuel)
      (Parser.chain fuel tier) c (Passed (Yields (.tier tier) .expr))
  chainAfter (tier : Tier) (left : Expr) (ts before : List Token) (c : Cursor) :
    Mends file before True (Derives (.tier tier) ts (.expr left)) (32 * c.left.length + 1 ≤ fuel)
      (Parser.chainAfter fuel tier left) c fun us => Passed (Yields (.tier tier) .expr) (ts ++ us)
  operand (tier : Tier) (before : List Token) (c : Cursor) :
    Mends file before True True (32 * c.left.length + tierDepth tier ≤ fuel + 1)
      (Parser.operand fuel tier) c (Passed (Yields (operandOf tier) .expr))
  unary (before : List Token) (c : Cursor) :
    Mends file before True True (32 * c.left.length + 2 ≤ fuel) (Parser.unary fuel) c
      (Passed (Yields .unary .expr))
  callAfter (head : Expr) (ts before : List Token) (c : Cursor) :
    Mends file before True (Derives .call ts (.expr head)) (32 * c.left.length + 1 ≤ fuel)
      (Parser.callAfter fuel head) c fun us => Passed (Yields .call .expr) (ts ++ us)
  arguments (before : List Token) (c : Cursor) :
    Mends file before True True (32 * c.left.length + 18 ≤ fuel) (Parser.arguments fuel) c
      (Passed fun (r : List Expr × Token) ts _ =>
        Derives .arguments ts (.exprs r.1) ∧ r.1.length ≤ maxArgs)
  argumentsFrom (count : Nat) (before : List Token) (c : Cursor) :
    Mends file before (¬ maxArgs ≤ count) True (32 * c.left.length + 17 ≤ fuel)
      (Parser.argumentsFrom fuel count) c (Passed fun (r : List Expr × Token) ts _ =>
        Derives .argumentList ts (.exprs r.1) ∧ count + r.1.length ≤ maxArgs)
  primary (before : List Token) (c : Cursor) :
    Mends file before True True (32 * c.left.length + 1 ≤ fuel) (Parser.primary fuel) c
      (Passed (Yields .primary .expr))
  blockBody (before : List Token) (c : Cursor) :
    Mends file before True True (32 * c.left.length + 21 ≤ fuel) (Parser.blockBody fuel) c
      (Passed fun body ts _ => ∀ left : Token, left.kind = .mark .leftBrace →
        Derives .block (left :: ts) (.stmts body))
  declarations (closing : Option Mark) (before : List Token) (c : Cursor) :
    Mends file before True True (32 * c.left.length + 20 ≤ fuel)
      (Parser.declarations fuel closing) c (Passed fun body ts d =>
        Derives .declarations ts (.stmts body) ∧ (closing = none → d.current.kind = .eof))
  declaration (before : List Token) (c : Cursor) :
    Mends file before True True (32 * c.left.length + 19 ≤ fuel) (Parser.declaration fuel) c
      (Passed (Yields .declaration .stmt))
  classDecl (before : List Token) (c : Cursor) :
    Mends file before True (c.current.kind = .keyword .class_) (32 * c.left.length + 1 ≤ fuel)
      (Parser.classDecl fuel) c (Passed (Yields .declaration .stmt))
  members (before : List Token) (c : Cursor) :
    Mends file before True True (32 * c.left.length + 2 ≤ fuel) (Parser.members fuel) c
      (Passed (Yields .members fun r : List FunDecl × List FunDecl => .members r.1 r.2))
  funDecl (start : Span) (role : FunRole) (before : List Token) (c : Cursor) :
    Mends file before True True (32 * c.left.length + 1 ≤ fuel)
      (Parser.funDecl fuel start role) c (Passed (Yields .function .function))
  varDecl (before : List Token) (c : Cursor) :
    Mends file before True (c.current.kind = .keyword .var_) (32 * c.left.length + 1 ≤ fuel)
      (Parser.varDecl fuel) c (Passed (Yields .variable_ .stmt))
  initializer (before : List Token) (c : Cursor) :
    Mends file before True True (32 * c.left.length + 17 ≤ fuel) (Parser.initializer fuel) c
      (Passed fun init ts _ => ∀ t name semicolon : Token, ∀ s : Span, t.kind = .keyword .var_ →
        name.kind = .name → semicolon.kind = .mark .semicolon →
        Derives .variable_ (t :: name :: (ts ++ [semicolon])) (.stmt (.varDecl s name.text init)))
  statement (before : List Token) (c : Cursor) :
    Mends file before True True (32 * c.left.length + 18 ≤ fuel) (Parser.statement fuel) c
      (Passed YieldsStmt)
  expressionUnless (mark : Mark) (before : List Token) (c : Cursor) :
    Mends file before True True (32 * c.left.length + 17 ≤ fuel)
      (Parser.expressionUnless fuel mark) c (Passed (Yields .clause .clause))
  exprStmt (before : List Token) (c : Cursor) :
    Mends file before True True (32 * c.left.length + 17 ≤ fuel) (Parser.exprStmt fuel) c
      (Passed fun b ts _ => ∃ e s us semicolon, b = Stmt.exprStmt s e ∧ ts = us ++ [semicolon] ∧
        Derives .expression us (.expr e) ∧ semicolon.kind = .mark .semicolon)
  forStmt (before : List Token) (c : Cursor) :
    Mends file before True (c.current.kind = .keyword .for_) (32 * c.left.length + 1 ≤ fuel)
      (Parser.forStmt fuel) c (Passed YieldsStmt)
  forInit (before : List Token) (c : Cursor) :
    Mends file before True True (32 * c.left.length + 18 ≤ fuel) (Parser.forInit fuel) c
      (Passed (Yields .forInit .init))
  ifStmt (before : List Token) (c : Cursor) :
    Mends file before True (c.current.kind = .keyword .if_) (32 * c.left.length + 1 ≤ fuel)
      (Parser.ifStmt fuel) c (Passed YieldsStmt)
  whileStmt (before : List Token) (c : Cursor) :
    Mends file before True (c.current.kind = .keyword .while_) (32 * c.left.length + 1 ≤ fuel)
      (Parser.whileStmt fuel) c (Passed YieldsStmt)

private theorem mendsAt_zero : MendsAt file 0 where
  expression _ _ := .fail fun _ _ => writable_expression
  conditional _ _ := .fail fun _ _ => writable_nil fun _ => derives_conditional_nil
  chain tier _ _ := .fail fun _ _ => writable_nil fun _ ht => derives_tier_nil ht tier
  chainAfter _ _ _ _ _ := .fail fun h _ => .nil (by simpa using Passed.expr h)
  operand tier _ _ := .fail fun _ _ => writable_nil fun _ ht => derives_operand_nil ht tier
  unary _ _ := .fail fun _ _ => writable_unary
  callAfter _ _ _ _ := .fail fun h _ => .nil (by simpa using Passed.expr h)
  arguments _ _ := .fail fun _ _ => writable_arguments
  argumentsFrom _ _ _ := .fail fun _ => writable_argumentList
  primary _ _ := .fail fun _ _ => writable_primary
  blockBody _ _ := .fail fun _ _ => writable_block
  declarations closing _ _ := .fail fun _ _ => writable_declarations closing
  declaration _ _ := .fail fun _ _ => writable_declaration
  classDecl _ _ := .fail fun _ _ => writable_declaration
  members _ _ := .fail fun _ _ => writable_members
  funDecl _ _ _ _ := .fail fun _ _ => writable_function
  varDecl _ _ := .fail fun _ _ => writable_variable
  initializer _ _ := .fail fun _ _ => writable_initializer
  statement _ _ := .fail fun _ _ => writable_statement
  expressionUnless _ _ _ := .fail fun _ _ => writable_clause
  exprStmt _ _ := .fail fun _ _ => writable_exprStmt
  forStmt _ _ := .fail fun _ _ => writable_statement
  forInit _ _ := .fail fun _ _ => writable_forInit
  ifStmt _ _ := .fail fun _ _ => writable_statement
  whileStmt _ _ := .fail fun _ _ => writable_statement

namespace MendsAt

variable {fuel : Nat} (ih : MendsAt file fuel) (before : List Token) (c : Cursor)
include ih

private theorem expression_succ : Mends file before True True (32 * c.left.length + 16 ≤ fuel + 1)
    (Parser.expression (fuel + 1)) c (Passed (Yields .expression .expr)) := by
  rw [Parser.expression]
  have hs := soundAt fuel
  refine .bind ((ih.conditional before c).within fun _ h => by omega)
    ((hs.conditional c).weaken fun h => by omega) fun left ts d => .peek ?_
  have hsimple (h : True ∧ Yields .conditional .expr left ts d) :
      Passed (Yields .expression .expr) (ts ++ []) := by
    simpa using Passed.expr (Derives.simple h.2)
  split
  · rename_i hequal
    -- Only a name and a property can be assigned to; the value of anything else is read in vain.
    cases left with
    | name use =>
      refine .next (fun h _ => .nil (hsimple h)) (fun _ => by simp [hequal]) fun e => ?_
      refine .bind ((ih.expression _ e).within fun _ h => by omega)
        ((hs.expression e).weaken fun h => by omega) fun value us i => .pure fun h => ?_
      obtain ⟨⟨-, hleft⟩, hvalue⟩ := h
      obtain ⟨t, rfl, ht, -⟩ := Derives.of_name hleft
      exact .expr (by simpa using Derives.assignName (s := .blank) ht hequal hvalue)
    | get s object name =>
      refine .next (fun h _ => .nil (hsimple h)) (fun _ => by simp [hequal]) fun e => ?_
      refine .bind ((ih.expression _ e).within fun _ h => by omega)
        ((hs.expression e).weaken fun h => by omega) fun value us i => .pure fun h => ?_
      obtain ⟨⟨-, hleft⟩, hvalue⟩ := h
      obtain ⟨vs, dot, t, rfl, hobject, hdot, ht, rfl⟩ := Derives.of_get hleft
      exact .expr (by simpa using Derives.assignField (s := .blank) hobject hdot ht hequal hvalue)
    | _ =>
      refine .excused ?_ (fun h _ => .nil (hsimple h)) fun h _ _ => .inr ?_
      · refine Grows.next.bind fun equals e => (ih.expression [] e).grows.bind fun value i => ?_
        exact (Grows.note _ _).bind fun _ j => .pure _
      · exact ⟨before, ts, d.current, d.rest, _, by simp [Cursor.left], h.2, hequal, rfl⟩
  · exact .pure hsimple

private theorem conditional_succ : Mends file before True True (32 * c.left.length + 15 ≤ fuel + 1)
    (Parser.conditional (fuel + 1)) c (Passed (Yields .conditional .expr)) := by
  rw [Parser.conditional]
  have hs := soundAt fuel
  refine .bind ((ih.chain .or before c).within fun _ h => by rw [tierDepth]; omega)
    ((hs.chain .or c).weaken fun h => by rw [tierDepth]; omega) fun condition ts d => ?_
  have hplain (h : True ∧ Yields (.tier .or) .expr condition ts d) :
      Passed (Yields .conditional .expr) (ts ++ []) := by
    simpa using Passed.expr (Derives.plain h.2)
  refine .accept (G := True) (by decide) (fun h _ => .nil (hplain h)) (fun e => ?_)
    (.pure fun h => hplain h.1)
  refine .bind ((ih.expression _ e).within fun _ h => by omega)
    ((hs.expression e).weaken fun h => by omega) fun yes us i => .expectMark fun colon j => ?_
  refine .map ((ih.conditional _ j).within fun _ h => by omega)
    ((hs.conditional j).weaken fun h => by omega) fun no vs k h hno => ?_
  obtain ⟨⟨⟨⟨-, hcond⟩, hquestion⟩, hyes⟩, hcolon⟩ := h
  exact .expr (Derives.choice (s := .blank) hcond hquestion hyes hcolon hno)

private theorem chain_succ (tier : Tier) :
    Mends file before True True (32 * c.left.length + tierDepth tier ≤ fuel + 1)
      (Parser.chain (fuel + 1) tier) c (Passed (Yields (.tier tier) .expr)) := by
  rw [Parser.chain]
  have hs := soundAt fuel
  refine .bind ((ih.operand tier before c).within fun _ h => h)
    ((hs.operand tier c).weaken fun h => h.2) fun left ts d => ?_
  have hpos : 1 < tierDepth tier := by cases tier <;> decide
  exact (ih.chainAfter tier left ts _ d).weaken (fun h => .operand h.2) fun _ h => by omega

private theorem chainAfter_succ (tier : Tier) (left : Expr) (ts : List Token) :
    Mends file before True (Derives (.tier tier) ts (.expr left))
      (32 * c.left.length + 1 ≤ fuel + 1) (Parser.chainAfter (fuel + 1) tier left) c
      fun us => Passed (Yields (.tier tier) .expr) (ts ++ us) := by
  rw [Parser.chainAfter]
  have hs := soundAt fuel
  refine .peek ?_
  split
  · exact .pure fun h => by simpa using Passed.expr h
  · rename_i op hop
    have hop := isOperator_of_operator? hop
    refine .next (fun h _ => .nil (by simpa using Passed.expr h)) (fun _ heof => ?_) fun d => ?_
    · rw [heof] at hop
      cases hop
    · have hdepth : tierDepth tier ≤ 14 := by cases tier <;> decide
      refine .bind ((ih.operand tier _ d).within fun _ h => by omega)
        ((hs.operand tier d).weaken fun h => by omega) fun right us e => ?_
      have hnext := ih.chainAfter tier (op.apply left right) (ts ++ c.current :: us)
        (before ++ [c.current] ++ us) e
      refine (hnext.weaken (fun h => ?_) fun _ h => by omega).imp fun vs h => by simpa using h
      rw [apply_eq_combine]
      exact .chain h.1 hop h.2

private theorem operand_succ (tier : Tier) :
    Mends file before True True (32 * c.left.length + tierDepth tier ≤ fuel + 1 + 1)
      (Parser.operand (fuel + 1) tier) c (Passed (Yields (operandOf tier) .expr)) := by
  rw [Parser.operand]
  cases tier
  case factor => exact (ih.unary before c).within fun _ h => by rw [tierDepth] at h; omega
  all_goals exact (ih.chain _ before c).within fun _ h => by simp only [tierDepth] at h ⊢; omega

private theorem unary_succ : Mends file before True True (32 * c.left.length + 2 ≤ fuel + 1)
    (Parser.unary (fuel + 1)) c (Passed (Yields .unary .expr)) := by
  rw [Parser.unary]
  have hs := soundAt fuel
  refine .current ?_
  split
  · rename_i hbang
    refine .next (fun _ _ => writable_unary) (fun _ => by simp [hbang]) fun d => ?_
    refine .map ((ih.unary _ d).within fun _ h => by omega)
      ((hs.unary d).weaken fun h => by omega) fun e ts i h he => ?_
    exact .expr (Derives.not (s := .blank) hbang he)
  · rename_i hminus
    refine .next (fun _ _ => writable_unary) (fun _ => by simp [hminus]) fun d => ?_
    refine .map ((ih.unary _ d).within fun _ h => by omega)
      ((hs.unary d).weaken fun h => by omega) fun e ts i h he => ?_
    exact .expr (Derives.negate (s := .blank) hminus he)
  · refine .bind ((ih.primary before c).within fun _ h => by omega)
      ((hs.primary c).weaken fun h => by omega) fun head ts d => ?_
    refine Mends.imp ((ih.callAfter head ts _ d).weaken (fun h => .head h.2) fun _ h => by omega)
      fun us h => ?_
    obtain ⟨e, _, he⟩ := h
    exact .expr (Derives.called he)

private theorem callAfter_succ (head : Expr) (ts : List Token) :
    Mends file before True (Derives .call ts (.expr head)) (32 * c.left.length + 1 ≤ fuel + 1)
      (Parser.callAfter (fuel + 1) head) c
      fun us => Passed (Yields .call .expr) (ts ++ us) := by
  rw [Parser.callAfter]
  have hs := soundAt fuel
  have hhead (h : Derives .call ts (.expr head)) : Passed (Yields .call .expr) (ts ++ []) := by
    simpa using Passed.expr h
  refine .peek ?_
  split
  · rename_i hparen
    refine .next (fun h _ => .nil (hhead h)) (fun _ => by simp [hparen]) fun d => ?_
    refine .bind ((ih.arguments _ d).within fun _ h => by omega)
      ((hs.arguments d).weaken fun h => by omega) fun r us e => ?_
    obtain ⟨args, stop⟩ := r
    have hnext := ih.callAfter (.call (head.span.cover stop.span) head args)
      (ts ++ c.current :: us) (before ++ [c.current] ++ us) e
    refine (hnext.weaken (fun h => ?_) fun _ h => by omega).imp fun vs h => by simpa using h
    exact .apply h.1 hparen h.2.1 h.2.2
  · rename_i hdot
    refine .next (fun h _ => .nil (hhead h)) (fun _ => by simp [hdot]) fun d => ?_
    refine .expect exists_name fun name e => ?_
    have hnext := ih.callAfter (.get (head.span.cover name.span) head name.text)
      (ts ++ [c.current, name]) (before ++ [c.current] ++ [name]) e
    refine (hnext.weaken (fun h => ?_) fun _ h => by omega).imp fun vs h => by simpa using h
    exact .get h.1 hdot h.2
  · exact .pure hhead

private theorem arguments_succ : Mends file before True True (32 * c.left.length + 18 ≤ fuel + 1)
    (Parser.arguments (fuel + 1)) c (Passed fun (r : List Expr × Token) ts _ =>
      Derives .arguments ts (.exprs r.1) ∧ r.1.length ≤ maxArgs) := by
  rw [Parser.arguments]
  refine .peek ?_
  split
  · rename_i hright
    refine .next (fun _ _ => writable_arguments) (fun _ => by simp [hright]) fun d => ?_
    exact .pure fun _ => .of ([], c.current) ⟨.noArguments hright, Nat.zero_le _⟩
  · have hsome := (ih.argumentsFrom 0 before c).within (F := True)
      (A := 32 * c.left.length + 18 ≤ fuel + 1) fun _ h => by omega
    refine (hsome.whenever fun _ => by decide).imp fun ts ⟨r, _, hargs, hcount⟩ => ?_
    exact .of r ⟨.someArguments hargs, by omega⟩

private theorem argumentsFrom_succ (count : Nat) :
    Mends file before (¬ maxArgs ≤ count) True (32 * c.left.length + 17 ≤ fuel + 1)
      (Parser.argumentsFrom (fuel + 1) count) c (Passed fun (r : List Expr × Token) ts _ =>
        Derives .argumentList ts (.exprs r.1) ∧ count + r.1.length ≤ maxArgs) := by
  rw [Parser.argumentsFrom]
  have hs := soundAt fuel
  refine .noteIf (.inr rfl) fun d => ?_
  refine .bind ((ih.expression before d).within fun _ h => by rw [h.2]; omega)
    ((hs.expression d).weaken fun h => by rw [h.2.2]; omega) fun arg ts e => ?_
  have hlast (right : Token) (h : (True ∧ ¬ maxArgs ≤ count) ∧ Yields .expression .expr arg ts e)
      (hright : right.kind = .mark .rightParen) : Passed (fun (r : List Expr × Token) ts _ =>
        Derives .argumentList ts (.exprs r.1) ∧ count + r.1.length ≤ maxArgs) (ts ++ [right]) :=
    .of ([arg], right) ⟨.lastArgument h.2 hright, by rw [List.length_singleton]; omega⟩
  refine .accept (G := ¬ maxArgs ≤ count + 1) (by decide)
    (fun h _ => writable_mark .rightParen fun right hright => .nil (hlast right h hright))
    (fun i => ?_) (.expectMark fun right i => .pure fun h => hlast right h.1.1 h.2)
  refine .bind ((ih.argumentsFrom (count + 1) _ i).within fun _ h => ?_)
    ((hs.argumentsFrom (count + 1) i).weaken fun h => ?_) fun r us j => .pure fun h => ?_
  · obtain ⟨⟨⟨h, rfl⟩, h₁⟩, h₂⟩ := h
    omega
  · obtain ⟨-, ⟨⟨h, rfl⟩, h₁⟩, h₂⟩ := h
    omega
  · obtain ⟨⟨⟨-, harg⟩, hcomma⟩, hargs, hcount⟩ := h
    refine .of (arg :: r.1, r.2) ⟨by simpa using Derives.moreArguments harg hcomma hargs, ?_⟩
    rw [List.length_cons]
    omega

private theorem primary_succ : Mends file before True True (32 * c.left.length + 1 ≤ fuel + 1)
    (Parser.primary (fuel + 1)) c (Passed (Yields .primary .expr)) := by
  rw [Parser.primary]
  have hs := soundAt fuel
  have hnext {k : Token → Parser Expr} (hkind : c.current.kind ≠ .eof)
      (hk : ∀ d, Mends file (before ++ [c.current]) True True
        (32 * c.left.length + 1 ≤ fuel + 1 ∧ c.left.length = 1 + d.left.length) (k c.current) d
        fun us => Passed (Yields .primary .expr) (c.current :: us)) :
      Mends file before True True (32 * c.left.length + 1 ≤ fuel + 1) (Parser.next >>= k) c
        (Passed (Yields .primary .expr)) :=
    .next (fun _ _ => writable_primary) (fun _ => hkind) hk
  refine .current ?_
  split <;> rename_i ht
  · exact hnext (by simp [ht]) fun d => .pure fun _ => .expr (Derives.false_ (s := .blank) ht)
  · exact hnext (by simp [ht]) fun d => .pure fun _ => .expr (Derives.true_ (s := .blank) ht)
  · exact hnext (by simp [ht]) fun d => .pure fun _ => .expr (Derives.nil_ (s := .blank) ht)
  · cases hread : Decimal.read? c.current.text with
    | some x =>
      exact hnext (by simp [ht]) fun d => .pure fun _ =>
        .expr (Derives.number (s := .blank) ht hread)
    | none =>
      refine .excused ?_ (fun _ _ => writable_primary) fun _ _ _ => .inl ?_
      · exact Grows.next.bind fun _ d => (Grows.note _ _).bind fun _ e => .fail
      · refine ⟨(Fault.badNumber c.current.text).diagnostic c.current, List.mem_cons_self, ?_⟩
        exact Fault.not_lacking _ (by simp [ht])
  · exact hnext (by simp [ht]) fun d => .pure fun _ => .expr (Derives.string (s := .blank) ht)
  · exact hnext (by simp [ht]) fun d => .pure fun _ => .expr (Derives.this (s := .blank) ht)
  · refine hnext (by simp [ht]) fun d => .expectMark fun dot e => ?_
    refine .expect exists_name fun name i => .pure fun h => ?_
    exact .expr (Derives.super (s := .blank) ht h.1.2 h.2)
  · exact hnext (by simp [ht]) fun d => .pure fun _ => .expr (Derives.name (s := .blank) ht)
  · refine hnext (by simp [ht]) fun d => .expectMark fun left e => ?_
    refine .bind ((mends_params fuel _ e).within fun _ h => by omega)
      ((sound_params fuel e).weaken fun h => by omega) fun ps ts i => .expectMark fun brace j => ?_
    refine .bind ((ih.blockBody _ j).within fun _ h => by omega)
      ((hs.blockBody j).weaken fun h => by omega) fun body us k =>
        .spanFrom fun s => .pure fun h => ?_
    obtain ⟨⟨⟨⟨-, hleft⟩, hps⟩, hbrace⟩, hbody⟩ := h
    have hlambda := Derives.lambda (s := s) ht (hps left hleft) (hbody brace hbrace)
    exact .expr (by simpa using hlambda)
  · refine hnext (by simp [ht]) fun d => ?_
    refine .bind ((ih.expression _ d).within fun _ h => by omega)
      ((hs.expression d).weaken fun h => by omega) fun e ts i => .expectMark fun right j => ?_
    exact .spanFrom fun s => .pure fun h => .expr (Derives.group (s := s) ht h.1.2 h.2)
  · exact .noteFail rfl (fun _ _ => writable_primary) trivial

private theorem blockBody_succ : Mends file before True True (32 * c.left.length + 21 ≤ fuel + 1)
    (Parser.blockBody (fuel + 1)) c (Passed fun body ts _ => ∀ left : Token,
      left.kind = .mark .leftBrace → Derives .block (left :: ts) (.stmts body)) := by
  rw [Parser.blockBody]
  have hs := soundAt fuel
  refine .bind ((ih.declarations _ before c).within fun _ h => by omega)
    ((hs.declarations _ c).weaken fun h => by omega) fun body ts d => ?_
  refine .expectMark fun right e => .pure fun h => .of body fun left hleft => ?_
  exact Derives.block hleft h.1.2.1 h.2

private theorem declarations_succ (closing : Option Mark) :
    Mends file before True True (32 * c.left.length + 20 ≤ fuel + 1)
      (Parser.declarations (fuel + 1) closing) c (Passed fun body ts d =>
        Derives .declarations ts (.stmts body) ∧ (closing = none → d.current.kind = .eof)) := by
  rw [Parser.declarations]
  have hs := soundAt fuel
  refine .atListEnd ?_
  split
  · exact .pure fun _ => .of [] ⟨.noDeclarations, fun _ => rfl⟩
  · have hfirst := ((ih.declaration before c).within (F := True)
      (A := 32 * c.left.length + 20 ≤ fuel + 1) fun _ h => by omega).recover
    refine .bind (hfirst.imp fun ts ⟨b, d, h⟩ => ⟨some b, d, b, rfl, h⟩)
      (.recover ((hs.declaration c).weaken fun h => by omega)) fun first ts d => ?_
    have hroom (h : 32 * c.left.length + 20 ≤ fuel + 1)
        (hb : ∃ b, first = some b ∧ Yields .declaration .stmt b ts d)
        (hlen : c.left.length = ts.length + d.left.length) :
        32 * d.left.length + 20 ≤ fuel := by
      obtain ⟨b, -, hb⟩ := hb
      obtain ⟨t, vs, rfl, -⟩ := hb.starts (by decide)
      rw [List.length_cons] at hlen
      omega
    refine .map ((ih.declarations closing _ d).within fun hb h => hroom h.1 hb.2 h.2)
      ((hs.declarations closing d).weaken fun h => hroom h.2.1 h.1.2 h.2.2)
        fun others us e h hus => ?_
    obtain ⟨-, b, -, hb⟩ := h
    exact .of (b :: others) ⟨.moreDeclarations hb hus.1, fun _ => rfl⟩

private theorem declaration_succ : Mends file before True True (32 * c.left.length + 19 ≤ fuel + 1)
    (Parser.declaration (fuel + 1)) c (Passed (Yields .declaration .stmt)) := by
  rw [Parser.declaration]
  have hs := soundAt fuel
  have hstatement : Mends file before True True (32 * c.left.length + 19 ≤ fuel + 1)
      (Parser.statement fuel) c (Passed (Yields .declaration .stmt)) := by
    refine ((ih.statement before c).within fun _ h => by omega).imp fun _ h => ?_
    obtain ⟨_, _, h⟩ := h
    exact .declaration h.1
  refine .peek ?_
  split <;> rename_i ht
  · exact (ih.classDecl before c).weaken (fun _ => ht) fun _ h => by omega
  · refine .peekSecond ?_
    split
    · refine .next (fun _ _ => writable_declaration) (fun _ => by simp [ht]) fun d => ?_
      refine .map ((ih.funDecl _ _ _ d).within fun _ h => by omega)
        ((hs.funDecl _ _ d).weaken fun h => by omega) fun f ts e h hf => ?_
      exact .stmt (Derives.funDecl ht hf)
    · exact hstatement
  · have hvar := (ih.varDecl before c).weaken (F := True) (A := 32 * c.left.length + 19 ≤ fuel + 1)
      (fun _ => ht) fun _ h => by omega
    refine hvar.imp fun _ h => ?_
    obtain ⟨_, _, h⟩ := h
    exact .stmt (Derives.varDecl h)
  · exact hstatement

private theorem classDecl_succ :
    Mends file before True (c.current.kind = .keyword .class_) (32 * c.left.length + 1 ≤ fuel + 1)
      (Parser.classDecl (fuel + 1)) c (Passed (Yields .declaration .stmt)) := by
  rw [Parser.classDecl]
  have hs := soundAt fuel
  refine .next (fun _ _ => writable_declaration) (fun h => by simp [h]) fun d => ?_
  refine .expect exists_name fun name e => ?_
  refine .bind ((mends_superclassUse _ e).within fun _ _ => trivial)
    ((sound_superclassUse e).weaken fun _ => trivial) fun sup ts i => .expectMark fun left j => ?_
  refine .bind ((ih.members _ j).within fun _ h => by omega)
    ((hs.members j).weaken fun h => by omega) fun r us k => ?_
  obtain ⟨methods, statics⟩ := r
  refine .expectMark fun right l => .spanFrom fun s => .pure fun h => ?_
  obtain ⟨⟨⟨⟨⟨ht, hname⟩, hsup⟩, hleft⟩, hmembers⟩, hright⟩ := h
  exact .stmt (Derives.classDecl (s := s) ht hname hsup hleft hmembers hright)

private theorem members_succ : Mends file before True True (32 * c.left.length + 2 ≤ fuel + 1)
    (Parser.members (fuel + 1)) c
    (Passed (Yields .members fun r : List FunDecl × List FunDecl => .members r.1 r.2)) := by
  rw [Parser.members]
  have hs := soundAt fuel
  refine .atListEnd ?_
  split
  · exact .pure fun _ => .of ([], []) Derives.noMembers
  · refine .current ?_
    split
    · rename_i ht
      refine .next (fun _ _ => writable_members) (fun _ => by simp [ht]) fun d => ?_
      refine .bind ((ih.funDecl _ _ _ d).within fun _ h => by omega)
        ((hs.funDecl _ _ d).weaken fun h => by omega) fun f ts e => ?_
      refine .bind ((ih.members _ e).within fun _ h => by omega)
        ((hs.members e).weaken fun h => by omega) fun r us i => ?_
      obtain ⟨methods, statics⟩ := r
      refine .pure fun h => .of (methods, f :: statics) ?_
      simpa [Yields] using Derives.static ht h.1.2 h.2
    · refine .bind ((ih.funDecl _ _ before c).within fun _ h => by omega)
        ((hs.funDecl _ _ c).weaken fun h => by omega) fun f ts d => ?_
      have hroom (h : 32 * c.left.length + 2 ≤ fuel + 1) (hf : Yields .function .function f ts d)
          (hlen : c.left.length = ts.length + d.left.length) : 32 * d.left.length + 2 ≤ fuel := by
        obtain ⟨t, vs, rfl, -⟩ := hf.starts (by decide)
        rw [List.length_cons] at hlen
        omega
      refine .bind ((ih.members _ d).within fun hf h => hroom h.1 hf.2 h.2)
        ((hs.members d).weaken fun h => hroom h.2.1 h.1.2 h.2.2) fun r us e => ?_
      obtain ⟨methods, statics⟩ := r
      refine .pure fun h => .of (f :: methods, statics) ?_
      simpa [Yields] using Derives.method h.1.2 h.2

private theorem funDecl_succ (start : Span) (role : FunRole) :
    Mends file before True True (32 * c.left.length + 1 ≤ fuel + 1)
      (Parser.funDecl (fuel + 1) start role) c (Passed (Yields .function .function)) := by
  rw [Parser.funDecl]
  have hs := soundAt fuel
  refine .expect exists_name fun name d => .expectMark fun left e => ?_
  refine .bind ((mends_params fuel _ e).within fun _ h => by omega)
    ((sound_params fuel e).weaken fun h => by omega) fun ps ts i => .expectMark fun brace j => ?_
  refine .bind ((ih.blockBody _ j).within fun _ h => by omega)
    ((hs.blockBody j).weaken fun h => by omega) fun body us k =>
      .spanFrom fun s => .pure fun h => ?_
  obtain ⟨⟨⟨⟨⟨-, hname⟩, hleft⟩, hps⟩, hbrace⟩, hbody⟩ := h
  have hfunction := Derives.function (s := s) hname (hps left hleft) (hbody brace hbrace)
  exact .function (by simpa using hfunction)

private theorem varDecl_succ :
    Mends file before True (c.current.kind = .keyword .var_) (32 * c.left.length + 1 ≤ fuel + 1)
      (Parser.varDecl (fuel + 1)) c (Passed (Yields .variable_ .stmt)) := by
  rw [Parser.varDecl]
  have hs := soundAt fuel
  refine .next (fun _ _ => writable_variable) (fun h => by simp [h]) fun d => ?_
  refine .expect exists_name fun name e => ?_
  refine .bind ((ih.initializer _ e).within fun _ h => by omega)
    ((hs.initializer e).weaken fun h => by omega) fun init ts i => .expectMark fun semicolon j => ?_
  refine .spanFrom fun s => .pure fun h => ?_
  obtain ⟨⟨⟨ht, hname⟩, hinit⟩, hsemicolon⟩ := h
  exact .stmt (hinit c.current name semicolon s ht hname hsemicolon)

private theorem initializer_succ : Mends file before True True (32 * c.left.length + 17 ≤ fuel + 1)
    (Parser.initializer (fuel + 1)) c (Passed fun init ts _ => ∀ t name semicolon : Token,
      ∀ s : Span, t.kind = .keyword .var_ → name.kind = .name → semicolon.kind = .mark .semicolon →
      Derives .variable_ (t :: name :: (ts ++ [semicolon]))
        (.stmt (.varDecl s name.text init))) := by
  rw [Parser.initializer]
  have hs := soundAt fuel
  refine .accept (G := True) (by decide) (fun _ _ => writable_initializer) (fun d => ?_)
    (.pure fun _ => .of none fun t name semicolon s ht hname hsemicolon => ?_)
  · refine .map ((ih.expression _ d).within fun _ h => by omega)
      ((hs.expression d).weaken fun h => by omega) fun e ts i h he => ?_
    exact .of (some e) fun t name semicolon s ht hname hsemicolon =>
      .value ht hname h.2 he hsemicolon
  · exact .noValue ht hname hsemicolon

private theorem statement_succ : Mends file before True True (32 * c.left.length + 18 ≤ fuel + 1)
    (Parser.statement (fuel + 1)) c (Passed YieldsStmt) := by
  rw [Parser.statement]
  have hs := soundAt fuel
  have hnext {k : Token → Parser Stmt} (hkind : c.current.kind ≠ .eof)
      (hk : ∀ d, Mends file (before ++ [c.current]) True True
        (32 * c.left.length + 18 ≤ fuel + 1 ∧ c.left.length = 1 + d.left.length) (k c.current) d
        fun us => Passed YieldsStmt (c.current :: us)) :
      Mends file before True True (32 * c.left.length + 18 ≤ fuel + 1) (Parser.next >>= k) c
        (Passed YieldsStmt) :=
    .next (fun _ _ => writable_statement) (fun _ => hkind) hk
  refine .current ?_
  split <;> rename_i ht
  · exact (ih.forStmt before c).weaken (fun _ => ht) fun _ h => by omega
  · exact (ih.ifStmt before c).weaken (fun _ => ht) fun _ h => by omega
  · refine hnext (by simp [ht]) fun d => ?_
    refine .bind ((ih.expression _ d).within fun _ h => by omega)
      ((hs.expression d).weaken fun h => by omega) fun e ts i => .expectMark fun semicolon j => ?_
    exact .spanFrom fun s => .pure fun h => .statement (.print (s := s) ht h.1.2 h.2)
  · refine hnext (by simp [ht]) fun d => ?_
    refine .bind ((ih.expressionUnless _ _ d).within fun _ h => by omega)
      ((hs.expressionUnless _ d).weaken fun h => by omega) fun e ts i => ?_
    refine .expectMark fun semicolon j => .spanFrom fun s => .pure fun h => ?_
    exact .statement (.return_ (s := s) ht h.1.2 h.2)
  · exact (ih.whileStmt before c).weaken (fun _ => ht) fun _ h => by omega
  · refine hnext (by simp [ht]) fun d => .expectMark fun semicolon e => .spanFrom fun s => ?_
    exact .pure fun h => .statement (.break_ (s := s) ht h.2)
  · refine hnext (by simp [ht]) fun d => ?_
    refine .bind ((ih.blockBody _ d).within fun _ h => by omega)
      ((hs.blockBody d).weaken fun h => by omega) fun body ts e =>
        .spanFrom fun s => .pure fun h => ?_
    exact .statement (by simpa using Derives.inBlock (s := s) (h.2 c.current ht))
  · refine Mends.imp ((ih.exprStmt before c).within fun _ h => by omega) fun ts h => ?_
    obtain ⟨_, _, e, s, us, semicolon, rfl, rfl, he, hsemicolon⟩ := h
    exact .statement (.exprStmt (s := s) he hsemicolon)

private theorem expressionUnless_succ (mark : Mark) :
    Mends file before True True (32 * c.left.length + 17 ≤ fuel + 1)
      (Parser.expressionUnless (fuel + 1) mark) c (Passed (Yields .clause .clause)) := by
  rw [Parser.expressionUnless]
  have hs := soundAt fuel
  refine .peek ?_
  split
  · exact .pure fun _ => .of none Derives.noClause
  · refine .map ((ih.expression before c).within fun _ h => by omega)
      ((hs.expression c).weaken fun h => by omega) fun e ts d _ he => ?_
    exact .of (some e) (Derives.someClause he)

private theorem exprStmt_succ : Mends file before True True (32 * c.left.length + 17 ≤ fuel + 1)
    (Parser.exprStmt (fuel + 1)) c (Passed fun b ts _ => ∃ e s us semicolon,
      b = Stmt.exprStmt s e ∧ ts = us ++ [semicolon] ∧ Derives .expression us (.expr e) ∧
        semicolon.kind = .mark .semicolon) := by
  rw [Parser.exprStmt]
  have hs := soundAt fuel
  refine .current (.bind ((ih.expression before c).within fun _ h => by omega)
    ((hs.expression c).weaken fun h => by omega) fun e ts d => ?_)
  refine .expectMark fun semicolon i => .spanFrom fun s => .pure fun h => ?_
  exact .of (.exprStmt s e) ⟨e, s, ts, semicolon, rfl, rfl, h.1.2, h.2⟩

private theorem forStmt_succ :
    Mends file before True (c.current.kind = .keyword .for_) (32 * c.left.length + 1 ≤ fuel + 1)
      (Parser.forStmt (fuel + 1)) c (Passed YieldsStmt) := by
  rw [Parser.forStmt]
  have hs := soundAt fuel
  refine .next (fun _ _ => writable_statement) (fun h => by simp [h]) fun d => ?_
  refine .expectMark fun left e => ?_
  refine .bind ((ih.forInit _ e).within fun _ h => by omega)
    ((hs.forInit e).weaken fun h => by omega) fun init ts i => ?_
  refine .bind ((ih.expressionUnless _ _ i).within fun _ h => by omega)
    ((hs.expressionUnless _ i).weaken fun h => by omega) fun condition us j => ?_
  refine .expectMark fun semicolon k => ?_
  refine .bind ((ih.expressionUnless _ _ k).within fun _ h => by omega)
    ((hs.expressionUnless _ k).weaken fun h => by omega) fun step vs l => ?_
  refine .expectMark fun right m => ?_
  refine .bind ((ih.statement _ m).within fun _ h => by omega)
    ((hs.statement m).weaken fun h => by omega) fun body ws n =>
      .spanFrom fun s => .pure fun h => ?_
  obtain ⟨⟨⟨⟨⟨⟨⟨ht, hleft⟩, hinit⟩, hcond⟩, hsemi⟩, hstep⟩, hright⟩, hbody⟩ := h
  have hfor := Derives.for_ (s := s) ht hleft hinit hcond hsemi hstep hright hbody.1
  exact .statement (by simpa using hfor)

private theorem forInit_succ : Mends file before True True (32 * c.left.length + 18 ≤ fuel + 1)
    (Parser.forInit (fuel + 1)) c (Passed (Yields .forInit .init)) := by
  rw [Parser.forInit]
  have hs := soundAt fuel
  refine .peek ?_
  split <;> rename_i ht
  · refine .next (fun _ _ => writable_forInit) (fun _ => by simp [ht]) fun d => .pure fun _ => ?_
    exact .of none (Derives.noInit ht)
  · refine .map ((ih.varDecl before c).weaken (fun _ => ht) fun _ h => by omega)
      ((hs.varDecl c).weaken fun h => ⟨by omega, ht⟩) fun b ts d _ h => ?_
    exact .of (some b) (Derives.varInit h)
  · refine .map ((ih.exprStmt before c).within fun _ h => by omega)
      ((hs.exprStmt c).weaken fun h => by omega) fun b ts d _ h => ?_
    obtain ⟨e, s, us, semicolon, rfl, rfl, he, hsemicolon⟩ := h
    exact .of _ (Derives.exprInit (s := s) he hsemicolon)

private theorem ifStmt_succ :
    Mends file before True (c.current.kind = .keyword .if_) (32 * c.left.length + 1 ≤ fuel + 1)
      (Parser.ifStmt (fuel + 1)) c (Passed YieldsStmt) := by
  rw [Parser.ifStmt]
  have hs := soundAt fuel
  refine .next (fun _ _ => writable_statement) (fun h => by simp [h]) fun d => ?_
  refine .expectMark fun left e => ?_
  refine .bind ((ih.expression _ e).within fun _ h => by omega)
    ((hs.expression e).weaken fun h => by omega) fun condition ts i => .expectMark fun right j => ?_
  refine .bind ((ih.statement _ j).within fun _ h => by omega)
    ((hs.statement j).weaken fun h => by omega) fun yes us k => ?_
  have hthen (h : ((((c.current.kind = .keyword .if_ ∧ left.kind = .mark .leftParen) ∧
      Yields .expression .expr condition ts i) ∧ right.kind = .mark .rightParen) ∧
      YieldsStmt yes us k)) :
      Passed YieldsStmt (c.current :: left :: (ts ++ right :: us)) := by
    obtain ⟨⟨⟨⟨ht, hleft⟩, hcond⟩, hright⟩, hyes, -⟩ := h
    exact .statement (.if_ (s := .blank) ht hleft hcond hright hyes)
  refine .accept (G := True) (by decide) (fun h _ => .nil (by simpa using hthen h)) (fun l => ?_)
    (.spanFrom fun s => .pure fun h => by simpa using hthen h.1)
  refine .bind ((ih.statement _ l).within fun _ h => by omega)
    ((hs.statement l).weaken fun h => by omega) fun no vs m => .spanFrom fun s => .pure fun h => ?_
  obtain ⟨⟨⟨⟨⟨⟨ht, hleft⟩, hcond⟩, hright⟩, hyes⟩, helse⟩, hno⟩ := h
  have hclosed : yes.endsOpen = false := by
    rw [← Bool.not_eq_true]
    exact fun hopen => hyes.2 hopen helse
  have hif := Derives.ifElse (s := s) ht hleft hcond hright hyes.1 hclosed helse hno.1
  exact .statement (by simpa using hif)

private theorem whileStmt_succ :
    Mends file before True (c.current.kind = .keyword .while_) (32 * c.left.length + 1 ≤ fuel + 1)
      (Parser.whileStmt (fuel + 1)) c (Passed YieldsStmt) := by
  rw [Parser.whileStmt]
  have hs := soundAt fuel
  refine .next (fun _ _ => writable_statement) (fun h => by simp [h]) fun d => ?_
  refine .expectMark fun left e => ?_
  refine .bind ((ih.expression _ e).within fun _ h => by omega)
    ((hs.expression e).weaken fun h => by omega) fun condition ts i => .expectMark fun right j => ?_
  refine .bind ((ih.statement _ j).within fun _ h => by omega)
    ((hs.statement j).weaken fun h => by omega) fun body us k =>
      .spanFrom fun s => .pure fun h => ?_
  obtain ⟨⟨⟨⟨ht, hleft⟩, hcond⟩, hright⟩, hbody⟩ := h
  exact .statement (by simpa using Derives.while_ (s := s) ht hleft hcond hright hbody.1)

omit before c in
private theorem succ : MendsAt file (fuel + 1) where
  expression before c := ih.expression_succ before c
  conditional before c := ih.conditional_succ before c
  chain tier before c := ih.chain_succ before c tier
  chainAfter tier left ts before c := ih.chainAfter_succ before c tier left ts
  operand tier before c := ih.operand_succ before c tier
  unary before c := ih.unary_succ before c
  callAfter head ts before c := ih.callAfter_succ before c head ts
  arguments before c := ih.arguments_succ before c
  argumentsFrom count before c := ih.argumentsFrom_succ before c count
  primary before c := ih.primary_succ before c
  blockBody before c := ih.blockBody_succ before c
  declarations closing before c := ih.declarations_succ before c closing
  declaration before c := ih.declaration_succ before c
  classDecl before c := ih.classDecl_succ before c
  members before c := ih.members_succ before c
  funDecl start role before c := ih.funDecl_succ before c start role
  varDecl before c := ih.varDecl_succ before c
  initializer before c := ih.initializer_succ before c
  statement before c := ih.statement_succ before c
  expressionUnless mark before c := ih.expressionUnless_succ before c mark
  exprStmt before c := ih.exprStmt_succ before c
  forStmt before c := ih.forStmt_succ before c
  forInit before c := ih.forInit_succ before c
  ifStmt before c := ih.ifStmt_succ before c
  whileStmt before c := ih.whileStmt_succ before c

end MendsAt

theorem mendsAt (file : Text) (fuel : Nat) : MendsAt file fuel := by
  induction fuel with
  | zero => exact mendsAt_zero
  | succ fuel ih => exact ih.succ

end Lox.Parser
