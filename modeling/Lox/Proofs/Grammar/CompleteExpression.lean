import Lox.Proofs.Grammar.Bare
import Lox.Proofs.Grammar.Reader

set_option autoImplicit false
set_option relaxedAutoImplicit false

namespace Lox

namespace Grammar

open Lox.Parser

def binding : Token.Kind → Nat
  | .mark .leftParen | .mark .dot => 9
  | .mark .star | .mark .slash => 8
  | .mark .plus | .mark .minus => 7
  | .mark .greater | .mark .greaterEqual | .mark .less | .mark .lessEqual => 6
  | .mark .equalEqual | .mark .bangEqual => 5
  | .keyword .and_ => 4
  | .keyword .or_ => 3
  | .mark .question => 2
  | .mark .equal => 1
  | _ => 0

def tierBinding : Tier → Nat
  | .or => 3
  | .and => 4
  | .equality => 5
  | .comparison => 6
  | .term => 7
  | .factor => 8

private theorem IsOperator.binding_eq {tier : Tier} {kind : Token.Kind} {op : Operator}
    (h : IsOperator tier kind op) : binding kind = tierBinding tier := by
  cases h <;> rfl

private theorem IsOperator.operator?_eq {tier : Tier} {kind : Token.Kind} {op : Operator}
    (h : IsOperator tier kind op) : tier.operator? kind = some op := by
  cases h <;> rfl

private theorem operator?_eq_none {tier : Tier} {kind : Token.Kind}
    (h : binding kind < tierBinding tier) :
    tier.operator? kind = none := by
  cases hop : tier.operator? kind with
  | none => rfl
  | some op =>
    have hbinding := (isOperator_of_operator? hop).binding_eq
    omega

/-- At a sufficient depth a reader passes exactly some tokens, if the token behind them is as told.
-/
def Reads {α : Type} (p : Nat → Parser α) (rank : Nat) (ts : List Token) (follow : Token → Prop)
    (Q : α → Prop) : Prop :=
  ∀ fuel c u us, c.left = ts ++ u :: us → follow u → 32 * ts.length + rank ≤ fuel →
    Runs (p fuel) c (u :: us) Q

theorem Reads.before {α : Type} {p : Nat → Parser α} {rank : Nat} {ts l : List Token}
    {follow : Token → Prop} {Q : α → Prop} {c : Cursor} (h : Reads p rank ts follow Q) (fuel : Nat)
    (hc : c.left = ts ++ l) (hl : l ≠ []) (hfollow : ∀ v vs, l = v :: vs → follow v)
    (hfuel : 32 * ts.length + rank ≤ fuel) : Runs (p fuel) c l Q := by
  cases l with
  | nil => exact absurd rfl hl
  | cons v vs => exact h fuel c v vs hc (hfollow v vs rfl) hfuel

/-- Reading passes some tokens and comes, at a lesser depth, to the loop `after` behind them: it
ends as this loop does. -/
def ReadsTo (p : Nat → Parser Expr) (after : Nat → Expr → Parser Expr) (rank : Nat)
    (ts : List Token) (follow : Token → Prop) (e : Expr) : Prop :=
  ∀ fuel c u us, c.left = ts ++ u :: us → follow u → 32 * ts.length + rank ≤ fuel →
    ∀ l Q, (∀ fuel' e' c', fuel ≤ fuel' + ts.length → c'.left = u :: us → e'.bare = e.bare →
      Runs (after fuel' e') c' l Q) → Runs (p fuel) c l Q

def calls (fuel : Nat) : Parser Expr := primary fuel >>= callAfter fuel

def Complete : Sym → List Token → Node → Prop
  | .expression, ts, .expr e =>
    Reads expression 16 ts (fun u => binding u.kind < 1) fun e' => e'.bare = e.bare
  | .conditional, ts, .expr e =>
    Reads conditional 15 ts (fun u => binding u.kind < 2) fun e' => e'.bare = e.bare
  | .tier tier, ts, .expr e =>
    ReadsTo (chain · tier) (chainAfter · tier) (tierDepth tier) ts
      (fun u => binding u.kind ≤ tierBinding tier) e
  | .unary, ts, .expr e =>
    Reads unary 2 ts (fun u => binding u.kind < 9) fun e' => e'.bare = e.bare
  | .call, ts, .expr e => ReadsTo calls callAfter 1 ts (fun _ => True) e
  | .arguments, ts, .exprs es =>
    es.length ≤ maxArgs → Reads arguments 18 ts (fun _ => True) fun r =>
      Expr.bareAll r.1 = Expr.bareAll es
  | .argumentList, ts, .exprs es =>
    ∀ count, count + es.length ≤ maxArgs →
      Reads (argumentsFrom · count) 17 ts (fun _ => True) fun r =>
        Expr.bareAll r.1 = Expr.bareAll es
  | .primary, ts, .expr e => Reads primary 1 ts (fun _ => True) fun e' => e'.bare = e.bare
  | .block, ts, .stmts body =>
    ∃ left us, ts = left :: us ∧ left.kind = .mark .leftBrace ∧
      Reads blockBody 21 us (fun _ => True) fun body' => Stmt.bareAll body' = Stmt.bareAll body
  | .declarations, ts, .stmts body =>
    ∀ closing, closing = none ∨ closing = some .rightBrace →
      Reads (declarations · closing) 20 ts
        (fun u => (u.kind == .eof || closing.any fun m => u.kind == .mark m) = true)
        fun body' => Stmt.bareAll body' = Stmt.bareAll body
  | .declaration, ts, .stmt b =>
    Reads declaration 19 ts (fun u => u.kind ≠ .keyword .else_) fun b' => b'.bare = b.bare
  | .variable_, ts, .stmt b => Reads varDecl 1 ts (fun _ => True) fun b' => b'.bare = b.bare
  | .function, ts, .function d =>
    ∀ start role, Reads (funDecl · start role) 1 ts (fun _ => True) fun d' => d'.bare = d.bare
  | .members, ts, .members methods statics =>
    Reads members 2 ts (fun u => u.kind = .mark .rightBrace) fun r =>
      FunDecl.bareAll r.1 = FunDecl.bareAll methods ∧ FunDecl.bareAll r.2 = FunDecl.bareAll statics
  | .statement, ts, .stmt b =>
    Reads statement 18 ts (fun u => b.endsOpen = true → u.kind ≠ .keyword .else_) fun b' =>
      b'.bare = b.bare
  | .forInit, ts, .init b =>
    Reads forInit 18 ts (fun _ => True) fun b' => Stmt.bareOption b' = Stmt.bareOption b
  | .clause, ts, .clause e =>
    ∀ mark, mark = .semicolon ∨ mark = .rightParen →
      Reads (expressionUnless · mark) 17 ts (fun u => u.kind = .mark mark) fun e' =>
        Expr.bareOption e' = Expr.bareOption e
  | _, _, _ => False

section Expressions

-- Their equations are derived here, once, and not by all the proofs below that rewrite with them.
attribute [local simp] expression conditional chain chainAfter operand unary callAfter arguments
  argumentsFrom primary

variable {ts us vs : List Token} {e : Expr}

private theorem tierDepth_pos (tier : Tier) : 1 < tierDepth tier := by
  cases tier <;> decide

private theorem reads_chain {tier : Tier} (h : Complete (.tier tier) ts (.expr e)) :
    Reads (chain · tier) (tierDepth tier) ts (fun u => binding u.kind < tierBinding tier)
      fun e' => e'.bare = e.bare := by
  intro fuel c u us hc hu hfuel
  refine h fuel c u us hc (Nat.le_of_lt hu) hfuel _ _ fun fuel' e' c' hle hl he => ?_
  have hdepth := tierDepth_pos tier
  cases fuel' with
  | zero => omega
  | succ fuel' =>
    show Runs (chainAfter (fuel' + 1) tier e') c' _ _
    rw [chainAfter]
    refine .peek hl ?_
    rw [operator?_eq_none hu]
    exact .pure hl he

private theorem reads_operand {tier : Tier} (h : Complete (operandOf tier) ts (.expr e)) :
    Reads (operand · tier) (tierDepth tier - 1) ts (fun u => binding u.kind ≤ tierBinding tier)
      fun e' => e'.bare = e.bare := by
  intro fuel c u us hc hu hfuel
  have hdepth := tierDepth_pos tier
  cases fuel with
  | zero => omega
  | succ fuel =>
    show Runs (operand (fuel + 1) tier) c (u :: us) _
    rw [operand]
    cases tier <;> simp only [tierDepth, tierBinding] at hfuel hu
    case factor => exact h fuel c u us hc (Nat.lt_succ_of_le hu) (by omega)
    all_goals
      refine reads_chain h fuel c u us hc (Nat.lt_succ_of_le hu) ?_
      simp only [tierDepth]
      omega

theorem complete_operand {tier : Tier} (hne : ts ≠ [])
    (h : Complete (operandOf tier) ts (.expr e)) : Complete (.tier tier) ts (.expr e) := by
  intro fuel c u us hc hu hfuel l Q hafter
  have hdepth := tierDepth_pos tier
  have hlen := List.length_pos_iff.2 hne
  cases fuel with
  | zero => omega
  | succ fuel =>
    show Runs (chain (fuel + 1) tier) c l Q
    rw [chain]
    refine .bind (reads_operand h fuel c u us hc hu (by omega)) fun e' c₁ h₁ he => ?_
    exact hafter fuel e' c₁ (by omega) h₁ he

theorem complete_chain {tier : Tier} {token : Token} {op : Operator} {a b : Expr} {s : Span}
    (ha : Complete (.tier tier) ts (.expr a)) (hop : IsOperator tier token.kind op)
    (hb : Complete (operandOf tier) us (.expr b)) :
    Complete (.tier tier) (ts ++ token :: us) (.expr (combine s a b op)) := by
  intro fuel c u vs hc hu hfuel l Q hafter
  have hdepth := tierDepth_pos tier
  simp only [List.append_assoc, List.cons_append] at hc
  simp only [List.length_append, List.length_cons] at hfuel hafter
  refine ha fuel c token _ hc (Nat.le_of_eq hop.binding_eq) (by omega) l Q ?_
  intro fuel' a' c₁ hle h₁ ha'
  cases fuel' with
  | zero => omega
  | succ fuel' =>
    show Runs (chainAfter (fuel' + 1) tier a') c₁ l Q
    rw [chainAfter]
    refine .peek h₁ ?_
    rw [hop.operator?_eq]
    refine .next h₁ (by simp) fun c₂ h₂ => ?_
    refine .bind (reads_operand hb fuel' c₂ u vs h₂ hu (by omega)) fun b' c₃ h₃ hb' => ?_
    refine hafter fuel' (op.apply a' b') c₃ (by omega) h₃ ?_
    rw [apply_eq_combine]
    cases op <;> simp [combine, ha', hb']

theorem complete_plain (h : Complete (.tier .or) ts (.expr e)) :
    Complete .conditional ts (.expr e) := by
  intro fuel c u us hc hu hfuel
  cases fuel with
  | zero => omega
  | succ fuel =>
    rw [conditional]
    have hor := reads_chain h fuel c u us hc (Nat.lt_succ_of_lt hu) (Nat.le_of_succ_le_succ hfuel)
    refine .bind hor fun e' c₁ h₁ he => ?_
    have hother : u.kind ≠ .mark .question := by
      intro hq
      rw [hq] at hu
      exact absurd hu (by decide)
    exact .accept_other h₁ hother (.pure h₁ he)

theorem complete_choice {question colon : Token} {a b : Expr} {s : Span}
    (hc : Complete (.tier .or) ts (.expr e)) (hq : question.kind = .mark .question)
    (ha : Complete .expression us (.expr a)) (hcolon : colon.kind = .mark .colon)
    (hb : Complete .conditional vs (.expr b)) :
    Complete .conditional (ts ++ question :: (us ++ colon :: vs))
      (.expr (.conditional s e a b)) := by
  intro fuel c u ws hleft hu hfuel
  simp only [List.append_assoc, List.cons_append] at hleft
  simp only [List.length_append, List.length_cons] at hfuel
  cases fuel with
  | zero => omega
  | succ fuel =>
    rw [conditional]
    have hor := reads_chain hc fuel c question _ hleft (by simp only [hq]; decide)
      (by simp only [tierDepth]; omega)
    refine .bind hor fun e' c₁ h₁ he => .accept h₁ (by simp) hq fun c₂ h₂ => ?_
    refine .bind (ha fuel c₂ colon _ h₂ (by simp only [hcolon]; decide) (by omega))
      fun a' c₃ h₃ ha' => ?_
    refine .expectMark h₃ (by simp) hcolon fun c₄ h₄ => ?_
    exact .map (hb fuel c₄ u ws h₄ hu (by omega)) fun b' hb' => by simp [he, ha', hb']

theorem complete_unary {t : Token} {op : UnaryOp} {s : Span}
    (ht : t.kind = .mark .bang ∧ op = .not ∨ t.kind = .mark .minus ∧ op = .negate)
    (h : Complete .unary ts (.expr e)) : Complete .unary (t :: ts) (.expr (.unary s op e)) := by
  intro fuel c u us hc hu hfuel
  simp only [List.length_cons] at hfuel
  cases fuel with
  | zero => omega
  | succ fuel =>
    rw [unary]
    refine .current hc ?_
    obtain ⟨ht, rfl⟩ | ⟨ht, rfl⟩ := ht
    all_goals
      rw [ht]
      refine .next hc (by simp) fun c₁ h₁ => ?_
      exact .map (h fuel c₁ u us h₁ hu (by omega)) fun e' he => by simp [he]

theorem complete_called (hstarts : Starts .call ts) (h : Complete .call ts (.expr e)) :
    Complete .unary ts (.expr e) := by
  intro fuel c u us hc hu hfuel
  obtain ⟨t, ws, rfl, ht, -⟩ := hstarts
  cases fuel with
  | zero => omega
  | succ fuel =>
    rw [unary]
    refine .current hc ?_
    have hcalls : Runs (calls fuel) c (u :: us) fun e' => e'.bare = e.bare := by
      refine h fuel c u us hc trivial (by omega) _ _ fun fuel' e' c₁ hle h₁ he => ?_
      cases fuel' with
      | zero => omega
      | succ fuel' =>
        rw [callAfter]
        refine .peek h₁ ?_
        split
        · rename_i hk
          rw [hk] at hu
          exact absurd hu (by decide)
        · rename_i hk
          rw [hk] at hu
          exact absurd hu (by decide)
        · exact .pure h₁ he
    split
    · rename_i hk
      rw [hk] at ht
      exact absurd ht (by decide)
    · rename_i hk
      rw [hk] at ht
      exact absurd ht (by decide)
    · exact hcalls

theorem complete_head (h : Complete .primary ts (.expr e)) : Complete .call ts (.expr e) := by
  intro fuel c u us hc hu hfuel l Q hafter
  refine .bind (h fuel c u us hc trivial hfuel) fun e' c₁ h₁ he => ?_
  exact hafter fuel e' c₁ (Nat.le_add_right _ _) h₁ he

theorem complete_apply {left : Token} {args : List Expr} {s : Span}
    (hf : Complete .call ts (.expr e)) (hleft : left.kind = .mark .leftParen)
    (hargs : Complete .arguments us (.exprs args)) (hlen : args.length ≤ maxArgs) :
    Complete .call (ts ++ left :: us) (.expr (.call s e args)) := by
  intro fuel c u vs hc hu hfuel l Q hafter
  simp only [List.append_assoc, List.cons_append] at hc
  simp only [List.length_append, List.length_cons] at hfuel hafter
  refine hf fuel c left _ hc trivial (by omega) l Q fun fuel' f' c₁ hle h₁ hf' => ?_
  cases fuel' with
  | zero => omega
  | succ fuel' =>
    rw [callAfter]
    refine .peek h₁ ?_
    rw [hleft]
    refine .next h₁ (by simp) fun c₂ h₂ => ?_
    refine .bind (hargs hlen fuel' c₂ u vs h₂ trivial (by omega)) fun r c₃ h₃ hr => ?_
    obtain ⟨args', stop⟩ := r
    exact hafter fuel' _ c₃ (by omega) h₃ (by simpa [hf'] using hr)

theorem complete_get {dot name : Token} {s : Span} (ho : Complete .call ts (.expr e))
    (hdot : dot.kind = .mark .dot) (hname : name.kind = .name) :
    Complete .call (ts ++ [dot, name]) (.expr (.get s e name.text)) := by
  intro fuel c u vs hc hu hfuel l Q hafter
  simp only [List.append_assoc, List.cons_append, List.nil_append] at hc
  simp only [List.length_append, List.length_cons, List.length_nil] at hfuel hafter
  refine ho fuel c dot _ hc trivial (by omega) l Q fun fuel' o' c₁ hle h₁ ho' => ?_
  cases fuel' with
  | zero => omega
  | succ fuel' =>
    rw [callAfter]
    refine .peek h₁ ?_
    rw [hdot]
    refine .next h₁ (by simp) fun c₂ h₂ => .expect h₂ (by simp) hname fun c₃ h₃ => ?_
    exact hafter fuel' _ c₃ (by omega) h₃ (by simp [ho'])

private theorem complete_conditional_of_call (hd : Derives .call ts (.expr e))
    (h : Complete .call ts (.expr e)) : Complete .conditional ts (.expr e) := by
  have hstarts := hd.starts (by decide)
  have hne : ts ≠ [] := by
    obtain ⟨t, us, rfl, -⟩ := hstarts
    exact List.cons_ne_nil t us
  have hfactor : Complete (.tier .factor) ts (.expr e) :=
    complete_operand hne (complete_called hstarts h)
  have hterm : Complete (.tier .term) ts (.expr e) := complete_operand hne hfactor
  have hcomparison : Complete (.tier .comparison) ts (.expr e) := complete_operand hne hterm
  have hequality : Complete (.tier .equality) ts (.expr e) := complete_operand hne hcomparison
  have hand : Complete (.tier .and) ts (.expr e) := complete_operand hne hequality
  exact complete_plain (complete_operand hne hand)

theorem complete_simple (h : Complete .conditional ts (.expr e)) :
    Complete .expression ts (.expr e) := by
  intro fuel c u us hc hu hfuel
  cases fuel with
  | zero => omega
  | succ fuel =>
    rw [expression]
    refine .bind (h fuel c u us hc (Nat.lt_succ_of_lt hu) (by omega)) fun e' c₁ h₁ he => .peek h₁ ?_
    have hother : u.kind ≠ .mark .equal := by
      intro hq
      rw [hq] at hu
      exact absurd hu (by decide)
    rw [if_neg hother]
    exact .pure h₁ he

theorem complete_name {t : Token} {s : Span} (ht : t.kind = .name) :
    Complete .primary [t] (.expr (.name { span := s, name := t.text, hops := none })) := by
  intro fuel c u us hc hu hfuel
  cases fuel with
  | zero => omega
  | succ fuel =>
    rw [primary]
    refine .current hc ?_
    rw [ht]
    exact .next hc (by simp) fun c₁ h₁ => .pure h₁ (by simp)

theorem complete_assignName {name equal : Token} {s : Span} (hn : name.kind = .name)
    (hequal : equal.kind = .mark .equal) (h : Complete .expression ts (.expr e)) :
    Complete .expression (name :: equal :: ts)
      (.expr (.assign { span := s, name := name.text, hops := none } e)) := by
  intro fuel c u us hc hu hfuel
  simp only [List.length_cons] at hfuel
  cases fuel with
  | zero => omega
  | succ fuel =>
    have hname := complete_conditional_of_call (.head (.name (s := s) hn))
      (complete_head (complete_name hn))
    rw [expression]
    refine .bind (hname fuel c equal _ hc (by simp only [hequal]; decide) ?_) fun e' c₁ h₁ he => ?_
    · simp only [List.length_singleton]
      omega
    obtain ⟨s', rfl⟩ := Expr.bare_eq_name he
    refine .peek h₁ ?_
    rw [if_pos hequal]
    refine .next h₁ (by simp) fun c₂ h₂ => ?_
    exact .map (h fuel c₂ u us h₂ hu (by omega)) fun v hv => by simp [hv]

theorem complete_assignField {dot name equal : Token} {value : Expr} {s : Span}
    (hd : Derives .call ts (.expr e)) (ho : Complete .call ts (.expr e))
    (hdot : dot.kind = .mark .dot) (hn : name.kind = .name) (hequal : equal.kind = .mark .equal)
    (hv : Complete .expression us (.expr value)) :
    Complete .expression (ts ++ dot :: name :: equal :: us)
      (.expr (.set s e name.text value)) := by
  intro fuel c u vs hc hu hfuel
  simp only [List.append_assoc, List.cons_append] at hc
  simp only [List.length_append, List.length_cons] at hfuel
  have hc' : c.left = (ts ++ [dot, name]) ++ equal :: (us ++ u :: vs) := by simpa using hc
  cases fuel with
  | zero => omega
  | succ fuel =>
    have hget := complete_conditional_of_call (.get (s := s) hd hdot hn) (complete_get ho hdot hn)
    rw [expression]
    refine .bind (hget fuel c equal _ hc' (by simp only [hequal]; decide) ?_) fun e' c₁ h₁ he => ?_
    · simp only [List.length_append, List.length_cons, List.length_nil]
      omega
    obtain ⟨s', o', rfl, ho'⟩ := Expr.bare_eq_get he
    refine .peek h₁ ?_
    rw [if_pos hequal]
    refine .next h₁ (by simp) fun c₂ h₂ => ?_
    exact .map (hv fuel c₂ u vs h₂ hu (by omega)) fun v hv => by simp [ho', hv]

theorem complete_noArguments {right : Token} (ht : right.kind = .mark .rightParen) :
    Complete .arguments [right] (.exprs []) := by
  intro _ fuel c u us hc hu hfuel
  cases fuel with
  | zero => omega
  | succ fuel =>
    rw [arguments]
    refine .peek hc ?_
    rw [if_pos ht]
    exact .next hc (by simp) fun c₁ h₁ => .pure h₁ (by simp)

theorem complete_someArguments {es : List Expr} (hstarts : Starts .argumentList ts)
    (h : Complete .argumentList ts (.exprs es)) : Complete .arguments ts (.exprs es) := by
  intro hlen fuel c u us hc hu hfuel
  obtain ⟨t, vs, rfl, ht, -⟩ := hstarts
  cases fuel with
  | zero => omega
  | succ fuel =>
    rw [arguments]
    refine .peek hc ?_
    have hother : t.kind ≠ .mark .rightParen := by
      intro hk
      rw [hk] at ht
      exact absurd ht (by decide)
    rw [if_neg hother]
    exact h 0 (by omega) fuel c u us hc hu (by omega)

theorem complete_lastArgument {right : Token} (h : Complete .expression ts (.expr e))
    (ht : right.kind = .mark .rightParen) :
    Complete .argumentList (ts ++ [right]) (.exprs [e]) := by
  intro count hcount fuel c u us hc hu hfuel
  simp only [List.append_assoc, List.cons_append, List.nil_append] at hc
  simp only [List.length_append, List.length_singleton] at hfuel hcount
  cases fuel with
  | zero => omega
  | succ fuel =>
    show Runs (argumentsFrom (fuel + 1) count) c _ _
    rw [argumentsFrom, if_neg (by omega)]
    refine .bind (h fuel c right _ hc (by simp only [ht]; decide) (by omega)) fun e' c₁ h₁ he => ?_
    refine .accept_other h₁ (by simp [ht]) (.expectMark h₁ (by simp) ht fun c₂ h₂ => ?_)
    exact .pure h₂ (by simp [he])

theorem complete_moreArguments {comma : Token} {es : List Expr}
    (h : Complete .expression ts (.expr e)) (ht : comma.kind = .mark .comma)
    (hes : Complete .argumentList us (.exprs es)) :
    Complete .argumentList (ts ++ comma :: us) (.exprs (e :: es)) := by
  intro count hcount fuel c u vs hc hu hfuel
  simp only [List.append_assoc, List.cons_append] at hc
  simp only [List.length_append, List.length_cons] at hfuel hcount
  cases fuel with
  | zero => omega
  | succ fuel =>
    show Runs (argumentsFrom (fuel + 1) count) c _ _
    rw [argumentsFrom, if_neg (by omega)]
    refine .bind (h fuel c comma _ hc (by simp only [ht]; decide) (by omega)) fun e' c₁ h₁ he => ?_
    refine .accept h₁ (by simp) ht fun c₂ h₂ => ?_
    refine .bind (hes (count + 1) (by omega) fuel c₂ u vs h₂ trivial (by omega)) fun r c₃ h₃ hr =>
      ?_
    obtain ⟨args, stop⟩ := r
    exact .pure h₃ (by simpa [he] using hr)

theorem complete_literal {t : Token} {s : Span} {value : Literal}
    (h : t.kind = .keyword .false_ ∧ value = .bool false ∨
      t.kind = .keyword .true_ ∧ value = .bool true ∨ t.kind = .keyword .nil_ ∧ value = .nil ∨
      t.kind = .string ∧ value = .string t.text) :
    Complete .primary [t] (.expr (.literal s value)) := by
  intro fuel c u us hc hu hfuel
  cases fuel with
  | zero => omega
  | succ fuel =>
    rw [primary]
    refine .current hc ?_
    obtain ⟨ht, rfl⟩ | ⟨ht, rfl⟩ | ⟨ht, rfl⟩ | ⟨ht, rfl⟩ := h
    all_goals
      rw [ht]
      exact .next hc (by simp) fun c₁ h₁ => .pure h₁ (by simp)

theorem complete_number {t : Token} {s : Span} {x : Float} (ht : t.kind = .number)
    (hx : Decimal.read? t.text = some x) :
    Complete .primary [t] (.expr (.literal s (.number x))) := by
  intro fuel c u us hc hu hfuel
  cases fuel with
  | zero => omega
  | succ fuel =>
    rw [primary]
    refine .current hc ?_
    rw [ht]
    refine .next hc (by simp) fun c₁ h₁ => ?_
    rw [hx]
    exact .pure h₁ (by simp)

theorem complete_this {t : Token} {s : Span} (ht : t.kind = .keyword .this_) :
    Complete .primary [t] (.expr (.this s none)) := by
  intro fuel c u us hc hu hfuel
  cases fuel with
  | zero => omega
  | succ fuel =>
    rw [primary]
    refine .current hc ?_
    rw [ht]
    exact .next hc (by simp) fun c₁ h₁ => .pure h₁ (by simp)

theorem complete_super {t dot name : Token} {s : Span} (ht : t.kind = .keyword .super_)
    (hdot : dot.kind = .mark .dot) (hn : name.kind = .name) :
    Complete .primary [t, dot, name] (.expr (.super s name.text none)) := by
  intro fuel c u us hc hu hfuel
  cases fuel with
  | zero => omega
  | succ fuel =>
    rw [primary]
    refine .current hc ?_
    rw [ht]
    refine .next hc (by simp) fun c₁ h₁ => .expectMark h₁ (by simp) hdot fun c₂ h₂ => ?_
    exact .expect h₂ (by simp) hn fun c₃ h₃ => .pure h₃ (by simp)

theorem complete_group {left right : Token} {s : Span} (hl : left.kind = .mark .leftParen)
    (h : Complete .expression ts (.expr e)) (hr : right.kind = .mark .rightParen) :
    Complete .primary (left :: (ts ++ [right])) (.expr (.grouping s e)) := by
  intro fuel c u us hc hu hfuel
  simp only [List.append_assoc, List.cons_append, List.nil_append] at hc
  simp only [List.length_append, List.length_cons, List.length_nil] at hfuel
  cases fuel with
  | zero => omega
  | succ fuel =>
    rw [primary]
    refine .current hc ?_
    rw [hl]
    refine .next hc (by simp) fun c₁ h₁ => ?_
    refine .bind (h fuel c₁ right _ h₁ (by simp only [hr]; decide) (by omega)) fun e' c₂ h₂ he => ?_
    exact .expectMark h₂ (by simp) hr fun c₃ h₃ => .spanFrom fun s' => .pure h₃ (by simp [he])

end Expressions

end Grammar
end Lox
