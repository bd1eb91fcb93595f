import Lox.Proofs.Grammar.CompleteExpression

set_option autoImplicit false
set_option relaxedAutoImplicit false

namespace Lox

namespace Grammar

open Lox.Parser

-- Their equations are derived here, once, and not by all the proofs below that rewrite with them.
attribute [local simp] paramsFrom params primary funDecl members
  declarations blockBody superclassUse
  declaration classDecl varDecl initializer expressionUnless exprStmt
    statement forInit forStmt ifStmt
  whileStmt

section Functions

private theorem reads_paramsFrom {ts : List Token} {ps : List Param}
    (h : IsParamList ts ps) (count fuel : Nat)
    (c : Cursor) (u : Token) (us : List Token) (hc : c.left = ts ++ u :: us)
    (hcount : count + ps.length ≤ maxArgs) (hfuel : ts.length ≤ fuel) :
    Runs (paramsFrom fuel count) c (u :: us) fun ps' => ps'.map Param.bare = ps.map Param.bare := by
  induction h generalizing count fuel c with
  | last hname hclose =>
    simp only [List.length_cons, List.length_nil] at hfuel hcount
    cases fuel with
    | zero => omega
    | succ fuel =>
      rw [paramsFrom, if_neg (by omega)]
      refine .expect hc (by simp) hname fun c₁ h₁ => .accept_other h₁ (by simp [hclose]) ?_
      exact .expectMark h₁ (by simp) hclose fun c₂ h₂ => .pure h₂ (by simp)
  | more hname hcomma _ ih =>
    simp only [List.length_cons] at hfuel hcount
    cases fuel with
    | zero => omega
    | succ fuel =>
      rw [paramsFrom, if_neg (by omega)]
      refine .expect hc (by simp) hname fun c₁ h₁ => .accept h₁ (by simp) hcomma fun c₂ h₂ => ?_
      exact .map (ih (count + 1) fuel c₂ h₂ (by omega) (by omega)) fun ps' hps => by simpa using hps

private theorem IsParamList.starts {ts : List Token} {ps : List Param} (h : IsParamList ts ps) :
    ∃ t us, ts = t :: us ∧ t.kind = .name := by
  cases h with
  | last hname _ => exact ⟨_, _, rfl, hname⟩
  | more hname _ _ => exact ⟨_, _, rfl, hname⟩

private theorem reads_params {ts : List Token} {ps : List Param} (h : IsParams ts ps) :
    ∃ left us, ts = left :: us ∧ left.kind = .mark .leftParen ∧
      Reads params 0 us (fun _ => True) fun ps' => ps'.map Param.bare = ps.map Param.bare := by
  cases h with
  | none hl hr =>
    refine ⟨_, _, rfl, hl, fun fuel c u us hc hu hfuel => ?_⟩
    rw [params]
    exact .accept hc (by simp) hr fun c₁ h₁ => .pure h₁ rfl
  | some hl hps hlen =>
    refine ⟨_, _, rfl, hl, fun fuel c u us hc hu hfuel => ?_⟩
    obtain ⟨t, vs, rfl, ht⟩ := hps.starts
    rw [params]
    refine .accept_other hc (by simp [ht]) ?_
    exact reads_paramsFrom hps 0 fuel c u us hc (by omega) (by omega)

theorem complete_lambda {t : Token} {ts us : List Token} {ps : List Param} {body : List Stmt}
    {s : Span} (ht : t.kind = .keyword .fun_) (hps : IsParams ts ps)
    (hbody : Complete .block us (.stmts body)) :
    Complete .primary (t :: (ts ++ us)) (.expr (.lambda s ps body)) := by
  obtain ⟨left, vs, rfl, hleft, hparams⟩ := reads_params hps
  obtain ⟨brace, ws, rfl, hbrace, hblock⟩ := hbody
  intro fuel c u rs hc hu hfuel
  simp only [List.append_assoc, List.cons_append] at hc
  simp only [List.length_append, List.length_cons] at hfuel
  cases fuel with
  | zero => omega
  | succ fuel =>
    rw [primary]
    refine .current hc ?_
    rw [ht]
    refine .next hc (by simp) fun c₁ h₁ => .expectMark h₁ (by simp) hleft fun c₂ h₂ => ?_
    refine .bind (hparams fuel c₂ brace _ h₂ trivial (by omega)) fun ps' c₃ h₃ hps' => ?_
    refine .expectMark h₃ (by simp) hbrace fun c₄ h₄ => ?_
    refine .bind (hblock fuel c₄ u rs h₄ trivial (by omega)) fun body' c₅ h₅ hbody' => ?_
    exact .spanFrom fun s' => .pure h₅ (by simp only [Expr.bare, hps', hbody'])

theorem complete_function {name : Token} {ts us : List Token} {ps : List Param} {body : List Stmt}
    {s : Span} (hname : name.kind = .name) (hps : IsParams ts ps)
    (hbody : Complete .block us (.stmts body)) :
    Complete .function (name :: (ts ++ us)) (.function (.mk s name.text ps body)) := by
  obtain ⟨left, vs, rfl, hleft, hparams⟩ := reads_params hps
  obtain ⟨brace, ws, rfl, hbrace, hblock⟩ := hbody
  intro start role fuel c u rs hc hu hfuel
  simp only [List.append_assoc, List.cons_append] at hc
  simp only [List.length_append, List.length_cons] at hfuel
  cases fuel with
  | zero => omega
  | succ fuel =>
    show Runs (funDecl (fuel + 1) start role) c _ _
    rw [funDecl]
    refine .expect hc (by simp) hname fun c₁ h₁ => .expectMark h₁ (by simp) hleft fun c₂ h₂ => ?_
    refine .bind (hparams fuel c₂ brace _ h₂ trivial (by omega)) fun ps' c₃ h₃ hps' => ?_
    refine .expectMark h₃ (by simp) hbrace fun c₄ h₄ => ?_
    refine .bind (hblock fuel c₄ u rs h₄ trivial (by omega)) fun body' c₅ h₅ hbody' => ?_
    exact .spanFrom fun s' => .pure h₅ (by simp only [FunDecl.bare, hps', hbody'])

theorem complete_noMembers : Complete .members [] (.members [] []) := by
  intro fuel c u us hc hu hfuel
  cases fuel with
  | zero => omega
  | succ fuel =>
    rw [members]
    refine .atListEnd hc ?_
    rw [if_pos (by simp [hu])]
    exact .pure hc (by simp)

theorem complete_method {ts us : List Token} {d : FunDecl} {methods statics : List FunDecl}
    (hstarts : Starts .function ts) (hd : Complete .function ts (.function d))
    (hrest : Complete .members us (.members methods statics)) :
    Complete .members (ts ++ us) (.members (d :: methods) statics) := by
  obtain ⟨t, vs, rfl, ht, -⟩ := hstarts
  have ht : t.kind = .name := by simpa [Sym.first] using ht
  intro fuel c u ws hc hu hfuel
  rw [List.append_assoc] at hc
  simp only [List.length_append, List.length_cons] at hfuel
  cases fuel with
  | zero => omega
  | succ fuel =>
    rw [members]
    refine .atListEnd hc ?_
    rw [if_neg (by simp [ht])]
    refine .current hc ?_
    rw [if_neg (by simp [ht])]
    have hfirst := (hd t.span .method).before fuel hc (by simp) (fun _ _ _ => trivial)
    refine .bind (hfirst (by simp only [List.length_cons]; omega)) fun d' c₁ h₁ hd' => ?_
    refine .bind (hrest fuel c₁ u ws h₁ hu (by omega)) fun r c₂ h₂ hr => ?_
    obtain ⟨methods', statics'⟩ := r
    exact .pure h₂ (by simpa [hd'] using hr)

theorem complete_static {t : Token} {ts us : List Token} {d : FunDecl}
    {methods statics : List FunDecl} (ht : t.kind = .keyword .class_)
    (hd : Complete .function ts (.function d))
    (hrest : Complete .members us (.members methods statics)) :
    Complete .members (t :: (ts ++ us)) (.members methods (d :: statics)) := by
  intro fuel c u ws hc hu hfuel
  simp only [List.cons_append, List.append_assoc] at hc
  simp only [List.length_append, List.length_cons] at hfuel
  cases fuel with
  | zero => omega
  | succ fuel =>
    rw [members]
    refine .atListEnd hc ?_
    rw [if_neg (by simp [ht])]
    refine .current hc ?_
    rw [if_pos ht]
    refine .next hc (by simp) fun c₁ h₁ => ?_
    have hfirst := (hd t.span .staticMethod).before fuel h₁ (by simp)
      (fun _ _ _ => trivial)
    refine .bind (hfirst (by omega)) fun d' c₂ h₂ hd' => ?_
    refine .bind (hrest fuel c₂ u ws h₂ hu (by omega)) fun r c₃ h₃ hr => ?_
    obtain ⟨methods', statics'⟩ := r
    exact .pure h₃ (by simpa [hd'] using hr)

theorem complete_noDeclarations : Complete .declarations [] (.stmts []) := by
  intro closing _ fuel c u us hc hu hfuel
  cases fuel with
  | zero => omega
  | succ fuel =>
    show Runs (declarations (fuel + 1) closing) c _ _
    rw [declarations]
    refine .atListEnd hc ?_
    rw [if_pos hu]
    exact .pure hc rfl

theorem complete_block {left right : Token} {ts : List Token} {body : List Stmt}
    (hl : left.kind = .mark .leftBrace) (h : Complete .declarations ts (.stmts body))
    (hr : right.kind = .mark .rightBrace) :
    Complete .block (left :: (ts ++ [right])) (.stmts body) := by
  refine ⟨left, _, rfl, hl, fun fuel c u us hc hu hfuel => ?_⟩
  simp only [List.append_assoc, List.cons_append, List.nil_append] at hc
  simp only [List.length_append, List.length_singleton] at hfuel
  cases fuel with
  | zero => omega
  | succ fuel =>
    rw [blockBody]
    have hbody :=
      h (some .rightBrace) (.inr rfl) fuel c right (u :: us) hc (by simp [hr]) (by omega)
    refine .bind hbody fun body' c₁ h₁ hbody' => ?_
    exact .expectMark h₁ (by simp) hr fun c₂ h₂ => .pure h₂ hbody'

private theorem Derives.declaration_first {ts : List Token} {b : Stmt}
    (h : Derives .declaration ts (.stmt b)) :
    ∃ t us, ts = t :: us ∧ t.kind ≠ .eof ∧ t.kind ≠ .mark .rightBrace ∧
      t.kind ≠ .keyword .else_ := by
  obtain ⟨t, us, rfl, ht, -⟩ := h.starts (by decide)
  refine ⟨t, us, rfl, ?_, ?_, ?_⟩
  all_goals
    intro hk
    rw [hk] at ht
    exact absurd ht (by decide)

theorem complete_moreDeclarations {ts us : List Token} {first : Stmt} {others : List Stmt}
    (hd : Derives .declaration ts (.stmt first)) (hds : Derives .declarations us (.stmts others))
    (hfirst : Complete .declaration ts (.stmt first))
    (hothers : Complete .declarations us (.stmts others)) :
    Complete .declarations (ts ++ us) (.stmts (first :: others)) := by
  intro closing hclosing fuel c u vs hc hu hfuel
  obtain ⟨t, ws, rfl, heof, hbrace, -⟩ := hd.declaration_first
  rw [List.append_assoc] at hc
  simp only [List.length_append, List.length_cons] at hfuel
  -- What follows the first declaration: another one, or what ends the list.
  have hfollow : ∀ v rest, us ++ u :: vs = v :: rest → v.kind ≠ .keyword .else_ := by
    intro v rest hv
    cases hds with
    | noDeclarations =>
      cases hv
      intro hk
      rw [hk] at hu
      rcases hclosing with rfl | rfl <;> exact absurd hu (by decide)
    | moreDeclarations hd' _ =>
      obtain ⟨t', ws', rfl, -, -, helse⟩ := hd'.declaration_first
      cases hv
      exact helse
  cases fuel with
  | zero => omega
  | succ fuel =>
    show Runs (declarations (fuel + 1) closing) c _ _
    rw [declarations]
    refine .atListEnd hc ?_
    have hgoes : ¬ (t.kind == .eof || closing.any fun m => t.kind == .mark m) = true := by
      rcases hclosing with rfl | rfl <;> simp [heof, hbrace]
    rw [if_neg hgoes]
    have hrun := hfirst.before fuel hc (by simp) hfollow
    refine .recover (hrun (by simp only [List.length_cons]; omega)) fun b c₁ h₁ hb => ?_
    refine .map (hothers closing hclosing fuel c₁ u vs h₁ hu (by omega)) fun bs hbs => ?_
    simp [hb, hbs]

end Functions

section Statements

variable {ts us vs ws : List Token} {e : Expr}

theorem complete_classDecl {t name left right : Token} {sup : Option NameUse}
    {methods statics : List FunDecl} {s : Span} (ht : t.kind = .keyword .class_)
    (hname : name.kind = .name) (hsup : IsSuperclass ts sup) (hleft : left.kind = .mark .leftBrace)
    (h : Complete .members us (.members methods statics))
    (hright : right.kind = .mark .rightBrace) :
    Complete .declaration (t :: name :: (ts ++ left :: (us ++ [right])))
      (.stmt (.classDecl s name.text sup methods statics)) := by
  intro fuel c u vs hc hu hfuel
  simp only [List.append_assoc, List.cons_append, List.nil_append] at hc
  simp only [List.length_append, List.length_cons, List.length_nil] at hfuel
  have hsuper : ∀ c₁ : Cursor, c₁.left = ts ++ left :: (us ++ right :: u :: vs) →
      Runs superclassUse c₁ (left :: (us ++ right :: u :: vs)) fun sup' =>
        sup'.map NameUse.bare = sup.map NameUse.bare := by
    intro c₁ h₁
    rw [superclassUse]
    cases hsup with
    | none => exact .accept_other h₁ (by simp [hleft]) (.pure h₁ rfl)
    | some hless hn =>
      refine .accept h₁ (by simp) hless fun c₂ h₂ => ?_
      exact .expect h₂ (by simp) hn fun c₃ h₃ => .pure h₃ (by simp)
  obtain ⟨fuel, rfl⟩ : ∃ n, fuel = n + 2 := ⟨fuel - 2, by omega⟩
  rw [declaration]
  refine .peek hc ?_
  rw [ht]
  show Runs (classDecl (fuel + 1)) c _ _
  rw [classDecl]
  refine .next hc (by simp) fun c₁ h₁ => .expect h₁ (by simp) hname fun c₂ h₂ => ?_
  refine .bind (hsuper c₂ h₂) fun sup' c₃ h₃ hsup' => ?_
  refine .expectMark h₃ (by simp) hleft fun c₄ h₄ => ?_
  refine .bind (h fuel c₄ right _ h₄ hright (by omega)) fun r c₅ h₅ hr => ?_
  obtain ⟨methods', statics'⟩ := r
  refine .expectMark h₅ (by simp) hright fun c₆ h₆ => .spanFrom fun s' => .pure h₆ ?_
  simp only [Stmt.bare, hsup', hr]

theorem complete_funDecl {t : Token} {d : FunDecl} (ht : t.kind = .keyword .fun_)
    (hstarts : Starts .function ts) (h : Complete .function ts (.function d)) :
    Complete .declaration (t :: ts) (.stmt (.funDecl d)) := by
  intro fuel c u us hc hu hfuel
  obtain ⟨name, vs, rfl, hname, -⟩ := hstarts
  have hname : name.kind = .name := by simpa [Sym.first] using hname
  simp only [List.length_cons] at hfuel
  cases fuel with
  | zero => omega
  | succ fuel =>
    rw [declaration]
    refine .peek hc ?_
    rw [ht]
    refine .peekSecond hc ?_
    rw [if_pos hname]
    refine .next hc (by simp) fun c₁ h₁ => ?_
    refine .map (h t.span .function fuel c₁ u us h₁ trivial ?_) fun d' hd' => by simp [hd']
    simp only [List.length_cons]
    omega

theorem complete_varDecl {b : Stmt} (hstarts : Starts .variable_ ts)
    (h : Complete .variable_ ts (.stmt b)) : Complete .declaration ts (.stmt b) := by
  intro fuel c u us hc hu hfuel
  obtain ⟨t, vs, rfl, ht, -⟩ := hstarts
  have ht : t.kind = .keyword .var_ := by simpa [Sym.first] using ht
  cases fuel with
  | zero => omega
  | succ fuel =>
    rw [declaration]
    refine .peek hc ?_
    rw [ht]
    exact h fuel c u us hc trivial (by omega)

theorem complete_statement {b : Stmt} (hstarts : Starts .statement ts)
    (h : Complete .statement ts (.stmt b)) : Complete .declaration ts (.stmt b) := by
  intro fuel c u us hc hu hfuel
  obtain ⟨t, vs, rfl, ht, hfun⟩ := hstarts
  cases fuel with
  | zero => omega
  | succ fuel =>
    have hstatement := h fuel c u us hc (fun _ => hu) (by omega)
    rw [declaration]
    refine .peek hc ?_
    split
    · rename_i hk
      rw [hk] at ht
      exact absurd ht (by decide)
    · rename_i hk
      obtain ⟨v, rest, rfl, hv⟩ := hfun (by decide) hk
      refine .peekSecond hc ?_
      rw [if_neg (by simp [hv])]
      exact hstatement
    · rename_i hk
      rw [hk] at ht
      exact absurd ht (by decide)
    · exact hstatement

theorem complete_noValue {t name semicolon : Token} {s : Span} (hn : name.kind = .name)
    (hs : semicolon.kind = .mark .semicolon) :
    Complete .variable_ [t, name, semicolon] (.stmt (.varDecl s name.text none)) := by
  intro fuel c u us hc hu hfuel
  obtain ⟨fuel, rfl⟩ : ∃ n, fuel = n + 2 := ⟨fuel - 2, by simp at hfuel; omega⟩
  rw [varDecl]
  refine .next hc (by simp) fun c₁ h₁ => .expect h₁ (by simp) hn fun c₂ h₂ => ?_
  have hinit : Runs (initializer (fuel + 1)) c₂ (semicolon :: u :: us) fun init => init = none := by
    rw [initializer]
    exact .accept_other h₂ (by simp [hs]) (.pure h₂ rfl)
  refine .bind hinit fun init c₃ h₃ hinit => .expectMark h₃ (by simp) hs fun c₄ h₄ => ?_
  exact .spanFrom fun s' => .pure h₄ (by simp [hinit])

theorem complete_value {t name equal semicolon : Token} {s : Span} (hn : name.kind = .name)
    (hequal : equal.kind = .mark .equal)
    (h : Complete .expression ts (.expr e)) (hs : semicolon.kind = .mark .semicolon) :
    Complete .variable_ (t :: name :: equal :: (ts ++ [semicolon]))
      (.stmt (.varDecl s name.text (some e))) := by
  intro fuel c u us hc hu hfuel
  simp only [List.append_assoc, List.cons_append, List.nil_append] at hc
  simp only [List.length_append, List.length_cons, List.length_nil] at hfuel
  obtain ⟨fuel, rfl⟩ : ∃ n, fuel = n + 2 := ⟨fuel - 2, by omega⟩
  rw [varDecl]
  refine .next hc (by simp) fun c₁ h₁ => .expect h₁ (by simp) hn fun c₂ h₂ => ?_
  have hinit : Runs (initializer (fuel + 1)) c₂ (semicolon :: u :: us) fun init =>
      Expr.bareOption init = some e.bare := by
    rw [initializer]
    refine .accept h₂ (by simp) hequal fun c₃ h₃ => ?_
    exact .map (h fuel c₃ semicolon _ h₃ (by simp only [hs]; decide) (by omega))
      fun e' he => by simp [he]
  refine .bind hinit fun init c₃ h₃ hinit => .expectMark h₃ (by simp) hs fun c₄ h₄ => ?_
  exact .spanFrom fun s' => .pure h₄ (by simp [hinit])

/-- An expression with a semicolon behind it, as a statement and as the first clause of a loop. -/
theorem reads_exprStmt {semicolon : Token} (h : Complete .expression ts (.expr e))
    (hs : semicolon.kind = .mark .semicolon) :
    Reads exprStmt 17 (ts ++ [semicolon]) (fun _ => True) fun b =>
      b.bare = .exprStmt .blank e.bare := by
  intro fuel c u us hc hu hfuel
  simp only [List.append_assoc, List.cons_append, List.nil_append] at hc
  simp only [List.length_append, List.length_cons, List.length_nil] at hfuel
  cases fuel with
  | zero => omega
  | succ fuel =>
    rw [exprStmt]
    obtain ⟨t, l, hl⟩ : ∃ t l, c.left = t :: l := ⟨_, _, rfl⟩
    refine .current hl ?_
    refine .bind (h fuel c semicolon _ hc (by simp only [hs]; decide) (by omega)) fun e' c₁ h₁ he =>
      ?_
    exact .expectMark h₁ (by simp) hs fun c₂ h₂ => .spanFrom fun s' => .pure h₂ (by simp [he])

theorem complete_exprStmt {semicolon : Token} {s : Span} (hd : Starts .expression ts)
    (h : Complete .expression ts (.expr e)) (hs : semicolon.kind = .mark .semicolon) :
    Complete .statement (ts ++ [semicolon]) (.stmt (.exprStmt s e)) := by
  intro fuel c u us hc hu hfuel
  have hread := reads_exprStmt h hs
  obtain ⟨t, vs, rfl, ht, -⟩ := hd
  cases fuel with
  | zero => omega
  | succ fuel =>
    rw [statement]
    refine .current hc ?_
    split
    case h_8 => exact hread fuel c u us hc trivial (by omega)
    all_goals
      rename_i hk
      rw [hk] at ht
      exact absurd ht (by decide)

theorem complete_print {t semicolon : Token} {s : Span} (ht : t.kind = .keyword .print_)
    (h : Complete .expression ts (.expr e)) (hs : semicolon.kind = .mark .semicolon) :
    Complete .statement (t :: (ts ++ [semicolon])) (.stmt (.printStmt s e)) := by
  intro fuel c u us hc hu hfuel
  simp only [List.append_assoc, List.cons_append, List.nil_append] at hc
  simp only [List.length_append, List.length_cons, List.length_nil] at hfuel
  cases fuel with
  | zero => omega
  | succ fuel =>
    rw [statement]
    refine .current hc ?_
    rw [ht]
    refine .next hc (by simp) fun c₁ h₁ => ?_
    refine .bind (h fuel c₁ semicolon _ h₁ (by simp only [hs]; decide) (by omega))
      fun e' c₂ h₂ he => ?_
    exact .expectMark h₂ (by simp) hs fun c₃ h₃ => .spanFrom fun s' => .pure h₃ (by simp [he])

theorem complete_return {t semicolon : Token} {value : Option Expr} {s : Span}
    (ht : t.kind = .keyword .return_) (h : Complete .clause ts (.clause value))
    (hs : semicolon.kind = .mark .semicolon) :
    Complete .statement (t :: (ts ++ [semicolon])) (.stmt (.returnStmt s value)) := by
  intro fuel c u us hc hu hfuel
  simp only [List.append_assoc, List.cons_append, List.nil_append] at hc
  simp only [List.length_append, List.length_cons, List.length_nil] at hfuel
  cases fuel with
  | zero => omega
  | succ fuel =>
    rw [statement]
    refine .current hc ?_
    rw [ht]
    refine .next hc (by simp) fun c₁ h₁ => ?_
    refine .bind (h .semicolon (.inl rfl) fuel c₁ semicolon _ h₁ hs (by omega)) fun e' c₂ h₂ he =>
      ?_
    exact .expectMark h₂ (by simp) hs fun c₃ h₃ => .spanFrom fun s' => .pure h₃ (by simp [he])

theorem complete_break {t semicolon : Token} {s : Span} (ht : t.kind = .keyword .break_)
    (hs : semicolon.kind = .mark .semicolon) :
    Complete .statement [t, semicolon] (.stmt (.breakStmt s)) := by
  intro fuel c u us hc hu hfuel
  cases fuel with
  | zero => omega
  | succ fuel =>
    rw [statement]
    refine .current hc ?_
    rw [ht]
    refine .next hc (by simp) fun c₁ h₁ => .expectMark h₁ (by simp) hs fun c₂ h₂ => ?_
    exact .spanFrom fun s' => .pure h₂ (by simp)

theorem complete_inBlock {body : List Stmt} {s : Span} (h : Complete .block ts (.stmts body)) :
    Complete .statement ts (.stmt (.block s body)) := by
  obtain ⟨left, vs, rfl, hleft, hblock⟩ := h
  intro fuel c u us hc hu hfuel
  simp only [List.length_cons] at hfuel
  cases fuel with
  | zero => omega
  | succ fuel =>
    rw [statement]
    refine .current hc ?_
    rw [hleft]
    refine .next hc (by simp) fun c₁ h₁ => ?_
    refine .bind (hblock fuel c₁ u us h₁ trivial (by omega)) fun body' c₂ h₂ hbody => ?_
    exact .spanFrom fun s' => .pure h₂ (by simp [hbody])

theorem complete_while {t left right : Token} {body : Stmt} {s : Span}
    (ht : t.kind = .keyword .while_) (hleft : left.kind = .mark .leftParen)
    (hc : Complete .expression ts (.expr e)) (hright : right.kind = .mark .rightParen)
    (hbody : Complete .statement us (.stmt body)) :
    Complete .statement (t :: left :: (ts ++ right :: us)) (.stmt (.whileStmt s e body)) := by
  intro fuel c u vs hl hu hfuel
  simp only [List.append_assoc, List.cons_append] at hl
  simp only [List.length_append, List.length_cons] at hfuel
  obtain ⟨fuel, rfl⟩ : ∃ n, fuel = n + 2 := ⟨fuel - 2, by omega⟩
  rw [statement]
  refine .current hl ?_
  rw [ht]
  show Runs (whileStmt (fuel + 1)) c _ _
  rw [whileStmt]
  refine .next hl (by simp) fun c₁ h₁ => .expectMark h₁ (by simp) hleft fun c₂ h₂ => ?_
  refine .bind (hc fuel c₂ right _ h₂ (by simp only [hright]; decide) (by omega)) fun e' c₃ h₃ he =>
    ?_
  refine .expectMark h₃ (by simp) hright fun c₄ h₄ => ?_
  refine .bind (hbody fuel c₄ u vs h₄ hu (by omega)) fun body' c₅ h₅ hbody' => ?_
  exact .spanFrom fun s' => .pure h₅ (by simp [he, hbody'])

theorem complete_if {t left right : Token} {yes : Stmt} {s : Span}
    (ht : t.kind = .keyword .if_) (hleft : left.kind = .mark .leftParen)
    (hc : Complete .expression ts (.expr e)) (hright : right.kind = .mark .rightParen)
    (hyes : Complete .statement us (.stmt yes)) :
    Complete .statement (t :: left :: (ts ++ right :: us)) (.stmt (.ifStmt s e yes none)) := by
  intro fuel c u vs hl hu hfuel
  simp only [List.append_assoc, List.cons_append] at hl
  simp only [List.length_append, List.length_cons] at hfuel
  obtain ⟨fuel, rfl⟩ : ∃ n, fuel = n + 2 := ⟨fuel - 2, by omega⟩
  have helse : u.kind ≠ .keyword .else_ := hu rfl
  rw [statement]
  refine .current hl ?_
  rw [ht]
  show Runs (ifStmt (fuel + 1)) c _ _
  rw [ifStmt]
  refine .next hl (by simp) fun c₁ h₁ => .expectMark h₁ (by simp) hleft fun c₂ h₂ => ?_
  refine .bind (hc fuel c₂ right _ h₂ (by simp only [hright]; decide) (by omega)) fun e' c₃ h₃ he =>
    ?_
  refine .expectMark h₃ (by simp) hright fun c₄ h₄ => ?_
  refine .bind (hyes fuel c₄ u vs h₄ (fun _ => helse) (by omega)) fun yes' c₅ h₅ hyes' => ?_
  exact .accept_other h₅ helse (.spanFrom fun s' => .pure h₅ (by simp [he, hyes']))

theorem complete_ifElse {t left right else_ : Token} {yes no : Stmt} {s : Span}
    (ht : t.kind = .keyword .if_) (hleft : left.kind = .mark .leftParen)
    (hc : Complete .expression ts (.expr e)) (hright : right.kind = .mark .rightParen)
    (hyes : Complete .statement us (.stmt yes)) (hclosed : yes.endsOpen = false)
    (helse : else_.kind = .keyword .else_) (hno : Complete .statement vs (.stmt no)) :
    Complete .statement (t :: left :: (ts ++ right :: (us ++ else_ :: vs)))
      (.stmt (.ifStmt s e yes (some no))) := by
  intro fuel c u ws hl hu hfuel
  simp only [List.append_assoc, List.cons_append] at hl
  simp only [List.length_append, List.length_cons] at hfuel
  obtain ⟨fuel, rfl⟩ : ∃ n, fuel = n + 2 := ⟨fuel - 2, by omega⟩
  rw [statement]
  refine .current hl ?_
  rw [ht]
  show Runs (ifStmt (fuel + 1)) c _ _
  rw [ifStmt]
  refine .next hl (by simp) fun c₁ h₁ => .expectMark h₁ (by simp) hleft fun c₂ h₂ => ?_
  refine .bind (hc fuel c₂ right _ h₂ (by simp only [hright]; decide) (by omega)) fun e' c₃ h₃ he =>
    ?_
  refine .expectMark h₃ (by simp) hright fun c₄ h₄ => ?_
  refine .bind (hyes fuel c₄ else_ _ h₄ (by simp [hclosed]) (by omega)) fun yes' c₅ h₅ hyes' => ?_
  refine .accept h₅ (by simp) helse fun c₆ h₆ => ?_
  refine .bind (hno fuel c₆ u ws h₆ hu (by omega)) fun no' c₇ h₇ hno' => ?_
  exact .spanFrom fun s' => .pure h₇ (by simp [he, hyes', hno'])

theorem complete_for {t left semicolon right : Token} {init : Option Stmt}
    {condition step : Option Expr} {body : Stmt} {s : Span} (ht : t.kind = .keyword .for_)
    (hleft : left.kind = .mark .leftParen) (hinit : Complete .forInit ts (.init init))
    (hc : Complete .clause us (.clause condition)) (hsemi : semicolon.kind = .mark .semicolon)
    (hstep : Complete .clause vs (.clause step)) (hright : right.kind = .mark .rightParen)
    (hbody : Complete .statement ws (.stmt body)) :
    Complete .statement (t :: left :: (ts ++ us ++ semicolon :: (vs ++ right :: ws)))
      (.stmt (.forStmt s init condition step body)) := by
  intro fuel c u rs hl hu hfuel
  simp only [List.append_assoc, List.cons_append] at hl
  simp only [List.length_append, List.length_cons] at hfuel
  obtain ⟨fuel, rfl⟩ : ∃ n, fuel = n + 2 := ⟨fuel - 2, by omega⟩
  rw [statement]
  refine .current hl ?_
  rw [ht]
  show Runs (forStmt (fuel + 1)) c _ _
  rw [forStmt]
  refine .next hl (by simp) fun c₁ h₁ => .expectMark h₁ (by simp) hleft fun c₂ h₂ => ?_
  have hfirst := hinit.before fuel h₂ (by simp) (fun _ _ _ => trivial) (by omega)
  refine .bind hfirst fun init' c₃ h₃ hinit' => ?_
  refine .bind (hc .semicolon (.inl rfl) fuel c₃ semicolon _ h₃ hsemi (by omega))
    fun condition' c₄ h₄ hcond' => ?_
  refine .expectMark h₄ (by simp) hsemi fun c₅ h₅ => ?_
  refine .bind (hstep .rightParen (.inr rfl) fuel c₅ right _ h₅ hright (by omega))
    fun step' c₆ h₆ hstep' => ?_
  refine .expectMark h₆ (by simp) hright fun c₇ h₇ => ?_
  refine .bind (hbody fuel c₇ u rs h₇ hu (by omega)) fun body' c₈ h₈ hbody' => ?_
  exact .spanFrom fun s' => .pure h₈ (by simp [hinit', hcond', hstep', hbody'])

theorem complete_noInit {semicolon : Token} (hs : semicolon.kind = .mark .semicolon) :
    Complete .forInit [semicolon] (.init none) := by
  intro fuel c u us hc hu hfuel
  cases fuel with
  | zero => omega
  | succ fuel =>
    rw [forInit]
    refine .peek hc ?_
    rw [hs]
    exact .next hc (by simp) fun c₁ h₁ => .pure h₁ rfl

theorem complete_varInit {v : Stmt} (hstarts : Starts .variable_ ts)
    (h : Complete .variable_ ts (.stmt v)) : Complete .forInit ts (.init (some v)) := by
  intro fuel c u us hc hu hfuel
  obtain ⟨t, vs, rfl, ht, -⟩ := hstarts
  have ht : t.kind = .keyword .var_ := by simpa [Sym.first] using ht
  cases fuel with
  | zero => omega
  | succ fuel =>
    rw [forInit]
    refine .peek hc ?_
    rw [ht]
    exact .map (h fuel c u us hc trivial (by omega)) fun v' hv => by simp [hv]

theorem complete_exprInit {semicolon : Token} {s : Span} (hd : Starts .expression ts)
    (h : Complete .expression ts (.expr e)) (hs : semicolon.kind = .mark .semicolon) :
    Complete .forInit (ts ++ [semicolon]) (.init (some (.exprStmt s e))) := by
  intro fuel c u us hc hu hfuel
  have hread := reads_exprStmt h hs
  obtain ⟨t, vs, rfl, ht, -⟩ := hd
  cases fuel with
  | zero => omega
  | succ fuel =>
    rw [forInit]
    refine .peek hc ?_
    split
    case h_3 => exact .map (hread fuel c u us hc trivial (by omega)) fun b hb => by simp [hb]
    all_goals
      rename_i hk
      rw [hk] at ht
      exact absurd ht (by decide)

theorem complete_noClause : Complete .clause [] (.clause none) := by
  intro mark _ fuel c u us hc hu hfuel
  cases fuel with
  | zero => omega
  | succ fuel =>
    show Runs (expressionUnless (fuel + 1) mark) c _ _
    rw [expressionUnless]
    refine .peek hc ?_
    rw [if_pos hu]
    exact .pure hc rfl

theorem complete_someClause (hd : Starts .expression ts) (h : Complete .expression ts (.expr e)) :
    Complete .clause ts (.clause (some e)) := by
  intro mark hmark fuel c u us hc hu hfuel
  obtain ⟨t, vs, rfl, ht, -⟩ := hd
  have hloose : binding u.kind < 1 := by
    rcases hmark with rfl | rfl <;> simp only [hu] <;> decide
  have hother : t.kind ≠ .mark mark := by
    intro hk
    rw [hk] at ht
    rcases hmark with rfl | rfl <;> exact absurd ht (by decide)
  cases fuel with
  | zero => omega
  | succ fuel =>
    show Runs (expressionUnless (fuel + 1) mark) c _ _
    rw [expressionUnless]
    refine .peek hc ?_
    rw [if_neg hother]
    exact .map (h fuel c u us hc hloose (by omega)) fun e' he => by simp [he]

end Statements

end Grammar
end Lox
