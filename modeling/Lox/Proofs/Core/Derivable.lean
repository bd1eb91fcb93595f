import Lox.Proofs.Core.Basic
import Lox.Proofs.Layout.RoundTrip

set_option autoImplicit false
set_option relaxedAutoImplicit false

namespace Lox

open Text (lit)
open Token

namespace Grammar

open Lox.Parser (Tier Operator maxArgs)

def made (kind : Kind) (text : Text) : Token := { kind, text, span := .blank }

abbrev mark (m : Mark) : Token := made (.mark m) m.spelling

abbrev word (k : Keyword) : Token := made (.keyword k) k.spelling

def Derivable (sym : Sym) (n : Node) : Prop := ∃ ts, Lexical ts ∧ Derives sym ts n

private theorem lexical_made {kind : Kind} {text bytes : Text} {ts : List Token}
    (h : IsLexeme kind text bytes) (hts : Lexical ts) : Lexical (made kind text :: ts) :=
  lexical_cons.2 ⟨⟨bytes, h⟩, hts⟩

private theorem lexical_mark (m : Mark) {ts : List Token} (hts : Lexical ts) :
    Lexical (mark m :: ts) :=
  lexical_made (.mark m) hts

private theorem lexical_word (k : Keyword) {ts : List Token} (hts : Lexical ts) :
    Lexical (word k :: ts) :=
  lexical_made (.keyword k) hts

def rung : Nat → Sym
  | 0 => .call
  | 1 => .unary
  | 2 => .tier .factor
  | 3 => .tier .term
  | 4 => .tier .comparison
  | 5 => .tier .equality
  | 6 => .tier .and
  | 7 => .tier .or
  | 8 => .conditional
  | _ => .expression

theorem exists_rung (tier : Tier) :
    ∃ n, .tier tier = rung (n + 1) ∧ operandOf tier = rung n ∧ (Sym.tier tier).rank = 5 - n := by
  cases tier with
  | or => exact ⟨6, rfl, rfl, rfl⟩
  | and => exact ⟨5, rfl, rfl, rfl⟩
  | equality => exact ⟨4, rfl, rfl, rfl⟩
  | comparison => exact ⟨3, rfl, rfl, rfl⟩
  | term => exact ⟨2, rfl, rfl, rfl⟩
  | factor => exact ⟨1, rfl, rfl, rfl⟩

namespace Derivable

variable {s : Span} {e a b c f o : Expr} {name : Text}

theorem imp {sym sym' : Sym} {n n' : Node} (h : Derivable sym n)
    (himp : ∀ ts, Derives sym ts n → Derives sym' ts n') : Derivable sym' n' :=
  Exists.imp (fun ts ⟨hts, hd⟩ => ⟨hts, himp ts hd⟩) h

private theorem next_rung {n : Nat} (h : Derivable (rung n) (.expr e)) :
    Derivable (rung (n + 1)) (.expr e) :=
  match n with
  | 0 => h.imp fun _ => .called
  | 1 => h.imp fun _ => @Derives.operand .factor _ _
  | 2 => h.imp fun _ => @Derives.operand .term _ _
  | 3 => h.imp fun _ => @Derives.operand .comparison _ _
  | 4 => h.imp fun _ => @Derives.operand .equality _ _
  | 5 => h.imp fun _ => @Derives.operand .and _ _
  | 6 => h.imp fun _ => @Derives.operand .or _ _
  | 7 => h.imp fun _ => .plain
  | 8 => h.imp fun _ => .simple
  | _ + 9 => h

theorem loosen {k n : Nat} (h : Derivable (rung k) (.expr e)) (hkn : k ≤ n) :
    Derivable (rung n) (.expr e) := by
  induction hkn with
  | refl => exact h
  | step _ ih => exact ih.next_rung

theorem assignName (hn : IsLexeme .name name name) (he : Derivable .expression (.expr e)) :
    Derivable .expression (.expr (.assign { span := s, name, hops := none } e)) := by
  obtain ⟨ts, hts, hd⟩ := he
  exact ⟨made .name name :: mark .equal :: ts,
    lexical_made hn (lexical_mark _ hts), .assignName rfl rfl hd⟩

theorem assignField (ho : Derivable .call (.expr o)) (hn : IsLexeme .name name name)
    (he : Derivable .expression (.expr e)) : Derivable .expression (.expr (.set s o name e)) := by
  obtain ⟨ts, hts, hd⟩ := ho
  obtain ⟨us, hus, hd'⟩ := he
  exact ⟨ts ++ mark .dot :: made .name name :: mark .equal :: us,
    lexical_append.2 ⟨hts, lexical_mark _ (lexical_made hn (lexical_mark _ hus))⟩,
    .assignField hd rfl rfl rfl hd'⟩

theorem choice (hc : Derivable (.tier .or) (.expr c)) (ha : Derivable .expression (.expr a))
    (hb : Derivable .conditional (.expr b)) :
    Derivable .conditional (.expr (.conditional s c a b)) := by
  obtain ⟨ts, hts, hd⟩ := hc
  obtain ⟨us, hus, hd'⟩ := ha
  obtain ⟨vs, hvs, hd''⟩ := hb
  exact ⟨ts ++ mark .question :: (us ++ mark .colon :: vs),
    lexical_append.2 ⟨hts, lexical_mark _ (lexical_append.2 ⟨hus, lexical_mark _ hvs⟩)⟩,
    .choice hd rfl hd' rfl hd''⟩

theorem chain {tier : Tier} {kind : Kind} {op : Operator} (ha : Derivable (.tier tier) (.expr a))
    (hop : IsOperator tier kind op) (hb : Derivable (operandOf tier) (.expr b)) :
    Derivable (.tier tier) (.expr (combine s a b op)) := by
  obtain ⟨ts, hts, hd⟩ := ha
  obtain ⟨us, hus, hd'⟩ := hb
  exact ⟨ts ++ made kind (spelled op) :: us, lexical_append.2 ⟨hts, lexical_made hop.lexeme hus⟩,
    .chain hd hop hd'⟩

theorem not (he : Derivable .unary (.expr e)) : Derivable .unary (.expr (.unary s .not e)) := by
  obtain ⟨ts, hts, hd⟩ := he
  exact ⟨mark .bang :: ts, lexical_mark _ hts, .not rfl hd⟩

theorem negate (he : Derivable .unary (.expr e)) :
    Derivable .unary (.expr (.unary s .negate e)) := by
  obtain ⟨ts, hts, hd⟩ := he
  exact ⟨mark .minus :: ts, lexical_mark _ hts, .negate rfl hd⟩

theorem get (ho : Derivable .call (.expr o)) (hn : IsLexeme .name name name) :
    Derivable .call (.expr (.get s o name)) := by
  obtain ⟨ts, hts, hd⟩ := ho
  exact ⟨ts ++ [mark .dot, made .name name],
    lexical_append.2 ⟨hts, lexical_mark _ (lexical_made hn lexical_nil)⟩, .get hd rfl rfl⟩

private theorem argumentList {es : List Expr} (he : Derivable .expression (.expr e))
    (hes : ∀ e ∈ es, Derivable .expression (.expr e)) :
    Derivable .argumentList (.exprs (e :: es)) := by
  induction es generalizing e with
  | nil =>
    obtain ⟨ts, hts, hd⟩ := he
    exact ⟨ts ++ [mark .rightParen], lexical_append.2 ⟨hts, lexical_mark _ lexical_nil⟩,
      .lastArgument hd rfl⟩
  | cons e' es ih =>
    rw [List.forall_mem_cons] at hes
    obtain ⟨ts, hts, hd⟩ := he
    obtain ⟨us, hus, hd'⟩ := ih hes.1 hes.2
    exact ⟨ts ++ mark .comma :: us, lexical_append.2 ⟨hts, lexical_mark _ hus⟩,
      .moreArguments hd rfl hd'⟩

private theorem arguments {es : List Expr} (hes : ∀ e ∈ es, Derivable .expression (.expr e)) :
    Derivable .arguments (.exprs es) := by
  cases es with
  | nil => exact ⟨[mark .rightParen], lexical_mark _ lexical_nil, .noArguments rfl⟩
  | cons e es =>
    rw [List.forall_mem_cons] at hes
    exact (argumentList hes.1 hes.2).imp fun _ => .someArguments

theorem apply {args : List Expr} (hf : Derivable .call (.expr f))
    (hargs : ∀ e ∈ args, Derivable .expression (.expr e)) (hcount : args.length ≤ maxArgs) :
    Derivable .call (.expr (.call s f args)) := by
  obtain ⟨ts, hts, hd⟩ := hf
  obtain ⟨us, hus, hd'⟩ := arguments hargs
  exact ⟨ts ++ mark .leftParen :: us, lexical_append.2 ⟨hts, lexical_mark _ hus⟩,
    .apply hd rfl hd' hcount⟩

theorem group (he : Derivable .expression (.expr e)) :
    Derivable .primary (.expr (.grouping s e)) := by
  obtain ⟨ts, hts, hd⟩ := he
  exact ⟨mark .leftParen :: (ts ++ [mark .rightParen]),
    lexical_mark _ (lexical_append.2 ⟨hts, lexical_mark _ lexical_nil⟩), .group rfl hd rfl⟩

theorem super (hn : IsLexeme .name name name) : Derivable .primary (.expr (.super s name none)) :=
  ⟨[word .super_, mark .dot, made .name name],
    lexical_word _ (lexical_mark _ (lexical_made hn lexical_nil)), .super rfl rfl rfl⟩

theorem this : Derivable .primary (.expr (.this s none)) :=
  ⟨[word .this_], lexical_word _ lexical_nil, .this rfl⟩

theorem use (hn : IsLexeme .name name name) :
    Derivable .primary (.expr (.name { span := s, name, hops := none })) :=
  ⟨[made .name name], lexical_made hn lexical_nil, .name rfl⟩

theorem nil : Derivable .primary (.expr (.literal s .nil)) :=
  ⟨[word .nil_], lexical_word _ lexical_nil, .nil_ rfl⟩

theorem bool (v : Bool) : Derivable .primary (.expr (.literal s (.bool v))) :=
  match v with
  | false => ⟨[word .false_], lexical_word _ lexical_nil, .false_ rfl⟩
  | true => ⟨[word .true_], lexical_word _ lexical_nil, .true_ rfl⟩

theorem number {x : Float} {m : Nat} {q : Int} (hx : Decimal.shape x = .finite false m q) :
    Derivable .primary (.expr (.literal s (.number x))) := by
  obtain ⟨hlexeme, hread⟩ := Decimal.read?_literal hx
  exact ⟨[made .number (Decimal.literal x)], lexical_made hlexeme lexical_nil, .number rfl hread⟩

theorem string {t : Text} (hutf8 : t.isUtf8 = true) (hquote : Byte.quote ∉ t) :
    Derivable .primary (.expr (.literal s (.string t))) := by
  obtain ⟨t, rfl⟩ := (Text.isUtf8_iff t).1 hutf8
  exact ⟨[made .string (lit t)], lexical_made (.string hquote) lexical_nil, .string rfl⟩

/-! ### Functions and statements -/

private theorem exists_paramList {p : Param} {ps : List Param}
    (hps : ∀ q ∈ p :: ps, IsLexeme .name q.name q.name) :
    ∃ ts, Lexical ts ∧ IsParamList ts (p :: ps) := by
  induction ps generalizing p with
  | nil =>
    exact ⟨[made .name p.name, mark .rightParen],
      lexical_made (hps p List.mem_cons_self) (lexical_mark _ lexical_nil), .last rfl rfl⟩
  | cons q ps ih =>
    rw [List.forall_mem_cons] at hps
    obtain ⟨ts, hts, hlist⟩ := ih hps.2
    exact ⟨made .name p.name :: mark .comma :: ts, lexical_made hps.1 (lexical_mark _ hts),
      .more rfl rfl hlist⟩

private theorem exists_params {ps : List Param} (hps : Param.Admitted ps) :
    ∃ ts, Lexical ts ∧ IsParams ts ps := by
  cases ps with
  | nil =>
    exact ⟨[mark .leftParen, mark .rightParen],
      lexical_mark _ (lexical_mark _ lexical_nil), .none rfl rfl⟩
  | cons p ps =>
    obtain ⟨ts, hts, hlist⟩ := exists_paramList hps.1
    exact ⟨mark .leftParen :: ts, lexical_mark _ hts, .some rfl hlist hps.2⟩

variable {ss : List Stmt}

theorem declarations (hss : ∀ s ∈ ss, Derivable .declaration (.stmt s)) :
    Derivable .declarations (.stmts ss) := by
  induction ss with
  | nil => exact ⟨[], lexical_nil, .noDeclarations⟩
  | cons s ss ih =>
    rw [List.forall_mem_cons] at hss
    obtain ⟨ts, hts, hd⟩ := hss.1
    obtain ⟨us, hus, hd'⟩ := ih hss.2
    exact ⟨ts ++ us, lexical_append.2 ⟨hts, hus⟩, .moreDeclarations hd hd'⟩

private theorem block (hss : ∀ s ∈ ss, Derivable .declaration (.stmt s)) :
    Derivable .block (.stmts ss) := by
  obtain ⟨ts, hts, hd⟩ := declarations hss
  exact ⟨mark .leftBrace :: (ts ++ [mark .rightBrace]),
    lexical_mark _ (lexical_append.2 ⟨hts, lexical_mark _ lexical_nil⟩), .block rfl hd rfl⟩

theorem lambda {ps : List Param} (hps : Param.Admitted ps)
    (hss : ∀ s ∈ ss, Derivable .declaration (.stmt s)) :
    Derivable .primary (.expr (.lambda s ps ss)) := by
  obtain ⟨ts, hts, hparams⟩ := exists_params hps
  obtain ⟨us, hus, hd⟩ := block hss
  exact ⟨word .fun_ :: (ts ++ us),
    lexical_word _ (lexical_append.2 ⟨hts, hus⟩), .lambda rfl hparams hd⟩

theorem exprStmt (he : Derivable .expression (.expr e)) :
    Derivable .declaration (.stmt (.exprStmt s e)) := by
  obtain ⟨ts, hts, hd⟩ := he
  exact ⟨ts ++ [mark .semicolon], lexical_append.2 ⟨hts, lexical_mark _ lexical_nil⟩,
    .statement (.exprStmt hd rfl)⟩

theorem print (he : Derivable .expression (.expr e)) :
    Derivable .declaration (.stmt (.printStmt s e)) := by
  obtain ⟨ts, hts, hd⟩ := he
  exact ⟨word .print_ :: (ts ++ [mark .semicolon]),
    lexical_word _ (lexical_append.2 ⟨hts, lexical_mark _ lexical_nil⟩),
      .statement (.print rfl hd rfl)⟩

theorem value (hn : IsLexeme .name name name) (he : Derivable .expression (.expr e)) :
    Derivable .declaration (.stmt (.varDecl s name (some e))) := by
  obtain ⟨ts, hts, hd⟩ := he
  exact ⟨word .var_ :: made .name name :: mark .equal :: (ts ++ [mark .semicolon]),
    lexical_word _ (lexical_made hn (lexical_mark _
      (lexical_append.2 ⟨hts, lexical_mark _ lexical_nil⟩))), .varDecl (.value rfl rfl rfl hd rfl)⟩

theorem inBlock (hss : ∀ s ∈ ss, Derivable .declaration (.stmt s)) :
    Derivable .declaration (.stmt (.block s ss)) :=
  (block hss).imp fun _ hd => .statement (.inBlock hd)

theorem break_ : Derivable .declaration (.stmt (.breakStmt s)) :=
  ⟨[word .break_, mark .semicolon], lexical_word _ (lexical_mark _ lexical_nil),
    .statement (.break_ rfl rfl)⟩

theorem return_ {e : Option Expr} (he : ∀ v, e = some v → Derivable .expression (.expr v)) :
    Derivable .declaration (.stmt (.returnStmt s e)) := by
  have hclause : Derivable .clause (.clause e) := by
    cases e with
    | none => exact ⟨[], lexical_nil, .noClause⟩
    | some v => exact (he v rfl).imp fun _ => .someClause
  obtain ⟨ts, hts, hd⟩ := hclause
  exact ⟨word .return_ :: (ts ++ [mark .semicolon]),
    lexical_word _ (lexical_append.2 ⟨hts, lexical_mark _ lexical_nil⟩),
      .statement (.return_ rfl hd rfl)⟩

end Derivable

/-! ### Chains -/

theorem rank_join (op : LogicalOp) (a b : Expr) : (op.join a b).rank = op.rank := by
  induction b using op.join_induction with
  | hchain s x y _ => rw [op.join_same]; rfl
  | hother b hb => rw [op.join_other a hb]; rfl

private theorem IsOperator.eq_logical {tier : Tier} {kind kind' : Kind} {op : LogicalOp}
    {op' : Operator} (h : IsOperator tier kind (.logical op)) (h' : IsOperator tier kind' op') :
    op' = .logical op := by
  cases h <;> cases h' <;> rfl

variable {tier : Tier} {kind : Kind} {op : LogicalOp} {x y : Expr}

private theorem Derives.ne_logical (hop : IsOperator tier kind (.logical op)) {us : List Token}
    (hy : Derives (operandOf tier) us (.expr y)) (s : Span) (a b : Expr) :
    y ≠ .logical s op a b := by
  rintro rfl
  have hrank : (operandOf tier).rank ≤ op.rank := hy.rank_le
  have hsame : op.rank = (Sym.tier tier).rank := hop.rank_combine s a b
  rw [rank_operandOf] at hrank
  omega

/-- A chain after an operator reads as one chain with what stands before it, and its text needs no
parentheses there. -/
theorem Derives.join {t : Token} (hop : IsOperator tier t.kind (.logical op)) {ts us : List Token}
    (hx : Derives (.tier tier) ts (.expr x)) (hy : Derives (.tier tier) us (.expr y)) :
    Derives (.tier tier) (ts ++ t :: us) (.expr (op.join x y)) ∧
      ∀ depth, Layout.expr depth (op.join x y) = Layout.expr depth x ++
        Byte.space :: (op.spelling ++ Byte.space :: Layout.expr depth y) := by
  have hxrank : (Sym.tier tier).rank ≤ x.rank := hx.rank_le
  have htier : ∀ s a b, (combine s a b (.logical op)).rank = (Sym.tier tier).rank :=
    hop.rank_combine
  generalize hsym : Sym.tier tier = sym at hy
  generalize hnode : Node.expr y = n at hy
  induction hy generalizing y with
  | @chain tier' token op' ts' us' a b s ha hop' hb iha _ =>
    cases hsym
    obtain rfl := hop.eq_logical hop'
    cases hnode
    obtain ⟨hd, hlayout⟩ := iha rfl rfl
    have harank : (Sym.tier tier).rank ≤ a.rank := ha.rank_le
    have hbrank : (operandOf tier).rank ≤ b.rank := hb.rank_le
    rw [rank_operandOf] at hbrank
    have hjoin : op.join x (combine s a b (.logical op)) =
        combine s (op.join x a) b (.logical op) :=
      op.join_same x s a b
    rw [hjoin]
    refine ⟨?_, fun depth => ?_⟩
    · have hlonger := Derives.chain (s := s) hd hop' hb
      rwa [List.append_assoc] at hlonger
    · rw [layout_combine (by rw [htier, rank_join]; exact Int.le_of_eq (htier s a b).symm)
        (by rw [htier]; omega), layout_combine (by rw [htier]; exact harank)
          (by rw [htier]; omega), hlayout]
      simp only [List.append_assoc, List.cons_append, spelled]
  | @operand tier' us' e he _ =>
    cases hsym
    cases hnode
    have herank : (operandOf tier).rank ≤ e.rank := he.rank_le
    rw [rank_operandOf] at herank
    rw [op.join_other x (he.ne_logical hop)]
    refine ⟨.chain hx hop he, ?_⟩
    show ∀ depth, Layout.expr depth (combine .blank x e (.logical op)) = _
    exact layout_combine (by rw [htier]; exact hxrank) (by rw [htier]; omega)
  | _ => cases hsym

theorem Derivable.join (hop : IsOperator tier kind (.logical op))
    (hx : Derivable (.tier tier) (.expr x)) (hy : Derivable (.tier tier) (.expr y)) :
    Derivable (.tier tier) (.expr (op.join x y)) ∧
      ∀ depth, Layout.expr depth (op.join x y) = Layout.expr depth x ++
        Byte.space :: (op.spelling ++ Byte.space :: Layout.expr depth y) := by
  obtain ⟨ts, hts, hd⟩ := hx
  obtain ⟨us, hus, hd'⟩ := hy
  obtain ⟨hjoined, hlayout⟩ := Derives.join (t := made kind op.spelling) hop hd hd'
  exact ⟨⟨_, lexical_append.2 ⟨hts, lexical_made hop.lexeme hus⟩, hjoined⟩, hlayout⟩

end Grammar
end Lox
