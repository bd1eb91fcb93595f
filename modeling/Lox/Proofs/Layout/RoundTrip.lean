import Lox.Proofs.Decimal.Numeral
import Lox.Proofs.Layout.Statement
import Lox.Proofs.Parse

set_option autoImplicit false
set_option relaxedAutoImplicit false

namespace Lox

open Text (lit)
open Token

namespace Grammar

/-! ### Constants and names -/

section Primary

variable {s : Span}

private theorem shows_lexeme {e : Expr} {kind : Kind} {text x : Text}
    (htext : ∀ depth, Layout.expr depth e = x) (hx : IsLexeme kind text x)
    (hderives : ∀ t : Token, t.kind = kind → t.text = text → Derives .primary [t] (.expr e)) :
    ShowsExpr .primary e := by
  intro depth rest hrest
  rw [htext]
  refine (Shows.apart hx hrest).imp ?_
  rintro _ ⟨t, rfl, ht, htext⟩
  exact hderives t ht htext

private theorem shows_false : ShowsExpr .primary (.literal s (.bool false)) :=
  shows_lexeme (fun _ => rfl) (.keyword .false_) fun _ ht _ => .false_ ht

private theorem shows_true : ShowsExpr .primary (.literal s (.bool true)) :=
  shows_lexeme (fun _ => rfl) (.keyword .true_) fun _ ht _ => .true_ ht

private theorem shows_nil : ShowsExpr .primary (.literal s .nil) :=
  shows_lexeme (fun _ => rfl) (.keyword .nil_) fun _ ht _ => .nil_ ht

private theorem shows_this : ShowsExpr .primary (.this s none) :=
  shows_lexeme (fun _ => rfl) (.keyword .this_) fun _ ht _ => .this ht

private theorem shows_name {t : Token} (h : IsLexeme .name t.text t.text) :
    ShowsExpr .primary (.name { span := s, name := t.text, hops := none }) := by
  refine shows_lexeme (fun _ => rfl) h fun t' ht htext => ?_
  rw [← htext]
  exact .name ht

private theorem shows_string {t : Token} (hkind : t.kind = .string)
    (h : ∃ bytes, IsLexeme t.kind t.text bytes) :
    ShowsExpr .primary (.literal s (.string t.text)) := by
  obtain ⟨bytes, h⟩ := h
  rw [hkind] at h
  generalize t.text = text at h
  cases h with
  | string hquote =>
    refine shows_lexeme (fun _ => rfl) (.string hquote) fun t' ht htext => ?_
    rw [← htext]
    exact .string ht

private theorem shows_number {t : Token} {x : Float} (hkind : t.kind = .number)
    (h : ∃ bytes, IsLexeme t.kind t.text bytes) (hx : Decimal.read? t.text = some x) :
    ShowsExpr .primary (.literal s (.number x)) := by
  obtain ⟨bytes, h⟩ := h
  rw [hkind] at h
  obtain ⟨m, q, hshape⟩ := Decimal.finite_of_read? h hx
  obtain ⟨hlexeme, hread⟩ := Decimal.read?_literal hshape
  refine shows_lexeme (fun _ => rfl) hlexeme fun t' ht htext => ?_
  exact .number ht (by rw [htext, hread])

end Primary

/-! ### Every piece of a program -/

def Node.Shows (sym : Sym) : Node → Prop
  | .expr e => ShowsExpr sym e
  | .exprs es => ShowsArguments sym es
  | .stmt s => ShowsStmt sym s
  | .stmts ss => ShowsStmts ss
  | .function d => ShowsFunction d
  | .members methods statics =>
    (∀ d ∈ methods, ShowsFunction d) ∧ ∀ d ∈ statics, ShowsFunction d
  | .init s => ShowsInit s
  | .clause e => ShowsClause e

theorem lexical_nil : Lexical [] := List.forall_mem_nil _

theorem lexical_cons {t : Token} {ts : List Token} :
    Lexical (t :: ts) ↔ (∃ bytes, IsLexeme t.kind t.text bytes) ∧ Lexical ts :=
  List.forall_mem_cons

theorem lexical_append {ts us : List Token} : Lexical (ts ++ us) ↔ Lexical ts ∧ Lexical us :=
  List.forall_mem_append

private theorem Derives.shows {sym : Sym} {ts : List Token} {n : Node} (h : Derives sym ts n)
    (hts : Lexical ts) : n.Shows sym := by
  induction h with try simp only [lexical_append, lexical_cons] at hts
  | assignName hn _ _ ih => exact shows_assignName (.of_name hts.1 hn) (ih hts.2.2)
  | assignField hobject _ hn _ _ iho ihv =>
    exact shows_assignField (iho hts.1) hobject.rank_le (.of_name hts.2.2.1 hn) (ihv hts.2.2.2.2)
  | simple _ ih => exact (ih hts).imp fun _ => .simple
  | choice hc _ _ _ hb ihc iha ihb =>
    exact shows_choice (ihc hts.1) hc.rank_le (iha hts.2.2.1) (ihb hts.2.2.2.2) hb.rank_le
  | plain _ ih => exact (ih hts).imp fun _ => .plain
  | chain ha hop hb iha ihb => exact shows_chain (iha hts.1) ha.rank_le hop (ihb hts.2.2) hb.rank_le
  | operand _ ih => exact (ih hts).imp fun _ => .operand
  | not _ he ih => exact shows_not (ih hts.2) he.rank_le
  | negate _ he ih => exact shows_negate (ih hts.2) he.rank_le
  | called _ ih => exact (ih hts).imp fun _ => .called
  | head _ ih => exact (ih hts).imp fun _ => .head
  | apply hf _ _ hcount ihf ihargs =>
    exact shows_apply (ihf hts.1) hf.rank_le (ihargs hts.2.2) hcount
  | get hobject _ hn ih => exact shows_get (ih hts.1) hobject.rank_le (.of_name hts.2.2.1 hn)
  | noArguments _ => exact shows_noArguments
  | someArguments _ ih => exact fun depth rest => (ih hts depth rest).imp fun _ => .someArguments
  | lastArgument _ _ ih => exact shows_lastArgument (ih hts.1)
  | @moreArguments _ _ _ _ es _ _ hes ih ihes =>
    cases es with
    | nil => cases hes
    | cons => exact shows_moreArguments (ih hts.1) (ihes hts.2.2)
  | false_ _ => exact shows_false
  | true_ _ => exact shows_true
  | nil_ _ => exact shows_nil
  | number ht hx => exact shows_number ht hts.1 hx
  | string ht => exact shows_string ht hts.1
  | this _ => exact shows_this
  | super _ _ hn => exact shows_super (.of_name hts.2.2.1 hn)
  | name ht => exact shows_name (.of_name hts.1 ht)
  | lambda _ hps _ ih => exact shows_lambda (hps.admitted hts.2.1) (ih hts.2.2)
  | group _ _ _ ih => exact shows_group (ih hts.2.1)
  | block _ _ _ ih => exact ih hts.2.1
  | noDeclarations => exact shows_noDeclarations
  | moreDeclarations _ _ ih ihs => exact shows_moreDeclarations (ih hts.1) (ihs hts.2)
  | classDecl _ hn hsup _ _ _ ih =>
    obtain ⟨-, hname, hts, -, hmembers, -⟩ := hts
    obtain ⟨hmethods, hstatics⟩ := ih hmembers
    cases hsup with
    | none => exact shows_class (.of_name hname hn) hmethods hstatics
    | some _ hk =>
      simp only [lexical_cons] at hts
      exact shows_subclass (.of_name hname hn) (.of_name hts.2.1 hk) hmethods hstatics
  | funDecl _ _ ih => exact shows_funDecl (ih hts.2)
  | varDecl _ ih => exact (ih hts).imp fun _ => .varDecl
  | statement _ ih => exact (ih hts).imp fun _ => .statement
  | noValue _ hn _ => exact shows_noValue (.of_name hts.2.1 hn)
  | value _ hn _ _ _ ih => exact shows_value (.of_name hts.2.1 hn) (ih hts.2.2.2.1)
  | function hn hps _ ih =>
    exact shows_function (.of_name hts.1 hn) (hps.admitted hts.2.1) (ih hts.2.2)
  | noMembers => exact ⟨nofun, nofun⟩
  | method _ _ ih ihs => exact ⟨List.forall_mem_cons.2 ⟨ih hts.1, (ihs hts.2).1⟩, (ihs hts.2).2⟩
  | static _ _ _ ih ihs =>
    exact ⟨(ihs hts.2.2).1, List.forall_mem_cons.2 ⟨ih hts.2.1, (ihs hts.2.2).2⟩⟩
  | exprStmt _ _ ih => exact shows_exprStmt (ih hts.1)
  | print _ _ _ ih => exact shows_print (ih hts.2.1)
  | return_ _ _ _ ih => exact shows_return (ih hts.2.1)
  | break_ _ _ => exact shows_break
  | inBlock _ ih => exact shows_inBlock (ih hts)
  | while_ _ _ _ _ _ ihc ihb => exact shows_while (ihc hts.2.2.1) (ihb hts.2.2.2.2)
  | if_ _ _ _ _ _ ihc ihy => exact shows_if (ihc hts.2.2.1) (ihy hts.2.2.2.2)
  | ifElse _ _ _ _ _ hclosed _ _ ihc ihy ihn =>
    exact shows_ifElse (ihc hts.2.2.1) (ihy hts.2.2.2.2.1) hclosed (ihn hts.2.2.2.2.2.2)
  | for_ _ _ _ _ _ _ _ _ ihi ihc ihs ihb =>
    obtain ⟨-, -, ⟨hi, hc⟩, -, hs, -, hb⟩ := hts
    exact shows_for (ihi hi) (ihc hc) (ihs hs) (ihb hb)
  | noInit _ => exact shows_noInit
  | varInit _ ih => exact shows_varInit (ih hts)
  | exprInit _ _ ih => exact shows_exprInit (ih hts.1)
  | noClause => exact shows_noClause
  | someClause _ ih => exact shows_someClause (ih hts)

end Grammar

/-! ### The canonical form does not depend on spans -/

@[simp] theorem Expr.rank_bare (e : Expr) : e.bare.rank = e.rank := by
  cases e <;> rfl

@[simp] theorem Stmt.isBlock_bare (s : Stmt) : s.bare.isBlock = s.isBlock := by
  cases s <;> rfl

@[simp] theorem Stmt.isBranch_bare (s : Stmt) : s.bare.isBranch = s.isBranch := by
  cases s <;> rfl

@[simp] theorem Param.listSource_bare (ps : List Param) :
    Param.listSource (ps.map Param.bare) = Param.listSource ps := by
  have hnames : (ps.map Param.bare).map Param.name = ps.map Param.name := by
    rw [List.map_map]
    rfl
  rw [Param.listSource, hnames, Param.listSource]

namespace Layout

mutual

theorem expr_bare (depth : Nat) (e : Expr) : expr depth e.bare = expr depth e := by
  cases e with
  | literal | name | this | super => simp only [Expr.bare, expr, NameUse.bare]
  | grouping _ e | unary _ _ e | get _ e _ =>
    simp only [Expr.bare, expr, Expr.rank_bare, expr_bare depth e]
  | binary _ _ a b | logical _ _ a b | set _ a _ b =>
    simp only [Expr.bare, expr, Expr.rank_bare, expr_bare depth a, expr_bare depth b]
  | conditional _ c a b =>
    simp only [Expr.bare, expr, Expr.rank_bare, expr_bare depth c, expr_bare depth a,
      expr_bare depth b]
  | assign _ e => simp only [Expr.bare, expr, NameUse.bare, expr_bare depth e]
  | call _ f args =>
    simp only [Expr.bare, expr, Expr.rank_bare, expr_bare depth f, exprs_bare depth args]
  | lambda _ ps body =>
    simp only [Expr.bare, expr, Param.listSource_bare, lines_bare (depth + 1) body]

theorem exprs_bare (depth : Nat) (es : List Expr) :
    exprs depth (Expr.bareAll es) = exprs depth es := by
  cases es with
  | nil => rfl
  | cons e es => simp only [Expr.bareAll, exprs, expr_bare depth e, exprs_bare depth es]

theorem stmt_bare (depth : Nat) (s : Stmt) : stmt depth s.bare = stmt depth s := by
  cases s with
  | exprStmt _ e | printStmt _ e => simp only [Stmt.bare, stmt, expr_bare depth e]
  | varDecl _ _ init =>
    cases init with
    | none => rfl
    | some e => simp only [Stmt.bare, Expr.bareOption, stmt, expr_bare depth e]
  | block _ body => simp only [Stmt.bare, stmt, lines_bare (depth + 1) body]
  | ifStmt _ c a b =>
    cases b with
    | none =>
      simp only [Stmt.bare, Stmt.bareOption, stmt, Stmt.isBlock_bare,
        expr_bare depth c, stmt_bare _ a]
    | some b =>
      simp only [Stmt.bare, Stmt.bareOption, stmt, Stmt.isBlock_bare, Stmt.isBranch_bare,
        expr_bare depth c, stmt_bare _ a, stmt_bare _ b]
  | whileStmt _ c b =>
    simp only [Stmt.bare, stmt, Stmt.isBlock_bare, expr_bare depth c, stmt_bare _ b]
  | forStmt _ init c i b =>
    cases init with
    | none =>
      simp only [Stmt.bare, Stmt.bareOption, stmt, Stmt.isBlock_bare, condition_bare depth c,
        step_bare depth i, stmt_bare _ b]
    | some init =>
      simp only [Stmt.bare, Stmt.bareOption, stmt, Stmt.isBlock_bare, condition_bare depth c,
        step_bare depth i, stmt_bare _ b, stmt_bare _ init]
  | breakStmt => rfl
  | returnStmt _ value =>
    cases value with
    | none => rfl
    | some e => simp only [Stmt.bare, Expr.bareOption, stmt, expr_bare depth e]
  | funDecl d => simp only [Stmt.bare, stmt, funDecl_bare depth d]
  | classDecl _ _ sup methods statics =>
    cases sup with
    | none =>
      simp only [Stmt.bare, Option.map_none, stmt, funLines_bare (depth + 1) _ methods,
        funLines_bare (depth + 1) _ statics]
    | some sup =>
      simp only [Stmt.bare, Option.map_some, NameUse.bare, stmt,
        funLines_bare (depth + 1) _ methods,
        funLines_bare (depth + 1) _ statics]

theorem condition_bare (depth : Nat) (c : Option Expr) :
    condition depth (Expr.bareOption c) = condition depth c := by
  cases c with
  | none => rfl
  | some e => simp only [Expr.bareOption, condition, expr_bare depth e]

theorem step_bare (depth : Nat) (i : Option Expr) :
    step depth (Expr.bareOption i) = step depth i := by
  cases i with
  | none => rfl
  | some e => simp only [Expr.bareOption, step, expr_bare depth e]

private theorem lines_bare (depth : Nat) (ss : List Stmt) :
    lines depth (Stmt.bareAll ss) = lines depth ss := by
  cases ss with
  | nil => rfl
  | cons s ss => simp only [Stmt.bareAll, lines, stmt_bare depth s, lines_bare depth ss]

theorem funDecl_bare (depth : Nat) (d : FunDecl) : funDecl depth d.bare = funDecl depth d := by
  cases d with
  | mk _ _ ps body =>
    simp only [FunDecl.bare, funDecl, Param.listSource_bare, lines_bare (depth + 1) body]

theorem funLines_bare (depth : Nat) (head : Text) (ds : List FunDecl) :
    funLines depth head (FunDecl.bareAll ds) = funLines depth head ds := by
  cases ds with
  | nil => rfl
  | cons d ds =>
    simp only [FunDecl.bareAll, funLines, funDecl_bare depth d, funLines_bare depth head ds]

end

end Layout

private theorem Program.layout_bare (p : Program) : p.bare.layout = p.layout := by
  have hempty : (Stmt.bareAll p.body).isEmpty = p.body.isEmpty := by
    cases p.body <;> rfl
  simp only [Program.layout, Program.bare, hempty, Layout.lines_bare]

/-! ### Programs -/

namespace Grammar

/-- Lines with line feeds between them are the first line and then each other on a line of its own.
-/
theorem join_cons (l : Text) (ls : List Text) : Text.join (lit "\n") (l :: ls) = l ++ onLines ls :=
  (List.cons.inj (lineFeed_join l ls)).2

theorem layout_spells {p : Program} {ts : List Token} (h : Derives .declarations ts (.stmts p.body))
    (hts : Lexical ts) (file : Text) :
    ∃ us, Spells file p.layout (us ++ [eofAt file p.layout]) ∧ Lexical us ∧
      Derives .declarations us (.stmts p.body) := by
  unfold Program.layout
  cases hbody : p.body with
  | nil => exact ⟨[], ⟨[], [], .done _ _, .nil, rfl⟩, lexical_nil, .noDeclarations⟩
  | cons s ss =>
    rw [hbody] at h
    cases h with
    | moreDeclarations hfirst hothers =>
      rw [lexical_append] at hts
      have hshows := Shows.append (hfirst.shows hts.1 0 (onLines (Layout.lines 0 ss) ++ lit "\n"))
        (hothers.shows hts.2 0 (lit "\n"))
      obtain ⟨_, hreads, us, vs, rfl, hus, hvs⟩ := hshows file []
      refine ⟨us ++ vs, ⟨us ++ vs, lit "\n", ?_, .blank rfl .nil, rfl⟩, hreads.lexemes,
        .moreDeclarations hus hvs⟩
      have htext : Text.join (lit "\n") (Layout.lines 0 (s :: ss)) =
          Layout.stmt 0 s ++ onLines (Layout.lines 0 ss) := join_cons _ _
      rwa [List.isEmpty_cons, if_neg Bool.false_ne_true, htext]

end Grammar

namespace Program

open Grammar

/-- Writing a program in canonical form keeps the program. Whatever a source was read as, its
canonical form is read again, under any file name; the tree is the same but for spans, so its
canonical form is the same text. -/
theorem parse_layout (file file' source : Text) (p : Program) (h : parse file source = .ok p) :
    ∃ q, parse file' p.layout = .ok q ∧ q.bare = p.bare ∧ q.layout = p.layout := by
  obtain ⟨ts, -, hts, hderives⟩ := parse_derives h
  obtain ⟨us, hspells, hus, hderives'⟩ := layout_spells hderives hts file'
  have hended : Parser.Ended (us ++ [eofAt file' p.layout]) := by
    refine Parser.ended_of_eof rfl fun t ht => ?_
    obtain ⟨bytes, hlexeme⟩ := hus t ht
    exact hlexeme.ne_eof
  obtain ⟨q, hq, hbare⟩ := ofTokens_complete file' hended ⟨us, _, rfl, rfl, hderives'⟩
  have hsame : q.bare = p.bare := by rw [Program.bare, hbare, Program.bare]
  refine ⟨q, ?_, hsame, ?_⟩
  · rw [parse, scan_eq_ok_iff.2 hspells]
    exact hq
  · rw [← q.layout_bare, hsame, p.layout_bare]

/-- A dangling `else`, a comment, a number with a zero too many and a property right after one. -/
theorem parse_layout_danglingElse :
    let source := lit "if(a)if(b)print - -1.50.c;// no\nelse d=fun()\x7breturn\"e\";\x7d;"
    let text := lit ("if (a)\n  if (b)\n    print --1.5.c;\n  else\n    d = fun () \x7b\n" ++
      "      return \"e\";\n    \x7d;\n")
    ∃ p q, parse [] source = .ok p ∧ p.layout = text ∧ parse [] text = .ok q ∧ q.bare = p.bare := by
  intro source text
  have hlayout : (parse [] source).toOption.map Program.layout = some text := by decide +kernel
  cases hp : parse [] source with
  | error ds =>
    rw [hp] at hlayout
    cases hlayout
  | ok p =>
    rw [hp] at hlayout
    have htext : p.layout = text := Option.some.inj hlayout
    obtain ⟨q, hq, hbare, -⟩ := parse_layout [] [] source p hp
    rw [htext] at hq
    exact ⟨p, q, rfl, htext, hq, hbare⟩

end Program
end Lox
