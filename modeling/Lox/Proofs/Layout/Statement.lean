import Lox.Proofs.Layout.Expression

set_option autoImplicit false
set_option relaxedAutoImplicit false

namespace Lox

open Text (lit)
open Token

namespace Grammar

open Lox.Parser (maxArgs)

/-! ### Parameters and lines -/

private theorem shows_paramList {p : Param} {ps : List Param}
    (hps : ∀ q ∈ p :: ps, IsLexeme .name q.name q.name) (rest : Text) :
    Shows (Text.join (lit ", ") ((p :: ps).map Param.name) ++ Mark.rightParen.spelling) rest
      (IsParamList · (p :: ps)) := by
  induction ps generalizing p with
  | nil =>
    have htext : Text.join (lit ", ") ([p].map Param.name) = p.name := by simp [Text.join]
    rw [htext]
    refine (Shows.append (.apart (hps p (by simp)) (.cons _ (by decide)))
      (.mark (by decide) rest)).imp
      ?_
    rintro _ ⟨_, _, rfl, ⟨t, rfl, ht, htext⟩, close, rfl, hclose, -⟩
    obtain ⟨s, n⟩ := p
    cases htext
    exact .last ht hclose
  | cons q ps ih =>
    have htext : Text.join (lit ", ") ((p :: q :: ps).map Param.name) ++ Mark.rightParen.spelling =
        p.name ++ (Mark.comma.spelling ++ Byte.space ::
          (Text.join (lit ", ") ((q :: ps).map Param.name) ++ Mark.rightParen.spelling)) := by
      simp only [Text.join, List.map_cons, List.intercalate_cons_cons, List.append_assoc]
      rfl
    rw [htext]
    have hlist := ih fun r hr => hps r (List.mem_cons_of_mem _ hr)
    have hne : ¬ IsParamList [] (q :: ps) := by rintro ⟨⟩
    refine (Shows.append (.apart (hps p (by simp)) (.cons _ (by decide)))
      (.word (.mark .comma) hlist hne)).imp ?_
    rintro _ ⟨_, _, rfl, ⟨t, rfl, ht, htext⟩, _, us, rfl, ⟨comma, rfl, hcomma, -⟩, hus⟩
    obtain ⟨s, n⟩ := p
    cases htext
    exact .more ht hcomma hus

def Param.Admitted (ps : List Param) : Prop :=
  (∀ p ∈ ps, IsLexeme .name p.name p.name) ∧ ps.length ≤ maxArgs

theorem IsParams.admitted {ts : List Token} {ps : List Param} (h : IsParams ts ps)
    (hts : Lexical ts) : Param.Admitted ps := by
  cases h with
  | none => exact ⟨nofun, Nat.zero_le _⟩
  | some _ hlist hcount =>
    rw [Lexical, List.forall_mem_cons] at hts
    have hnames :=
      hlist.forall_name (P := fun n => IsLexeme .name n n) fun t ht => .of_name (hts.2 t ht)
    exact ⟨hnames, hcount⟩

private theorem shows_params {ps : List Param} (hps : Param.Admitted ps) (rest : Text) :
    Shows (Param.listSource ps) rest (IsParams · ps) := by
  have htext : Param.listSource ps = Mark.leftParen.spelling ++
      (Text.join (lit ", ") (ps.map Param.name) ++ Mark.rightParen.spelling) := by
    rw [Param.listSource, List.append_assoc]
    rfl
  rw [htext]
  cases ps with
  | nil =>
    refine (Shows.append (.mark (by decide) _) (.mark (m := .rightParen) (by decide) rest)).imp ?_
    rintro _ ⟨_, _, rfl, ⟨left, rfl, hleft, -⟩, right, rfl, hright, -⟩
    exact .none hleft hright
  | cons p ps =>
    refine (Shows.append (.mark (by decide) _) (shows_paramList hps.1 rest)).imp ?_
    rintro _ ⟨_, us, rfl, ⟨left, rfl, hleft, -⟩, hus⟩
    exact .some hleft hus hps.2

def onLines (ls : List Text) : Text := ls.flatMap (Byte.lineFeed :: ·)

theorem lineFeed_join (l : Text) (ls : List Text) :
    Byte.lineFeed :: Text.join (lit "\n") (l :: ls) = onLines (l :: ls) := by
  induction ls generalizing l with
  | nil => simp [Text.join, onLines]
  | cons l' ls ih =>
    have hjoin : Text.join (lit "\n") (l :: l' :: ls) =
        l ++ Byte.lineFeed :: Text.join (lit "\n") (l' :: ls) := by
      simp only [Text.join, List.intercalate_cons_cons, List.append_assoc]
      rfl
    rw [hjoin, ih]
    rfl

private theorem blank_indentation (depth : Nat) :
    ∀ b ∈ Layout.indentation depth, isBlank b = true := by
  intro b hb
  rw [List.eq_of_mem_replicate hb]
  rfl

private theorem blank_newLine (depth : Nat) :
    ∀ b ∈ Byte.lineFeed :: Layout.indentation depth, isBlank b = true := by
  rw [List.forall_mem_cons]
  exact ⟨rfl, blank_indentation depth⟩

private theorem braced_eq (depth : Nat) (ls : List Text) :
    ∃ g, (∀ b ∈ g, isBlank b = true) ∧ Layout.braced depth ls =
      Mark.leftBrace.spelling ++ (onLines ls ++ (g ++ Mark.rightBrace.spelling)) := by
  cases ls with
  | nil => exact ⟨[], nofun, rfl⟩
  | cons l ls =>
    refine ⟨Byte.lineFeed :: Layout.indentation depth, blank_newLine depth, ?_⟩
    rw [← lineFeed_join]
    simp only [Layout.braced, List.append_assoc]
    rfl

/-! ### Statements -/

def ShowsStmt (sym : Sym) (s : Stmt) : Prop :=
  ∀ depth rest, Shows (Layout.stmt depth s) rest (Derives sym · (.stmt s))

def ShowsStmts (ss : List Stmt) : Prop :=
  ∀ depth rest, Shows (onLines (Layout.lines depth ss)) rest (Derives .declarations · (.stmts ss))

def ShowsFunction (d : FunDecl) : Prop :=
  ∀ depth rest, Shows (Layout.funDecl depth d) rest (Derives .function · (.function d))

theorem ShowsStmt.imp {sym sym' : Sym} {s : Stmt} (h : ShowsStmt sym s)
    (himp : ∀ ts, Derives sym ts (.stmt s) → Derives sym' ts (.stmt s)) : ShowsStmt sym' s :=
  fun depth rest => (h depth rest).imp himp

section Statements

-- Their equations are derived here, once, and not by all the proofs below that rewrite with them.
attribute [local simp] Layout.stmt Layout.funDecl Layout.funLines

variable {span : Span} {sym : Sym} {c e : Expr} {s body yes no : Stmt} {ss : List Stmt}
  {ps : List Param} {d : FunDecl} {methods statics : List FunDecl} {depth : Nat} {rest : Text}

theorem shows_noDeclarations : ShowsStmts [] := fun _ _ => .nil .noDeclarations

theorem shows_moreDeclarations (hs : ShowsStmt .declaration s) (hss : ShowsStmts ss) :
    ShowsStmts (s :: ss) := by
  intro depth rest
  have htext : onLines (Layout.lines depth (s :: ss)) =
      (Byte.lineFeed :: Layout.indentation depth ++ Layout.stmt depth s) ++
        onLines (Layout.lines depth ss) := rfl
  rw [htext]
  refine (Shows.append ((hs depth _).blanks (blank_newLine depth) (not_derives_nil (by decide)))
    (hss depth rest)).imp ?_
  rintro _ ⟨us, vs, rfl, hus, hvs⟩
  exact .moreDeclarations hus hvs

private theorem shows_block (hss : ShowsStmts ss) :
    Shows (Layout.braced depth (Layout.lines (depth + 1) ss)) rest
      (Derives .block · (.stmts ss)) := by
  obtain ⟨g, hg, htext⟩ := braced_eq depth (Layout.lines (depth + 1) ss)
  rw [htext]
  refine (Shows.append (.mark (by decide) _) (.append (hss (depth + 1) _)
    ((Shows.mark (by decide) rest).blanks hg not_one_nil))).imp ?_
  rintro _ ⟨_, _, rfl, ⟨left, rfl, hleft, -⟩, us, _, rfl, hus, right, rfl, hright, -⟩
  exact .block hleft hus hright

theorem shows_function {name : Token} (hname : IsLexeme .name name.text name.text)
    (hps : Param.Admitted ps) (hss : ShowsStmts ss) :
    ShowsFunction (.mk span name.text ps ss) := by
  intro depth rest
  have htext : Layout.funDecl depth (.mk span name.text ps ss) =
    name.text ++ (Param.listSource ps ++
      Byte.space :: Layout.braced depth (Layout.lines (depth + 1) ss)) := by
    rw [Layout.funDecl]
    simp only [List.append_assoc]
    rfl
  rw [htext]
  refine (Shows.append (.apart hname ?_) (.append (shows_params hps _)
    ((shows_block hss).blank (by decide) (not_derives_nil (by decide))))).imp ?_
  · rw [Param.listSource]
    exact .cons _ (by decide)
  · rintro _ ⟨_, _, rfl, ⟨t, rfl, ht, htext⟩, us, vs, rfl, hus, hvs⟩
    rw [← htext]
    show Derives .function (t :: (us ++ vs)) _
    exact .function ht hus hvs

theorem shows_lambda (hps : Param.Admitted ps) (hss : ShowsStmts ss) :
    ShowsExpr .primary (.lambda span ps ss) := by
  intro depth rest _
  have htext : Layout.expr depth (.lambda span ps ss) = Keyword.fun_.spelling ++ Byte.space ::
      (Param.listSource ps ++ Byte.space :: Layout.braced depth (Layout.lines (depth + 1) ss)) := by
    rw [Layout.expr]
    simp only [List.append_assoc]
    rfl
  rw [htext]
  have hne : ¬ IsParams [] ps := nofun
  refine (Shows.word (.keyword .fun_) (.append (shows_params hps _)
    ((shows_block hss).blank (by decide) (not_derives_nil (by decide)))) (not_then_nil hne)).imp ?_
  rintro _ ⟨_, _, rfl, ⟨t, rfl, ht, -⟩, us, vs, rfl, hus, hvs⟩
  show Derives .primary (t :: (us ++ vs)) _
  exact .lambda ht hus hvs

theorem shows_funDecl (hd : ShowsFunction d) : ShowsStmt .declaration (.funDecl d) := by
  intro depth rest
  refine (Shows.word (.keyword .fun_) (hd depth rest) (not_derives_nil (by decide))).imp ?_
  rintro _ ⟨_, us, rfl, ⟨t, rfl, ht, -⟩, hus⟩
  exact .funDecl ht hus

private theorem shows_methods (hmethods : ∀ d ∈ methods, ShowsFunction d) :
    Shows (onLines (Layout.funLines depth [] methods)) rest
      (Derives .members · (.members methods [])) := by
  induction methods with
  | nil => exact .nil .noMembers
  | cons d methods ih =>
    rw [List.forall_mem_cons] at hmethods
    have htext : onLines (Layout.funLines depth [] (d :: methods)) =
        (Byte.lineFeed :: Layout.indentation depth ++ Layout.funDecl depth d) ++
          onLines (Layout.funLines depth [] methods) := by
      simp [onLines, Layout.funLines]
    rw [htext]
    refine (Shows.append ((hmethods.1 depth _).blanks (blank_newLine depth)
      (not_derives_nil (by decide))) (ih hmethods.2)).imp ?_
    rintro _ ⟨us, vs, rfl, hus, hvs⟩
    exact .method hus hvs

private theorem shows_members (hmethods : ∀ d ∈ methods, ShowsFunction d)
    (hstatics : ∀ d ∈ statics, ShowsFunction d) :
    Shows (onLines
      (Layout.funLines depth (lit "class ") statics ++ Layout.funLines depth [] methods))
      rest (Derives .members · (.members methods statics)) := by
  induction statics with
  | nil => exact shows_methods hmethods
  | cons d statics ih =>
    rw [List.forall_mem_cons] at hstatics
    have htext : onLines (Layout.funLines depth (lit "class ") (d :: statics) ++
          Layout.funLines depth [] methods) =
        (Byte.lineFeed :: Layout.indentation depth ++
          (Keyword.class_.spelling ++ Byte.space :: Layout.funDecl depth d)) ++
          onLines (Layout.funLines depth (lit "class ") statics ++
            Layout.funLines depth [] methods) := by
      rw [Layout.funLines, List.append_assoc]
      rfl
    rw [htext]
    refine (Shows.append ((Shows.word (.keyword .class_) (hstatics.1 depth _)
      (not_derives_nil (by decide))).blanks (blank_newLine depth) (not_then_nil not_one_nil))
      (ih hstatics.2)).imp ?_
    rintro _ ⟨_, vs, rfl, ⟨_, us, rfl, ⟨t, rfl, ht, -⟩, hus⟩, hvs⟩
    exact .static ht hus hvs

private theorem shows_classBody (hmethods : ∀ d ∈ methods, ShowsFunction d)
    (hstatics : ∀ d ∈ statics, ShowsFunction d) :
    Shows (Layout.braced depth (Layout.funLines (depth + 1) (lit "class ") statics ++
        Layout.funLines (depth + 1) [] methods)) rest
      (Then (One (.mark .leftBrace) Mark.leftBrace.spelling)
        (Then (Derives .members · (.members methods statics))
          (One (.mark .rightBrace) Mark.rightBrace.spelling))) := by
  obtain ⟨g, hg, htext⟩ := braced_eq depth (Layout.funLines (depth + 1) (lit "class ") statics ++
    Layout.funLines (depth + 1) [] methods)
  rw [htext]
  exact .append (.mark (by decide) _) (.append (shows_members hmethods hstatics)
    ((Shows.mark (by decide) rest).blanks hg not_one_nil))

theorem shows_class {name : Token} (hname : IsLexeme .name name.text name.text)
    (hmethods : ∀ d ∈ methods, ShowsFunction d) (hstatics : ∀ d ∈ statics, ShowsFunction d) :
    ShowsStmt .declaration (.classDecl span name.text none methods statics) := by
  intro depth rest
  have htext : Layout.stmt depth (.classDecl span name.text none methods statics) =
      Keyword.class_.spelling ++ Byte.space :: (name.text ++ Byte.space ::
        Layout.braced depth (Layout.funLines (depth + 1) (lit "class ") statics ++
          Layout.funLines (depth + 1) [] methods)) := by
    rw [Layout.stmt]
    simp only [List.append_assoc]
    rfl
  rw [htext]
  refine (Shows.word (.keyword .class_) (.word hname (shows_classBody hmethods hstatics)
    (not_then_nil not_one_nil)) (not_then_nil not_one_nil)).imp ?_
  rintro _ ⟨_, _, rfl, ⟨t, rfl, ht, -⟩, _, _, rfl, ⟨n, rfl, hn, htext⟩, _, _, rfl,
    ⟨left, rfl, hleft, -⟩, us, _, rfl, hus, right, rfl, hright, -⟩
  rw [← htext]
  exact .classDecl ht hn .none hleft hus hright

theorem shows_subclass {name sup : Token} {s : Span} (hname : IsLexeme .name name.text name.text)
    (hsup : IsLexeme .name sup.text sup.text)
    (hmethods : ∀ d ∈ methods, ShowsFunction d) (hstatics : ∀ d ∈ statics, ShowsFunction d) :
    ShowsStmt .declaration (.classDecl span name.text
      (some { span := s, name := sup.text, hops := none }) methods statics) := by
  intro depth rest
  have htext : Layout.stmt depth (.classDecl span name.text
      (some { span := s, name := sup.text, hops := none }) methods statics) =
      Keyword.class_.spelling ++ Byte.space :: (name.text ++ Byte.space :: (Mark.less.spelling ++
        Byte.space :: (sup.text ++ Byte.space :: Layout.braced depth (Layout.funLines (depth + 1)
          (lit "class ") statics ++ Layout.funLines (depth + 1) [] methods)))) := by
    rw [Layout.stmt]
    simp only [List.append_assoc]
    rfl
  rw [htext]
  refine (Shows.word (.keyword .class_) (.append (.apart hname (.cons _ (by decide)))
    (.spaced (.mark .less) (.word hsup (shows_classBody hmethods hstatics)
      (not_then_nil not_one_nil)) (not_then_nil not_one_nil))) (not_then_nil not_one_nil)).imp ?_
  rintro _ ⟨_, _, rfl, ⟨t, rfl, ht, -⟩, _, _, rfl, ⟨n, rfl, hn, htext⟩, _, _, rfl,
    ⟨less, rfl, hless, -⟩, _, _, rfl, ⟨n', rfl, hn', htext'⟩, _, _, rfl, ⟨left, rfl, hleft, -⟩, us,
    _, rfl, hus, right, rfl, hright, -⟩
  rw [← htext, ← htext']
  exact .classDecl ht hn (.some hless hn') hleft hus hright

theorem shows_noValue {name : Token} (hname : IsLexeme .name name.text name.text) :
    ShowsStmt .variable_ (.varDecl span name.text none) := by
  intro depth rest
  have htext : Layout.stmt depth (.varDecl span name.text none) =
      Keyword.var_.spelling ++ Byte.space :: (name.text ++ Mark.semicolon.spelling) := by
    rw [Layout.stmt, List.append_assoc]
    rfl
  rw [htext]
  refine (Shows.word (.keyword .var_) (.append (.apart hname (.cons _ (by decide)))
    (.mark (by decide) rest)) (not_then_nil not_one_nil)).imp ?_
  rintro _ ⟨_, _, rfl, ⟨t, rfl, ht, -⟩, _, _, rfl, ⟨n, rfl, hn, htext⟩, semicolon, rfl, hsemi, -⟩
  rw [← htext]
  exact .noValue ht hn hsemi

theorem shows_value {name : Token} (hname : IsLexeme .name name.text name.text)
    (he : ShowsExpr .expression e) : ShowsStmt .variable_ (.varDecl span name.text (some e)) := by
  intro depth rest
  have htext : Layout.stmt depth (.varDecl span name.text (some e)) =
      Keyword.var_.spelling ++ Byte.space :: (name.text ++ Byte.space :: (Mark.equal.spelling ++
        Byte.space :: (Layout.expr depth e ++ Mark.semicolon.spelling))) := by
    rw [Layout.stmt]
    simp only [List.append_assoc]
    rfl
  rw [htext]
  refine (Shows.word (.keyword .var_) (.append (.apart hname (.cons _ (by decide))) (.spaced
    (.mark .equal) (.append (he depth _ (.cons _ (by decide))) (.mark (by decide) rest))
    (not_then_nil (not_derives_nil (by decide))))) (not_then_nil not_one_nil)).imp ?_
  rintro _ ⟨_, _, rfl, ⟨t, rfl, ht, -⟩, _, _, rfl, ⟨n, rfl, hn, htext⟩, _, _, rfl,
    ⟨equal, rfl, hequal, -⟩, us, _, rfl, hus, semicolon, rfl, hsemi, -⟩
  rw [← htext]
  exact .value ht hn hequal hus hsemi

private theorem shows_terminated (he : ShowsExpr .expression e) :
    Shows (Layout.expr depth e ++ Mark.semicolon.spelling) rest
      (Then (Derives .expression · (.expr e)) (One (.mark .semicolon) Mark.semicolon.spelling)) :=
  .append (he depth _ (.cons _ (by decide))) (.mark (by decide) rest)

theorem shows_exprStmt (he : ShowsExpr .expression e) :
    ShowsStmt .statement (.exprStmt span e) := by
  intro depth rest
  refine (shows_terminated he).imp ?_
  rintro _ ⟨us, _, rfl, hus, semicolon, rfl, hsemi, -⟩
  exact .exprStmt hus hsemi

theorem shows_print (he : ShowsExpr .expression e) : ShowsStmt .statement (.printStmt span e) := by
  intro depth rest
  have htext : Layout.stmt depth (.printStmt span e) = Keyword.print_.spelling ++ Byte.space ::
      (Layout.expr depth e ++ Mark.semicolon.spelling) := by
    rw [Layout.stmt, List.append_assoc]
    rfl
  rw [htext]
  refine (Shows.word (.keyword .print_) (shows_terminated he)
    (not_then_nil (not_derives_nil (by decide)))).imp ?_
  rintro _ ⟨_, _, rfl, ⟨t, rfl, ht, -⟩, us, _, rfl, hus, semicolon, rfl, hsemi, -⟩
  exact .print ht hus hsemi

theorem shows_break : ShowsStmt .statement (.breakStmt span) := by
  intro depth rest
  refine (Shows.append (.apart (.keyword .break_) (.cons _ (by decide)))
    (.mark (m := .semicolon) (by decide) rest)).imp ?_
  rintro _ ⟨_, _, rfl, ⟨t, rfl, ht, -⟩, semicolon, rfl, hsemi, -⟩
  exact .break_ ht hsemi

theorem shows_inBlock (hss : ShowsStmts ss) : ShowsStmt .statement (.block span ss) := by
  intro depth rest
  have htext : Layout.stmt depth (.block span ss) =
      Layout.braced depth (Layout.lines (depth + 1) ss) := by rw [Layout.stmt]
  rw [htext]
  exact (shows_block hss).imp fun us hus => .inBlock hus

/-! ### Branches and loops -/

private theorem shows_attached (hs : ShowsStmt .statement s) (sameLine : Bool) :
    Shows (Layout.attached sameLine depth fun d => Layout.stmt d s) rest
      (Derives .statement · (.stmt s)) := by
  unfold Layout.attached
  have hne : ¬ Derives .statement [] (.stmt s) := not_derives_nil (by decide)
  split
  · exact (hs depth rest).blank (by decide) hne
  · exact (hs (depth + 1) rest).blanks (blank_newLine (depth + 1)) hne

private theorem apart_attached (sameLine : Bool) (layout : Nat → Text) :
    Apart (Layout.attached sameLine depth layout ++ rest) := by
  unfold Layout.attached
  split
  · exact .cons _ (by decide)
  · exact .cons _ (by decide)

private theorem shows_condition {k : Keyword} {u : Text} {Q : List Token → Prop}
    (hc : ShowsExpr .expression c) (hu : Shows u rest Q) :
    Shows (k.spelling ++ Byte.space :: (Mark.leftParen.spelling ++ (Layout.expr depth c ++
        (Mark.rightParen.spelling ++ u)))) rest
      (Then (One (.keyword k) k.spelling) (Then (One (.mark .leftParen) Mark.leftParen.spelling)
        (Then (Derives .expression · (.expr c))
          (Then (One (.mark .rightParen) Mark.rightParen.spelling) Q)))) :=
  .word (.keyword k) (.append (.mark (by decide) _) (.append (hc depth _ (.cons _ (by decide)))
    (.append (.mark (by decide) _) hu))) (not_then_nil not_one_nil)

theorem shows_while (hc : ShowsExpr .expression c) (hbody : ShowsStmt .statement body) :
    ShowsStmt .statement (.whileStmt span c body) := by
  intro depth rest
  have htext : Layout.stmt depth (.whileStmt span c body) = Keyword.while_.spelling ++ Byte.space ::
      (Mark.leftParen.spelling ++ (Layout.expr depth c ++ (Mark.rightParen.spelling ++
        Layout.attached body.isBlock depth fun d => Layout.stmt d body))) := by
    rw [Layout.stmt]
    simp only [List.append_assoc]
    rfl
  rw [htext]
  refine (shows_condition hc (shows_attached hbody _)).imp ?_
  rintro _ ⟨_, _, rfl, ⟨t, rfl, ht, -⟩, _, _, rfl, ⟨left, rfl, hleft, -⟩, us, _, rfl, hus,
    _, vs, rfl, ⟨right, rfl, hright, -⟩, hvs⟩
  exact .while_ ht hleft hus hright hvs

theorem shows_if (hc : ShowsExpr .expression c) (hyes : ShowsStmt .statement yes) :
    ShowsStmt .statement (.ifStmt span c yes none) := by
  intro depth rest
  have htext : Layout.stmt depth (.ifStmt span c yes none) = Keyword.if_.spelling ++ Byte.space ::
      (Mark.leftParen.spelling ++ (Layout.expr depth c ++ (Mark.rightParen.spelling ++
        Layout.attached yes.isBlock depth fun d => Layout.stmt d yes))) := by
    rw [Layout.stmt]
    simp only [List.append_assoc]
    rfl
  rw [htext]
  refine (shows_condition hc (shows_attached hyes _)).imp ?_
  rintro _ ⟨_, _, rfl, ⟨t, rfl, ht, -⟩, _, _, rfl, ⟨left, rfl, hleft, -⟩, us, _, rfl, hus,
    _, vs, rfl, ⟨right, rfl, hright, -⟩, hvs⟩
  exact .if_ ht hleft hus hright hvs

private theorem shows_else (sameLine : Bool) (hno : ShowsStmt .statement no) :
    Shows ((if sameLine then lit " else" else lit "\n" ++ Layout.indentation depth ++ lit "else") ++
        Layout.attached (no.isBlock || no.isBranch) depth fun d => Layout.stmt d no) rest
      (Then (One (.keyword .else_) Keyword.else_.spelling) (Derives .statement · (.stmt no))) := by
  have helse : Shows Keyword.else_.spelling
      ((Layout.attached (no.isBlock || no.isBranch) depth fun d => Layout.stmt d no) ++ rest)
      (One (.keyword .else_) Keyword.else_.spelling) :=
    .apart (.keyword .else_) (apart_attached _ _)
  refine .append ?_ (shows_attached hno _)
  cases sameLine with
  | true => exact helse.blank (by decide) not_one_nil
  | false => exact helse.blanks (blank_newLine depth) not_one_nil

theorem shows_ifElse (hc : ShowsExpr .expression c) (hyes : ShowsStmt .statement yes)
    (hclosed : yes.endsOpen = false) (hno : ShowsStmt .statement no) :
    ShowsStmt .statement (.ifStmt span c yes (some no)) := by
  intro depth rest
  have htext : Layout.stmt depth (.ifStmt span c yes (some no)) = Keyword.if_.spelling ++
      Byte.space :: (Mark.leftParen.spelling ++ (Layout.expr depth c ++ (Mark.rightParen.spelling ++
        ((Layout.attached yes.isBlock depth fun d => Layout.stmt d yes) ++
          ((if yes.isBlock then lit " else" else lit "\n" ++
            Layout.indentation depth ++ lit "else") ++
            Layout.attached (no.isBlock || no.isBranch) depth fun d => Layout.stmt d no))))) := by
    rw [Layout.stmt]
    simp only [List.append_assoc]
    rfl
  rw [htext]
  refine (shows_condition hc (.append (shows_attached hyes _) (shows_else _ hno))).imp ?_
  rintro _ ⟨_, _, rfl, ⟨t, rfl, ht, -⟩, _, _, rfl, ⟨left, rfl, hleft, -⟩, us, _, rfl, hus,
    _, _, rfl, ⟨right, rfl, hright, -⟩, vs, _, rfl, hvs, _, ws, rfl, ⟨else_, rfl, helse, -⟩, hws⟩
  exact .ifElse ht hleft hus hright hvs hclosed helse hws

def initText (depth : Nat) : Option Stmt → Text
  | none => lit ";"
  | some s => Layout.stmt depth s

def clauseText (depth : Nat) : Option Expr → Text
  | none => []
  | some e => Byte.space :: Layout.expr depth e

def ShowsInit (init : Option Stmt) : Prop :=
  ∀ depth rest, Shows (initText depth init) rest (Derives .forInit · (.init init))

def ShowsClause (clause : Option Expr) : Prop :=
  ∀ depth rest, Apart rest → Shows (clauseText depth clause) rest
    (Derives .clause · (.clause clause))

theorem shows_noInit : ShowsInit none := by
  intro depth rest
  refine (Shows.mark (m := .semicolon) (by decide) rest).imp ?_
  rintro _ ⟨semicolon, rfl, hsemi, -⟩
  exact .noInit hsemi

theorem shows_varInit (hs : ShowsStmt .variable_ s) : ShowsInit (some s) :=
  fun depth rest => (hs depth rest).imp fun _ hus => .varInit hus

theorem shows_exprInit (he : ShowsExpr .expression e) : ShowsInit (some (.exprStmt span e)) := by
  intro depth rest
  refine (shows_terminated he).imp ?_
  rintro _ ⟨us, _, rfl, hus, semicolon, rfl, hsemi, -⟩
  exact .exprInit hus hsemi

theorem shows_noClause : ShowsClause none := fun _ _ _ => .nil .noClause

theorem shows_someClause (he : ShowsExpr .expression e) : ShowsClause (some e) := by
  intro depth rest hrest
  refine ((he depth rest hrest).blank (by decide) (not_derives_nil (by decide))).imp ?_
  exact fun _ hus => .someClause hus

private theorem apart_clauseText (depth : Nat) (clause : Option Expr) (rest : Text) :
    Apart (clauseText depth clause ++ (Mark.semicolon.spelling ++ rest)) := by
  cases clause with
  | none => exact .cons _ (by decide)
  | some e => exact .cons _ (by decide)

theorem shows_return {value : Option Expr} (hvalue : ShowsClause value) :
    ShowsStmt .statement (.returnStmt span value) := by
  intro depth rest
  have htext : Layout.stmt depth (.returnStmt span value) =
      Keyword.return_.spelling ++ (clauseText depth value ++ Mark.semicolon.spelling) := by
    cases value with
    | none => rfl
    | some e =>
      rw [Layout.stmt, List.append_assoc]
      rfl
  rw [htext]
  refine (Shows.append (.apart (.keyword .return_) ?_)
    (.append (hvalue depth _ (.cons _ (by decide)))
    (.mark (by decide) rest))).imp ?_
  · rw [List.append_assoc]
    exact apart_clauseText depth value rest
  · rintro _ ⟨_, _, rfl, ⟨t, rfl, ht, -⟩, us, _, rfl, hus, semicolon, rfl, hsemi, -⟩
    exact .return_ ht hus hsemi

private theorem layout_for (depth : Nat) (init : Option Stmt) (c step : Option Expr) (body : Stmt) :
    Layout.stmt depth (.forStmt span init c step body) = Keyword.for_.spelling ++ Byte.space ::
      (Mark.leftParen.spelling ++ (initText depth init ++ (clauseText depth c ++
        (Mark.semicolon.spelling ++ (clauseText depth step ++ (Mark.rightParen.spelling ++
          Layout.attached body.isBlock depth fun d => Layout.stmt d body)))))) := by
  have hcondition : Layout.condition depth c = clauseText depth c ++ Mark.semicolon.spelling := by
    cases c <;> rfl
  have hstep : Layout.step depth step = clauseText depth step := by
    cases step <;> rfl
  cases init with
  | none =>
    rw [Layout.stmt, hcondition, hstep]
    simp only [List.append_assoc]
    rfl
  | some s =>
    rw [Layout.stmt, hcondition, hstep]
    simp only [List.append_assoc]
    rfl

theorem shows_for {init : Option Stmt} {c step : Option Expr} (hinit : ShowsInit init)
    (hc : ShowsClause c) (hstep : ShowsClause step) (hbody : ShowsStmt .statement body) :
    ShowsStmt .statement (.forStmt span init c step body) := by
  intro depth rest
  rw [layout_for]
  refine (Shows.word (.keyword .for_) (.append (.mark (by decide) _) (.append (hinit depth _)
    (.append (hc depth _ (.cons _ (by decide))) (.append (.mark (by decide) _) (.append
      (hstep depth _ (.cons _ (by decide))) (.append (.mark (by decide) _)
        (shows_attached hbody _))))))) (not_then_nil not_one_nil)).imp ?_
  rintro _ ⟨_, _, rfl, ⟨t, rfl, ht, -⟩, _, _, rfl, ⟨left, rfl, hleft, -⟩, us, _, rfl, hus, vs, _,
    rfl, hvs, _, _, rfl, ⟨semicolon, rfl, hsemi, -⟩, ws, _, rfl, hws, _, xs, rfl,
    ⟨right, rfl, hright, -⟩, hxs⟩
  have hfor := Derives.for_ (s := span) ht hleft hus hvs hsemi hws hright hxs
  rw [List.append_assoc] at hfor
  exact hfor

end Statements
end Grammar
end Lox
