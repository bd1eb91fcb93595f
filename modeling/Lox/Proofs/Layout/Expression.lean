import Lox.Proofs.Layout.Shows
import Lox.Syntax.Layout

set_option autoImplicit false
set_option relaxedAutoImplicit false

namespace Lox

open Text (lit)
open Token

/-! ### No parentheses are added -/

namespace Layout

private theorem wrapped_left {inner outer : Int} (h : outer ≤ inner) (t : Text) :
    wrapped inner outer .left t = t := by
  have hlt : ¬ inner < outer := by omega
  simp [wrapped, needsParens, hlt]

private theorem wrapped_right {inner outer : Int} (h : outer < inner) (t : Text) :
    wrapped inner outer .right t = t := by
  have hlt : ¬ inner < outer := by omega
  have hne : inner ≠ outer := by omega
  simp [wrapped, needsParens, hlt, hne]

end Layout

namespace Grammar

open Lox.Parser (Tier Operator)

def Sym.rank : Sym → Int
  | .expression => -3
  | .conditional => -2
  | .tier .or => -1
  | .tier .and => 0
  | .tier .equality => 1
  | .tier .comparison => 2
  | .tier .term => 3
  | .tier .factor => 4
  | .unary => 5
  | _ => 6

def Node.rank : Node → Int
  | .expr e => e.rank
  | _ => 6

theorem rank_operandOf (tier : Tier) :
    (operandOf tier).rank = (Sym.tier tier).rank + 1 := by
  cases tier <;> rfl

theorem IsOperator.rank_combine {tier : Tier} {kind : Kind} {op : Operator}
    (h : IsOperator tier kind op) (s : Span) (a b : Expr) :
    (combine s a b op).rank = (Sym.tier tier).rank := by
  cases h <;> rfl

theorem Derives.rank_le {sym : Sym} {ts : List Token} {n : Node} (h : Derives sym ts n) :
    sym.rank ≤ n.rank := by
  induction h with
  | chain _ hop _ => exact Int.le_of_eq (hop.rank_combine _ _ _).symm
  | @operand tier _ _ _ ih =>
    rw [rank_operandOf] at ih
    omega
  | simple _ ih | plain _ ih | called _ ih | head _ ih => exact Int.le_trans (by decide) ih
  | _ => exact Int.le_refl _

end Grammar

/-! ### Lexemes of the language -/

namespace Token

def Lexical (ts : List Token) : Prop := ∀ t ∈ ts, ∃ bytes, IsLexeme t.kind t.text bytes

theorem IsLexeme.of_name {t : Token} (h : ∃ bytes, IsLexeme t.kind t.text bytes)
    (hk : t.kind = .name) : IsLexeme .name t.text t.text := by
  obtain ⟨kind, text, span⟩ := t
  obtain ⟨bytes, h⟩ := h
  cases hk
  cases h with
  | name hb hr hkey => exact .name hb hr hkey

private theorem IsLexeme.apart_dot {text : Text} (h : IsLexeme .name text text) (rest : Text) :
    Apart (Byte.dot :: (text ++ rest)) := by
  cases h with
  | name hb _ _ => exact .dot hb _

end Token

namespace Grammar

open Lox.Parser (Tier Operator maxArgs)

theorem not_derives_nil {sym : Sym} {n : Node} (h : sym.first ≠ []) : ¬ Derives sym [] n := by
  intro hd
  obtain ⟨t, us, heq, -⟩ := hd.starts h
  cases heq

theorem not_one_nil {kind : Kind} {text : Text} : ¬ One kind text [] := by
  rintro ⟨t, heq, -⟩
  cases heq

theorem not_then_nil {P Q : List Token → Prop} (h : ¬ P []) : ¬ Then P Q [] := by
  rintro ⟨us, vs, heq, hP, -⟩
  obtain ⟨rfl, -⟩ := List.append_eq_nil_iff.1 heq.symm
  exact h hP

def ShowsExpr (sym : Sym) (e : Expr) : Prop :=
  ∀ depth rest, Apart rest → Shows (Layout.expr depth e) rest (Derives sym · (.expr e))

/-- The canonical forms of arguments and the parenthesis after them read as the arguments. -/
def ShowsArguments (sym : Sym) (es : List Expr) : Prop :=
  ∀ depth rest,
    Shows (Text.join (lit ", ") (Layout.exprs depth es) ++ Mark.rightParen.spelling) rest
    (Derives sym · (.exprs es))

theorem ShowsExpr.imp {sym sym' : Sym} {e : Expr} (h : ShowsExpr sym e)
    (himp : ∀ ts, Derives sym ts (.expr e) → Derives sym' ts (.expr e)) : ShowsExpr sym' e :=
  fun depth rest hrest => (h depth rest hrest).imp himp

section Expressions

-- Their equations are derived here, once, and not by all the proofs below that rewrite with them.
attribute [local simp] Layout.expr Layout.exprs

variable {s : Span} {sym : Sym} {e a b c f object value : Expr} {args : List Expr}

theorem shows_assignName {name : Token} (hname : IsLexeme .name name.text name.text)
    (hvalue : ShowsExpr .expression value) :
    ShowsExpr .expression (.assign { span := s, name := name.text, hops := none } value) := by
  intro depth rest hrest
  have htext : Layout.expr depth (.assign { span := s, name := name.text, hops := none } value) =
      name.text ++ Byte.space ::
        (Mark.equal.spelling ++ Byte.space :: Layout.expr depth value) := by
    rw [Layout.expr, List.append_assoc]
    rfl
  rw [htext]
  refine (Shows.append (.apart hname (.cons _ (by decide))) (.spaced (.mark .equal)
    (hvalue depth rest hrest) (not_derives_nil (by decide)))).imp ?_
  rintro _ ⟨_, _, rfl, ⟨t, rfl, ht, htext⟩, _, us, rfl, ⟨equal, rfl, hequal, -⟩, hus⟩
  rw [← htext]
  exact .assignName ht hequal hus

theorem shows_get {name : Token} (hobject : ShowsExpr .call object)
    (hrank : 6 ≤ object.rank) (hname : IsLexeme .name name.text name.text) :
    ShowsExpr .call (.get s object name.text) := by
  intro depth rest hrest
  have htext : Layout.expr depth (.get s object name.text) =
      Layout.expr depth object ++ (Mark.dot.spelling ++ name.text) := by
    rw [Layout.expr, Layout.wrapped_left hrank, List.append_assoc]
    rfl
  rw [htext]
  refine (Shows.append (hobject depth _ ?_) (.append (.mark (by decide) _)
    (.apart hname hrest))).imp ?_
  · rw [List.append_assoc]
    exact hname.apart_dot rest
  · rintro _ ⟨us, _, rfl, hus, _, _, rfl, ⟨dot, rfl, hdot, -⟩, t, rfl, ht, htext⟩
    rw [← htext]
    exact .get hus hdot ht

theorem shows_assignField {name : Token} (hobject : ShowsExpr .call object)
    (hrank : 6 ≤ object.rank) (hname : IsLexeme .name name.text name.text)
    (hvalue : ShowsExpr .expression value) :
    ShowsExpr .expression (.set s object name.text value) := by
  intro depth rest hrest
  have htext : Layout.expr depth (.set s object name.text value) =
      Layout.expr depth object ++ (Mark.dot.spelling ++ (name.text ++
        Byte.space :: (Mark.equal.spelling ++ Byte.space :: Layout.expr depth value))) := by
    rw [Layout.expr, Layout.wrapped_left hrank]
    simp only [List.append_assoc]
    rfl
  rw [htext]
  refine (Shows.append (hobject depth _ ?_) (.append (.mark (by decide) _) (.append
    (.apart hname (.cons _ (by decide))) (.spaced (.mark .equal) (hvalue depth rest hrest)
      (not_derives_nil (by decide)))))).imp ?_
  · simp only [List.append_assoc]
    exact hname.apart_dot _
  · rintro _ ⟨us, _, rfl, hus, _, _, rfl, ⟨dot, rfl, hdot, -⟩, _, _, rfl, ⟨t, rfl, ht, htext⟩,
      _, vs, rfl, ⟨equal, rfl, hequal, -⟩, hvs⟩
    rw [← htext]
    exact .assignField hus hdot ht hequal hvs

theorem shows_choice (hc : ShowsExpr (.tier .or) c) (hcrank : -1 ≤ c.rank)
    (ha : ShowsExpr .expression a) (hb : ShowsExpr .conditional b) (hbrank : -2 ≤ b.rank) :
    ShowsExpr .conditional (.conditional s c a b) := by
  intro depth rest hrest
  have htext : Layout.expr depth (.conditional s c a b) =
      Layout.expr depth c ++ Byte.space :: (Mark.question.spelling ++ Byte.space ::
        (Layout.expr depth a ++ Byte.space :: (Mark.colon.spelling ++ Byte.space ::
          Layout.expr depth b))) := by
    rw [Layout.expr, Layout.wrapped_left hcrank, Layout.wrapped_left hbrank]
    simp only [List.append_assoc]
    rfl
  rw [htext]
  refine (Shows.append (hc depth _ (.cons _ (by decide))) (.spaced (.mark .question)
    (.append (ha depth _ (.cons _ (by decide))) (.spaced (.mark .colon) (hb depth rest hrest)
      (not_derives_nil (by decide)))) (not_then_nil (not_derives_nil (by decide))))).imp ?_
  rintro _ ⟨us, _, rfl, hus, _, _, rfl, ⟨question, rfl, hquestion, -⟩, vs, _, rfl, hvs,
    _, ws, rfl, ⟨colon, rfl, hcolon, -⟩, hws⟩
  exact .choice hus hquestion hvs hcolon hws

def spelled : Operator → Text
  | .logical op => op.spelling
  | .binary op => op.spelling

theorem IsOperator.lexeme {tier : Tier} {kind : Kind} {op : Operator}
    (h : IsOperator tier kind op) :
    IsLexeme kind (spelled op) (spelled op) := by
  cases h with
  | or => exact .keyword .or_
  | and => exact .keyword .and_
  | _ => exact .mark _

theorem layout_combine {op : Operator} (ha : (combine s a b op).rank ≤ a.rank)
    (hb : (combine s a b op).rank < b.rank) (depth : Nat) :
    Layout.expr depth (combine s a b op) =
      Layout.expr depth a ++ Byte.space :: (spelled op ++ Byte.space :: Layout.expr depth b) := by
  cases op with
  | logical op =>
    have ha : op.rank ≤ a.rank := ha
    have hb : op.rank < b.rank := hb
    rw [combine, Layout.expr, Layout.wrapped_left ha, Layout.wrapped_right hb]
    simp only [List.append_assoc]
    rfl
  | binary op =>
    have ha : op.rank ≤ a.rank := ha
    have hb : op.rank < b.rank := hb
    rw [combine, Layout.expr, Layout.wrapped_left ha, Layout.wrapped_right hb]
    simp only [List.append_assoc]
    rfl

theorem shows_chain {tier : Tier} {kind : Kind} {op : Operator} (ha : ShowsExpr (.tier tier) a)
    (harank : (Sym.tier tier).rank ≤ a.rank) (hop : IsOperator tier kind op)
    (hb : ShowsExpr (operandOf tier) b) (hbrank : (operandOf tier).rank ≤ b.rank) :
    ShowsExpr (.tier tier) (combine s a b op) := by
  intro depth rest hrest
  rw [rank_operandOf, ← hop.rank_combine s a b] at hbrank
  rw [← hop.rank_combine s a b] at harank
  rw [layout_combine harank (by omega)]
  refine (Shows.append (ha depth _ (.cons _ (by decide))) (.spaced hop.lexeme (hb depth rest hrest)
    (not_derives_nil (by cases tier <;> decide)))).imp ?_
  rintro _ ⟨us, _, rfl, hus, _, vs, rfl, ⟨t, rfl, rfl, -⟩, hvs⟩
  exact .chain hus hop hvs

theorem shows_negate (he : ShowsExpr .unary e) (hrank : 5 ≤ e.rank) :
    ShowsExpr .unary (.unary s .negate e) := by
  intro depth rest hrest
  have htext : Layout.expr depth (.unary s .negate e) =
      Mark.minus.spelling ++ Layout.expr depth e := by
    rw [Layout.expr, Layout.wrapped_left hrank]
    rfl
  rw [htext]
  refine (Shows.append (.mark (by decide) _) (he depth rest hrest)).imp ?_
  rintro _ ⟨_, us, rfl, ⟨minus, rfl, hminus, -⟩, hus⟩
  exact .negate hminus hus

/-- The operand of a negation does not begin with an equals sign, which would make it another mark.
-/
theorem shows_not (he : ShowsExpr .unary e) (hrank : 5 ≤ e.rank) :
    ShowsExpr .unary (.unary s .not e) := by
  intro depth rest hrest
  have htext : Layout.expr depth (.unary s .not e) = Mark.bang.spelling ++ Layout.expr depth e := by
    rw [Layout.expr, Layout.wrapped_left hrank]
    rfl
  have hoperand := he depth rest hrest
  have hfirst : ∀ r, Layout.expr depth e ++ rest ≠ 61 :: r := by
    intro r
    refine hoperand.head_ne_equal fun ts hts => ?_
    obtain ⟨k, us, rfl, hk, -⟩ := hts.starts (by decide)
    exact ⟨k, us, rfl, hk⟩
  rw [htext]
  refine (Shows.append (.lexeme (.mark .bang) (longest_mark (.inr hfirst))
    ((IsLexeme.mark .bang).endsGap nofun)) hoperand).imp ?_
  rintro _ ⟨_, us, rfl, ⟨bang, rfl, hbang, -⟩, hus⟩
  exact .not hbang hus

theorem shows_apply (hf : ShowsExpr .call f) (hrank : 6 ≤ f.rank)
    (hargs : ShowsArguments .arguments args) (hcount : args.length ≤ maxArgs) :
    ShowsExpr .call (.call s f args) := by
  intro depth rest _
  have htext : Layout.expr depth (.call s f args) =
      Layout.expr depth f ++ (Mark.leftParen.spelling ++
        (Text.join (lit ", ") (Layout.exprs depth args) ++ Mark.rightParen.spelling)) := by
    rw [Layout.expr, Layout.wrapped_left hrank]
    simp only [List.append_assoc]
    rfl
  rw [htext]
  refine (Shows.append (hf depth _ (.cons _ (by decide))) (.append (.mark (by decide) _)
    (hargs depth rest))).imp ?_
  rintro _ ⟨us, _, rfl, hus, _, vs, rfl, ⟨left, rfl, hleft, -⟩, hvs⟩
  exact .apply hus hleft hvs hcount

theorem shows_noArguments : ShowsArguments .arguments [] := by
  intro depth rest
  refine (Shows.mark (m := .rightParen) (by decide) rest).imp ?_
  rintro _ ⟨right, rfl, hright, -⟩
  exact .noArguments hright

theorem shows_lastArgument (he : ShowsExpr .expression e) : ShowsArguments .argumentList [e] := by
  intro depth rest
  have htext : Text.join (lit ", ") (Layout.exprs depth [e]) = Layout.expr depth e := by
    simp [Text.join, Layout.exprs]
  rw [htext]
  refine (Shows.append (he depth _ (.cons _ (by decide))) (.mark (by decide) rest)).imp ?_
  rintro _ ⟨us, _, rfl, hus, right, rfl, hright, -⟩
  exact .lastArgument hus hright

theorem shows_moreArguments (he : ShowsExpr .expression e)
    (hargs : ShowsArguments .argumentList (a :: args)) :
    ShowsArguments .argumentList (e :: a :: args) := by
  intro depth rest
  have htext : Text.join (lit ", ") (Layout.exprs depth (e :: a :: args)) ++
    Mark.rightParen.spelling =
      Layout.expr depth e ++ (Mark.comma.spelling ++ Byte.space ::
        (Text.join (lit ", ") (Layout.exprs depth (a :: args)) ++ Mark.rightParen.spelling)) := by
    simp only [Text.join, Layout.exprs, List.intercalate_cons_cons, List.append_assoc]
    rfl
  rw [htext]
  refine (Shows.append (he depth _ (.cons _ (by decide))) (.word (.mark .comma) (hargs depth rest)
    (not_derives_nil (by decide)))).imp ?_
  rintro _ ⟨us, _, rfl, hus, _, vs, rfl, ⟨comma, rfl, hcomma, -⟩, hvs⟩
  exact .moreArguments hus hcomma hvs

theorem shows_group (he : ShowsExpr .expression e) : ShowsExpr .primary (.grouping s e) := by
  intro depth rest _
  have htext : Layout.expr depth (.grouping s e) =
      Mark.leftParen.spelling ++ (Layout.expr depth e ++ Mark.rightParen.spelling) := by
    rw [Layout.expr, List.append_assoc]
    rfl
  rw [htext]
  refine (Shows.append (.mark (by decide) _) (.append (he depth _ (.cons _ (by decide)))
    (.mark (by decide) rest))).imp ?_
  rintro _ ⟨_, _, rfl, ⟨left, rfl, hleft, -⟩, us, _, rfl, hus, right, rfl, hright, -⟩
  exact .group hleft hus hright

theorem shows_super {name : Token} (hname : IsLexeme .name name.text name.text) :
    ShowsExpr .primary (.super s name.text none) := by
  intro depth rest hrest
  have htext : Layout.expr depth (.super s name.text none) =
      Keyword.super_.spelling ++ (Mark.dot.spelling ++ name.text) := rfl
  rw [htext]
  refine (Shows.append (.apart (.keyword .super_) ?_) (.append (.mark (by decide) _)
    (.apart hname hrest))).imp ?_
  · rw [List.append_assoc]
    exact hname.apart_dot rest
  · rintro _ ⟨_, _, rfl, ⟨t, rfl, ht, -⟩, _, _, rfl, ⟨dot, rfl, hdot, -⟩, n, rfl, hn, htext⟩
    rw [← htext]
    exact .super ht hdot hn

end Expressions
end Grammar
end Lox
