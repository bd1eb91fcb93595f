import Lox.Proofs.Grammar.CompleteStatement
import Lox.Proofs.Grammar.Soundness

set_option autoImplicit false
set_option relaxedAutoImplicit false

namespace Lox

namespace Grammar

open Lox.Parser

private theorem Derives.complete {sym : Sym} {ts : List Token} {n : Node} (h : Derives sym ts n) :
    Complete sym ts n := by
  induction h with
  | assignName hn hequal _ ih => exact complete_assignName hn hequal ih
  | assignField hd hdot hn hequal _ iho ihv => exact complete_assignField hd iho hdot hn hequal ihv
  | simple _ ih => exact complete_simple ih
  | choice _ hq _ hcolon _ ihc iha ihb => exact complete_choice ihc hq iha hcolon ihb
  | plain _ ih => exact complete_plain ih
  | chain _ hop _ iha ihb => exact complete_chain iha hop ihb
  | @operand tier _ _ hd ih =>
    have hne : (operandOf tier).first ≠ [] := by cases tier <;> decide
    obtain ⟨t, us, rfl, -⟩ := hd.starts hne
    exact complete_operand (List.cons_ne_nil t us) ih
  | not ht _ ih => exact complete_unary (.inl ⟨ht, rfl⟩) ih
  | negate ht _ ih => exact complete_unary (.inr ⟨ht, rfl⟩) ih
  | called hd ih => exact complete_called (hd.starts (by decide)) ih
  | head _ ih => exact complete_head ih
  | apply _ hleft _ hlen ihf ihargs => exact complete_apply ihf hleft ihargs hlen
  | get _ hdot hn ih => exact complete_get ih hdot hn
  | noArguments ht => exact complete_noArguments ht
  | someArguments hd ih => exact complete_someArguments (hd.starts (by decide)) ih
  | lastArgument _ ht ih => exact complete_lastArgument ih ht
  | moreArguments _ ht _ ih ihes => exact complete_moreArguments ih ht ihes
  | false_ ht => exact complete_literal (.inl ⟨ht, rfl⟩)
  | true_ ht => exact complete_literal (.inr (.inl ⟨ht, rfl⟩))
  | nil_ ht => exact complete_literal (.inr (.inr (.inl ⟨ht, rfl⟩)))
  | number ht hx => exact complete_number ht hx
  | string ht => exact complete_literal (.inr (.inr (.inr ⟨ht, rfl⟩)))
  | this ht => exact complete_this ht
  | super ht hdot hn => exact complete_super ht hdot hn
  | name ht => exact complete_name ht
  | lambda ht hps _ ih => exact complete_lambda ht hps ih
  | group hl _ hr ih => exact complete_group hl ih hr
  | block hl _ hr ih => exact complete_block hl ih hr
  | noDeclarations => exact complete_noDeclarations
  | moreDeclarations hd hds ih ihs => exact complete_moreDeclarations hd hds ih ihs
  | classDecl ht hn hsup hl _ hr ih => exact complete_classDecl ht hn hsup hl ih hr
  | funDecl ht hd ih => exact complete_funDecl ht (hd.starts (by decide)) ih
  | varDecl hd ih => exact complete_varDecl (hd.starts (by decide)) ih
  | statement hd ih => exact complete_statement (hd.starts (by decide)) ih
  | noValue _ hn hs => exact complete_noValue hn hs
  | value _ hn hequal _ hs ih => exact complete_value hn hequal ih hs
  | function hn hps _ ih => exact complete_function hn hps ih
  | noMembers => exact complete_noMembers
  | method hd _ ih ihs => exact complete_method (hd.starts (by decide)) ih ihs
  | static ht _ _ ih ihs => exact complete_static ht ih ihs
  | exprStmt hd hs ih => exact complete_exprStmt (hd.starts (by decide)) ih hs
  | print ht _ hs ih => exact complete_print ht ih hs
  | return_ ht _ hs ih => exact complete_return ht ih hs
  | break_ ht hs => exact complete_break ht hs
  | inBlock _ ih => exact complete_inBlock ih
  | while_ ht hl _ hr _ ihc ihb => exact complete_while ht hl ihc hr ihb
  | if_ ht hl _ hr _ ihc ihy => exact complete_if ht hl ihc hr ihy
  | ifElse ht hl _ hr _ hclosed he _ ihc ihy ihn =>
    exact complete_ifElse ht hl ihc hr ihy hclosed he ihn
  | for_ ht hl _ _ hs _ hr _ ihi ihc ihs ihb => exact complete_for ht hl ihi ihc hs ihs hr ihb
  | noInit hs => exact complete_noInit hs
  | varInit hd ih => exact complete_varInit (hd.starts (by decide)) ih
  | exprInit hd hs ih => exact complete_exprInit (hd.starts (by decide)) ih hs
  | noClause => exact complete_noClause
  | someClause hd ih => exact complete_someClause (hd.starts (by decide)) ih

theorem ofTokens_complete (file : Text) {tokens : List Token} {body : List Stmt}
    (hended : Ended tokens) (h : IsProgram tokens body) :
    ∃ p, Program.ofTokens file tokens = .ok p ∧ Stmt.bareAll p.body = Stmt.bareAll body := by
  obtain ⟨ts, eof, rfl, heof, hd⟩ := h
  cases hts : ts ++ [eof] with
  | nil => simp at hts
  | cons t us =>
    rw [hts] at hended
    have hlen : ts.length + 1 = us.length + 1 := by
      have := congrArg List.length hts
      simpa using this
    have hdepth : 32 * ts.length + 20 ≤ depthFor (t :: us) := by
      simp only [depthFor, List.length_cons]
      omega
    obtain ⟨body', c, hrun, -, hfaults, hbody⟩ :=
      hd.complete none (.inl rfl) (depthFor (t :: us)) (startOf t us) eof [] hts.symm
        (by simp [heof]) hdepth
    have hrun : declarations (depthFor (t :: us)) none (startOf t us) = (some body', c) := hrun
    rw [ofTokens_eq file hended, hrun]
    exact ⟨_, if_pos (by rw [hfaults]; rfl), hbody⟩

/-- The reader accepts exactly the grammar. A list of tokens that ends once, at its end, is read as
a program if and only if it derives one. The tree is a derived one, and every other derived tree
differs from it in spans only. A list that is refused is so with at least one diagnostic. -/
theorem ofTokens_exact (file : Text) (ts : List Token) (eof : Token) (heof : eof.kind = .eof)
    (hts : ∀ t ∈ ts, t.kind ≠ .eof) :
    ((∃ p, Program.ofTokens file (ts ++ [eof]) = .ok p) ↔ ∃ body, IsProgram (ts ++ [eof]) body) ∧
      (∀ p, Program.ofTokens file (ts ++ [eof]) = .ok p → IsProgram (ts ++ [eof]) p.body ∧
        ∀ body, IsProgram (ts ++ [eof]) body → Stmt.bareAll body = Stmt.bareAll p.body) ∧
      ∀ ds, Program.ofTokens file (ts ++ [eof]) = .error ds → ds ≠ [] := by
  have hended := ended_of_eof heof hts
  have hsound := ofTokens_sound file hended
  refine ⟨⟨?_, ?_⟩, ?_, ?_⟩
  · rintro ⟨p, hp⟩
    obtain ⟨q, hq, hd⟩ | ⟨ds, hds, -⟩ := hsound
    · exact ⟨q.body, hd⟩
    · rw [hds] at hp
      cases hp
  · rintro ⟨body, hbody⟩
    obtain ⟨p, hp, -⟩ := ofTokens_complete file hended hbody
    exact ⟨p, hp⟩
  · intro p hp
    obtain ⟨q, hq, hd⟩ | ⟨ds, hds, -⟩ := hsound
    · cases hq.symm.trans hp
      refine ⟨hd, fun body hbody => ?_⟩
      obtain ⟨r, hr, hbare⟩ := ofTokens_complete file hended hbody
      cases hr.symm.trans hp
      exact hbare.symm
    · rw [hds] at hp
      cases hp
  · intro ds hds
    obtain ⟨q, hq, -⟩ | ⟨ds', hds', hne⟩ := hsound
    · rw [hq] at hds
      cases hds
    · cases hds'.symm.trans hds
      exact hne


def danglingElse : List Token :=
  [(Token.Kind.keyword .if_, "if"), (.mark .leftParen, "("), (.name, "a"), (.mark .rightParen, ")"),
    (.keyword .if_, "if"), (.mark .leftParen, "("), (.name, "b"), (.mark .rightParen, ")"),
    (.name, "c"), (.mark .semicolon, ";"), (.keyword .else_, "else"), (.name, "d"),
    (.mark .semicolon, ";")].map fun (kind, text) => { kind, text := Text.lit text, span := .blank }

def danglingElseTree : Stmt :=
  let use (n : String) : Expr := .name { span := .blank, name := Text.lit n, hops := none }
  .ifStmt .blank (use "a") (.ifStmt .blank (use "b") (.exprStmt .blank (use "c"))
    (some (.exprStmt .blank (use "d")))) none

theorem ofTokens_exact_danglingElse :
    (∀ t ∈ danglingElse, t.kind ≠ .eof) ∧
      ∀ body, IsProgram (danglingElse ++ [.endOf []]) body →
        Stmt.bareAll body = [danglingElseTree] := by
  have hno : ∀ t ∈ danglingElse, t.kind ≠ .eof := by decide
  refine ⟨hno, fun body hbody => ?_⟩
  obtain ⟨-, htree, -⟩ := ofTokens_exact [] danglingElse (.endOf []) rfl hno
  have hrun : Program.ofTokens [] (danglingElse ++ [.endOf []]) =
      .ok { span := .blank, body := [danglingElseTree] } := by rfl
  exact (htree _ hrun).2 body hbody

end Grammar
end Lox
