import Lox.Proofs.Parse
import Lox.Proofs.Prefix.Lexing

set_option autoImplicit false
set_option relaxedAutoImplicit false

namespace Lox

namespace Grammar

open Lox.Parser (Tier Operator)

/-- Every equals sign stands after a name; told is whether a name stands before the tokens. -/
def NamesAssigned : Bool → List Token → Prop
  | _, [] => True
  | named, t :: ts =>
    (t.kind = .mark .equal → named = true) ∧ NamesAssigned (t.kind == .name) ts

namespace NamesAssigned

variable {t : Token} {ts us : List Token} {kind : Token.Kind} {b : Bool}

private theorem nil : NamesAssigned b [] := trivial

private theorem always (h : NamesAssigned false ts) (b : Bool) : NamesAssigned b ts := by
  cases ts with
  | nil => trivial
  | cons t ts => exact ⟨fun ht => absurd (h.1 ht) Bool.false_ne_true, h.2⟩

private theorem append (hts : NamesAssigned b ts) (hus : NamesAssigned false us) :
    NamesAssigned b (ts ++ us) := by
  induction ts generalizing b with
  | nil => exact hus.always b
  | cons t ts ih => exact ⟨hts.1, ih hts.2⟩

private theorem cons (ht : t.kind = kind) (hkind : kind ≠ .mark .equal)
    (h : NamesAssigned false ts) :
    NamesAssigned false (t :: ts) :=
  ⟨fun hequal => absurd (ht.symm.trans hequal) hkind, h.always _⟩

private theorem last (ht : t.kind = kind) (hkind : kind ≠ .mark .equal) : NamesAssigned false [t] :=
  .cons ht hkind .nil

private theorem name (ht : t.kind = .name) (u : Token) (h : NamesAssigned false ts) :
    NamesAssigned false (t :: u :: ts) := by
  refine ⟨fun hequal => ?_, fun _ => by simp [ht], h.always _⟩
  rw [ht] at hequal
  cases hequal

end NamesAssigned

private theorem IsOperator.ne_equal {tier : Tier} {kind : Token.Kind} {op : Operator}
    (h : IsOperator tier kind op) : kind ≠ .mark .equal := by
  cases h <;> decide

private theorem IsParamList.namesAssigned {ts : List Token} {ps : List Param}
    (h : IsParamList ts ps) :
    NamesAssigned false ts := by
  induction h with
  | last hname hclose => exact .cons hname (by decide) (.last hclose (by decide))
  | more hname hcomma _ ih => exact .cons hname (by decide) (.cons hcomma (by decide) ih)

private theorem IsParams.namesAssigned {ts : List Token} {ps : List Param} (h : IsParams ts ps) :
    NamesAssigned false ts := by
  cases h with
  | none hleft hright => exact .cons hleft (by decide) (.last hright (by decide))
  | some hleft hlist _ => exact .cons hleft (by decide) hlist.namesAssigned

private theorem IsSuperclass.namesAssigned {ts : List Token} {sup : Option NameUse}
    (h : IsSuperclass ts sup) : NamesAssigned false ts := by
  cases h with
  | none => exact .nil
  | some hless hname => exact .cons hless (by decide) (.last hname (by decide))

private theorem Derives.namesAssigned {sym : Sym} {ts : List Token} {n : Node}
    (h : Derives sym ts n) :
    NamesAssigned false ts := by
  induction h with
  | assignName hname _ _ ih => exact .name hname _ ih
  | assignField _ hdot hname _ _ iho ihv =>
    exact iho.append (.cons hdot (by decide) (.name hname _ ihv))
  | value ht hname _ _ hsemicolon ih =>
    exact .cons ht (by decide) (.name hname _ (ih.append (.last hsemicolon (by decide))))
  | simple _ ih | plain _ ih | operand _ ih | called _ ih | head _ ih | someArguments _ ih
  | varDecl _ ih | statement _ ih | inBlock _ ih | varInit _ ih | someClause _ ih => exact ih
  | noDeclarations | noMembers | noClause => exact .nil
  | moreDeclarations _ _ ih ihs | method _ _ ih ihs => exact ih.append ihs
  | false_ ht | true_ ht | nil_ ht | number ht _ | string ht | this ht | name ht | noArguments ht
  | noInit ht => exact .last ht (by decide)
  | not ht _ ih | negate ht _ ih | funDecl ht _ ih => exact .cons ht (by decide) ih
  | static ht _ _ ih ihs => exact .cons ht (by decide) (ih.append ihs)
  | chain _ hop _ ihl ihr => exact ihl.append (.cons rfl hop.ne_equal ihr)
  | choice _ hquestion _ hcolon _ ihc iha ihb =>
    refine ihc.append (.cons hquestion (by decide) ?_)
    exact iha.append (.cons hcolon (by decide) ihb)
  | apply _ ht _ _ ih ihs | moreArguments _ ht _ ih ihs =>
    exact ih.append (.cons ht (by decide) ihs)
  | get _ hdot hname ih =>
    exact ih.append (.cons hdot (by decide) (.last hname (by decide)))
  | lastArgument _ ht ih | exprStmt _ ht ih | exprInit _ ht ih =>
    exact ih.append (.last ht (by decide))
  | super ht hdot hname | noValue ht hdot hname =>
    exact .cons ht (by decide) (.cons hdot (by decide) (.last hname (by decide)))
  | lambda ht hps _ ih | function ht hps _ ih =>
    exact .cons ht (by decide) (hps.namesAssigned.append ih)
  | group ht _ hclose ih | block ht _ hclose ih | print ht _ hclose ih | return_ ht _ hclose ih =>
    exact .cons ht (by decide) (ih.append (.last hclose (by decide)))
  | break_ ht hsemicolon => exact .cons ht (by decide) (.last hsemicolon (by decide))
  | classDecl ht hname hsup hleft _ hright ih =>
    refine .cons ht (by decide) (.cons hname (by decide) (hsup.namesAssigned.append ?_))
    exact .cons hleft (by decide) (ih.append (.last hright (by decide)))
  | while_ ht hleft _ hright _ ihc ihb | if_ ht hleft _ hright _ ihc ihb =>
    refine .cons ht (by decide) (.cons hleft (by decide) (ihc.append ?_))
    exact .cons hright (by decide) ihb
  | ifElse ht hleft _ hright _ _ helse _ ihc ihy ihn =>
    refine .cons ht (by decide) (.cons hleft (by decide) (ihc.append ?_))
    exact .cons hright (by decide) (ihy.append (.cons helse (by decide) ihn))
  | for_ ht hleft _ _ hsemicolon _ hright _ ihi ihc ihs ihb =>
    refine .cons ht (by decide) (.cons hleft (by decide) ((ihi.append ihc).append ?_))
    exact .cons hsemicolon (by decide) (ihs.append (.cons hright (by decide) ihb))

private theorem not_namesAssigned {us vs : List Token} {x equal : Token}
    {b : Bool} (hx : x.kind ≠ .name)
    (hequal : equal.kind = .mark .equal) : ¬ NamesAssigned b (us ++ x :: equal :: vs) := by
  induction us generalizing b with
  | nil =>
    intro h
    have hnamed := h.2.1 hequal
    rw [beq_iff_eq] at hnamed
    exact hx hnamed
  | cons u us ih => exact fun h => ih h.2

end Grammar

namespace Program

open Text (lit)
open Token

theorem parse_ne_ok_of_equal {file source rest : Text} {us vs : List Token} {x equal : Token}
    (hscan : scan file source = .ok (us ++ x :: equal :: vs ++ [eofAt file source]))
    (hx : x.kind ≠ .name) (hequal : equal.kind = .mark .equal) (p : Program) :
    parse file (source ++ Byte.lineFeed :: rest) ≠ .ok p := by
  intro hparse
  obtain ⟨ts, hspells, -, hderives⟩ := parse_derives hparse
  rcases scan_of_breaksAt
    (.inl ⟨rest, rfl⟩) hspells.scan_eq with ⟨us', ws, rfl, hscan'⟩ | ⟨f, hf, -⟩
  · rw [hscan] at hscan'
    obtain ⟨rfl, -⟩ := List.append_inj' (Except.ok.inj hscan') rfl
    have hnames := hderives.namesAssigned
    rw [List.append_assoc] at hnames
    exact Grammar.not_namesAssigned hx hequal hnames
  · rw [hscan] at hf
    cases hf

end Program
end Lox
