import Lox.Proofs.Grammar.Basic
import Lox.Proofs.Lexing

set_option autoImplicit false
set_option relaxedAutoImplicit false

namespace Lox

open Text (lit)

namespace Token

/-! ### What ends a lexeme -/

/-- What may follow a lexeme without becoming part of it or making it a comment. -/
def Apart (rest : Text) : Prop :=
  ∀ b r, rest = b :: r → Byte.isNamePart b = false ∧ b ≠ 61 ∧ b ≠ Byte.slash ∧ b ≠ Byte.star ∧
    (b = Byte.dot → ∀ c s, r = c :: s → Byte.isDigit c = false)

theorem Apart.cons {b : UInt8} (r : Text)
    (h : Byte.isNamePart b = false ∧ b ≠ 61 ∧ b ≠ Byte.slash ∧ b ≠ Byte.star ∧ b ≠ Byte.dot) :
    Apart (b :: r) := by
  intro b' r' heq
  obtain ⟨rfl, rfl⟩ := List.cons.inj heq
  exact ⟨h.1, h.2.1, h.2.2.1, h.2.2.2.1, fun hdot => absurd hdot h.2.2.2.2⟩

theorem Apart.nil : Apart [] := nofun

theorem Apart.dot {b : UInt8} (hb : Byte.isLetter b = true) (r : Text) :
    Apart (Byte.dot :: b :: r) := by
  intro b' r' heq
  obtain ⟨rfl, rfl⟩ := List.cons.inj heq
  refine ⟨by decide, by decide, by decide, by decide, fun _ c s hcs => ?_⟩
  obtain ⟨rfl, rfl⟩ := List.cons.inj hcs
  exact Byte.isDigit_of_isLetter hb

private theorem longest_of_not_longer {x rest : Text}
    (h : ∀ kind text c u, IsLexeme kind text (x ++ c :: u) → c :: u <+: rest → False) :
    Longest x rest := by
  intro kind text y hy hprefix
  by_cases hlen : y.length ≤ x.length
  · exact hlen
  · have hx : x <+: y :=
      List.prefix_of_prefix_length_le (List.prefix_append x rest) hprefix (by omega)
    obtain ⟨u, rfl⟩ := hx
    cases u with
    | nil => exact absurd (by simp) hlen
    | cons c u =>
      have hrest := (List.prefix_append_right_inj x).1 hprefix
      exact (h kind text c u hy hrest).elim

private theorem NumberTail.longer {r u : Text} {c : UInt8} (h : NumberTail (r ++ c :: u)) :
    Byte.isDigit c = true ∨ c = Byte.dot ∧ ∃ d s, u = d :: s ∧ Byte.isDigit d = true := by
  obtain hall | ⟨ds, fs, heq, hds, hne, hfs⟩ := h
  · exact .inl (hall c (by simp))
  · have hdot : Byte.isDigit Byte.dot = false := by decide
    obtain ⟨f, fs, rfl⟩ := List.exists_cons_of_ne_nil hne
    obtain ⟨a, rfl, hcu⟩ | ⟨a, rfl, hfs'⟩ := List.append_eq_append_iff.1 heq
    · cases a with
      | nil =>
        obtain ⟨rfl, rfl⟩ := List.cons.inj hcu
        exact .inr ⟨rfl, f, fs, rfl, hfs f (by simp)⟩
      | cons a as =>
        obtain ⟨rfl, -⟩ := List.cons.inj hcu
        exact .inl (hds c (by simp))
    · cases a with
      | nil =>
        obtain ⟨rfl, rfl⟩ := List.cons.inj hfs'
        exact .inr ⟨rfl, f, fs, rfl, hfs f (by simp)⟩
      | cons a as =>
        obtain ⟨-, htail⟩ := List.cons.inj hfs'
        refine .inl (hfs c ?_)
        rw [htail]
        simp

private theorem quote_not_longer {t t' u : Text} {c : UInt8} (ht' : Byte.quote ∉ t')
    (h : t ++ [Byte.quote] ++ c :: u = t' ++ [Byte.quote]) : False := by
  rw [List.append_assoc] at h
  obtain ⟨a, rfl, hqc⟩ | ⟨a, rfl, hqc⟩ := List.append_eq_append_iff.1 h
  · cases a with
    | nil => simp at hqc
    | cons a as =>
      obtain ⟨rfl, -⟩ := List.cons.inj hqc
      exact ht' (by simp)
  · have hlen := congrArg List.length hqc
    simp at hlen
    omega

theorem IsLexeme.longest {kind : Kind} {text x rest : Text} (h : IsLexeme kind text x)
    (hrest : Apart rest) : Longest x rest := by
  refine longest_of_not_longer fun kind' text' c u hy ⟨v, hv⟩ => ?_
  obtain ⟨hpart, hequal, -, -, hdot⟩ := hrest c (u ++ v) hv.symm
  obtain ⟨b, r, rfl, hletter | hdigit | hmark | hquote⟩ := h.first_byte
  · obtain ⟨-, -, hparts⟩ := IsLexeme.of_letter hy hletter.1
    have hc := hparts c (by simp)
    rw [hpart] at hc
    cases hc
  · obtain ⟨-, -, htail⟩ := IsLexeme.of_digit hy hdigit.1
    rcases htail.longer with hc | ⟨rfl, d, s, rfl, hd⟩
    · simp [Byte.isNamePart, hc] at hpart
    · have hnot := hdot rfl d (s ++ v) rfl
      rw [hd] at hnot
      cases hnot
  · obtain ⟨m, hm, -, -⟩ := hmark
    obtain ⟨-, ⟨-, hnil⟩ | ⟨longer, -, -, hone⟩⟩ := IsLexeme.of_mark hy hm
    · simp at hnil
    · cases r with
      | nil => exact hequal (List.cons.inj hone).1
      | cons a as => simp at hone
  · obtain ⟨rfl, -, -, -, rfl⟩ := hquote
    obtain ⟨-, hno, -, heq⟩ := IsLexeme.of_quote hy
    exact quote_not_longer hno heq

theorem longest_mark {m : Mark} {rest : Text}
    (h : m.withEqual? = none ∨ ∀ r, rest ≠ 61 :: r) : Longest m.spelling rest := by
  refine longest_of_not_longer fun kind' text' c u hy ⟨v, hv⟩ => ?_
  obtain ⟨b, hspell, hb⟩ | ⟨b, base, hspell, hb, -⟩ := m.spelling_cases
  · rw [hspell] at hy
    obtain ⟨-, ⟨-, hnil⟩ | ⟨longer, hlonger, -, hone⟩⟩ := IsLexeme.of_mark hy hb
    · simp at hnil
    · obtain ⟨rfl, rfl⟩ := List.cons.inj hone
      rcases h with hnone | hrest
      · rw [hnone] at hlonger
        cases hlonger
      · exact hrest _ hv.symm
  · rw [hspell] at hy
    obtain ⟨-, ⟨-, hnil⟩ | ⟨longer, -, -, hone⟩⟩ := IsLexeme.of_mark hy hb
    · simp at hnil
    · simp at hone

theorem IsLexeme.endsGap {kind : Kind} {text x rest : Text} (h : IsLexeme kind text x)
    (hslash : kind = .mark .slash → ∀ r, rest ≠ Byte.slash :: r ∧ rest ≠ Byte.star :: r) :
    EndsGap (x ++ rest) := by
  obtain ⟨b, r, rfl, hclass⟩ := h.first_byte
  have hblank : isBlank b = false := by
    cases hb : isBlank b with
    | false => rfl
    | true =>
      simp only [isBlank, Bool.or_eq_true, beq_iff_eq] at hb
      rcases hb with ((rfl | rfl) | rfl) | rfl <;>
      · rcases hclass with hc | hc | ⟨m, hm, -⟩ | hc
        · exact absurd hc.1 (by decide)
        · exact absurd hc.1 (by decide)
        · exact absurd hm (by simp [Mark.ofByte?, Byte.space, Byte.tab, Byte.carriageReturn,
            Byte.lineFeed])
        · exact absurd hc.1 (by decide)
  intro b' r' heq
  obtain ⟨rfl, rfl⟩ := List.cons.inj heq
  refine ⟨hblank, fun hopens => ?_⟩
  -- A comment begins with a slash, so the lexeme would be a slash with another one or a star after
  -- it.
  have hb : b = Byte.slash := by
    rcases hopens with ⟨v, hv⟩ | ⟨v, hv⟩ <;> exact (List.cons.inj hv).1.symm
  subst hb
  obtain ⟨-, ⟨rfl, rfl⟩ | ⟨longer, hlonger, -⟩⟩ := h.of_mark rfl
  · obtain ⟨v, hv⟩ | ⟨v, hv⟩ := hopens
    · exact (hslash rfl v).1 (List.cons.inj hv).2.symm
    · exact (hslash rfl v).2 (List.cons.inj hv).2.symm
  · cases hlonger

/-! ### Pieces -/

def Shows (t rest : Text) (P : List Token → Prop) : Prop :=
  ∀ file before, ∃ ts, Reads file before (t ++ rest) ts rest ∧ P ts

def One (kind : Kind) (text : Text) (ts : List Token) : Prop :=
  ∃ t, ts = [t] ∧ t.kind = kind ∧ t.text = text

def Then (P Q : List Token → Prop) (ts : List Token) : Prop :=
  ∃ us vs, ts = us ++ vs ∧ P us ∧ Q vs

private theorem Reads.append {file before t mid : Text} {ts : List Token}
    (h : Reads file before t ts mid) :
    ∃ before', ∀ us rest, Reads file before' mid us rest → Reads file before t (ts ++ us) rest := by
  induction h with
  | done before rest => exact ⟨before, fun us rest h => h⟩
  | token hgap hends hcut _ ih =>
    obtain ⟨before', hnext⟩ := ih
    exact ⟨before', fun us rest h => .token hgap hends hcut (hnext us rest h)⟩

namespace Shows

variable {t u rest : Text} {P Q : List Token → Prop}

theorem imp (h : Shows t rest P) (hPQ : ∀ ts, P ts → Q ts) : Shows t rest Q := by
  intro file before
  obtain ⟨ts, hreads, hP⟩ := h file before
  exact ⟨ts, hreads, hPQ ts hP⟩

theorem append (ht : Shows t (u ++ rest) P) (hu : Shows u rest Q) :
    Shows (t ++ u) rest (Then P Q) := by
  intro file before
  obtain ⟨ts, hts, hP⟩ := ht file before
  obtain ⟨before', hnext⟩ := hts.append
  obtain ⟨us, hus, hQ⟩ := hu file before'
  refine ⟨ts ++ us, ?_, ts, us, rfl, hP, hQ⟩
  rw [List.append_assoc]
  exact hnext us rest hus

theorem blank {b : UInt8} (hb : isBlank b = true) (h : Shows t rest P) (hne : ¬ P []) :
    Shows (b :: t) rest P := by
  intro file before
  obtain ⟨ts, hts, hP⟩ := h file (before ++ [b])
  refine ⟨ts, ?_, hP⟩
  generalize hbefore : before ++ [b] = before' at hts
  generalize hsource : t ++ rest = source at hts
  cases hts with
  | done => exact absurd hP hne
  | @token _ g t' _ _ l ts hgap hends hcut hreads =>
    have hsplit : b :: t ++ rest = (b :: g) ++ t' := by
      rw [List.cons_append, hsource, List.cons_append]
    have hplace : before ++ b :: g = before' ++ g := by
      rw [← hbefore, List.append_assoc]
      rfl
    rw [← hplace] at hreads ⊢
    rw [hsplit]
    exact .token (.blank hb hgap) hends hcut hreads

theorem blanks {g : Text} (hg : ∀ b ∈ g, isBlank b = true) (h : Shows t rest P) (hne : ¬ P []) :
    Shows (g ++ t) rest P := by
  induction g with
  | nil => exact h
  | cons b g ih =>
    rw [List.forall_mem_cons] at hg
    exact (ih hg.2).blank hg.1 hne

theorem nil (hP : P []) : Shows [] rest P := fun _ _ => ⟨[], .done _ _, hP⟩

theorem lexeme {kind : Kind} {text x : Text} (h : IsLexeme kind text x) (hlong : Longest x rest)
    (hends : EndsGap (x ++ rest)) : Shows x rest (One kind text) := by
  intro file before
  have hcut : Cuts (x ++ rest) { kind, text, bytes := x } rest := ⟨h, rfl, hlong⟩
  have hreads : Reads file before ([] ++ (x ++ rest)) _ rest :=
    .token .nil hends hcut (.done _ _)
  exact ⟨_, hreads, _, rfl, rfl, rfl⟩

theorem apart {kind : Kind} {text x : Text} (h : IsLexeme kind text x) (hrest : Apart rest) :
    Shows x rest (One kind text) := by
  refine lexeme h (h.longest hrest) (h.endsGap fun _ r => ⟨?_, ?_⟩)
  · intro heq
    exact (hrest _ r heq).2.2.1 rfl
  · intro heq
    exact (hrest _ r heq).2.2.2.1 rfl

theorem mark {m : Mark} (hm : m.withEqual? = none ∧ m ≠ .slash) (rest : Text) :
    Shows m.spelling rest (One (.mark m) m.spelling) := by
  refine lexeme (.mark m) (longest_mark (.inl hm.1)) ((IsLexeme.mark m).endsGap fun heq => ?_)
  cases heq
  exact absurd rfl hm.2

theorem word {kind : Kind} {text x : Text} (h : IsLexeme kind text x) (hu : Shows u rest Q)
    (hne : ¬ Q []) : Shows (x ++ Byte.space :: u) rest (Then (One kind text) Q) :=
  .append (apart h (.cons _ (by decide))) (hu.blank (by decide) hne)

theorem spaced {kind : Kind} {text x : Text} (h : IsLexeme kind text x) (hu : Shows u rest Q)
    (hne : ¬ Q []) :
    Shows (Byte.space :: (x ++ Byte.space :: u)) rest (Then (One kind text) Q) := by
  refine (word h hu hne).blank (by decide) ?_
  rintro ⟨us, vs, heq, ⟨t, rfl, -⟩, -⟩
  cases heq

theorem head_ne_equal {r : Text} (h : Shows t rest P)
    (hP : ∀ ts, P ts → ∃ k us, ts = k :: us ∧ k.kind ∈ Grammar.expressionFirst) :
    t ++ rest ≠ 61 :: r := by
  intro hsource
  obtain ⟨ts, hts, hPts⟩ := h [] []
  obtain ⟨k, us, rfl, hk⟩ := hP ts hPts
  rw [hsource] at hts
  generalize hequal : (61 : UInt8) :: r = source at hts
  cases hts with
  | @token _ g t' _ _ l ts hgap hends hcut hreads =>
    cases hgap with
    | nil =>
      obtain ⟨b, x, hbytes, -⟩ := hcut.lexeme.first_byte
      have hb : b = 61 := by
        have hfirst := hcut.split
        rw [hbytes] at hfirst
        exact (List.cons.inj (hequal.trans hfirst)).1.symm
      subst hb
      have hlexeme := hcut.lexeme
      rw [hbytes] at hlexeme
      obtain ⟨-, ⟨hkind, -⟩ | ⟨longer, hlonger, hkind, -⟩⟩ := hlexeme.of_mark rfl
      · change l.kind ∈ _ at hk
        rw [hkind] at hk
        exact absurd hk (by decide)
      · change l.kind ∈ _ at hk
        cases hlonger
        rw [hkind] at hk
        exact absurd hk (by decide)
    | blank hb _ =>
      obtain ⟨rfl, -⟩ := List.cons.inj hequal
      exact absurd hb (by decide)
    | line _ _ _ => exact absurd (List.cons.inj hequal).1 (by decide)
    | block _ _ => exact absurd (List.cons.inj hequal).1 (by decide)

end Shows
end Token
end Lox
