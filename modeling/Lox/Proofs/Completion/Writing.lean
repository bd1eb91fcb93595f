import Lox.Proofs.Layout.Shows
import Lox.Proofs.Prefix.Lexing

set_option autoImplicit false
set_option relaxedAutoImplicit false

namespace Lox.Token

open Text (lit)

/-! ### Texts that are written after a source -/

def Blanked (t : Text) : Prop := ∀ b r, t = b :: r → isBlank b = true

private theorem Blanked.apart {t : Text} (h : Blanked t) : Apart t := by
  intro b r ht
  have hb := h b r ht
  simp only [isBlank, Bool.or_eq_true, beq_iff_eq] at hb
  rcases hb with ((rfl | rfl) | rfl) | rfl <;> exact ⟨by decide, by decide, by decide, by decide,
    fun hdot => absurd hdot (by decide)⟩

private theorem Blanked.append {t u : Text} (ht : Blanked t) (hu : Blanked u) :
    Blanked (t ++ u) := by
  cases t with
  | nil => exact hu
  | cons b t => exact fun c r h => (List.cons.inj h).1 ▸ ht b t rfl

/-- A text after some bytes of a source is read as some tokens, whatever follows after a blank. -/
structure Written (file before t : Text) (ts : List Token) : Prop where
  blanked : Blanked t
  reads (rest : Text) : Blanked rest → Reads file before (t ++ rest) ts rest

theorem Reads.trans {file before t mid rest : Text} {ts us : List Token}
    (h : Reads file before (t ++ mid) ts mid) (h' : Reads file (before ++ t) mid us rest) :
    Reads file before (t ++ mid) (ts ++ us) rest := by
  generalize hw : t ++ mid = w at h
  induction h generalizing t with
  | done before mid =>
    obtain rfl : t = [] := List.append_left_eq_self.1 hw
    simpa using h'
  | @token before g t' rest' tail l ts hgap hends hcuts hreads ih =>
    obtain ⟨pre, hpre⟩ := hreads.exists_before
    have ht : t = g ++ l.bytes ++ pre := by
      rw [hcuts.split, hpre] at hw
      simpa [← List.append_assoc] using hw
    refine .token hgap hends hcuts (ih (t := pre) ?_ hpre.symm)
    rw [ht] at h'
    simpa using h'

namespace Written

variable {file before t u : Text} {ts us : List Token}

private theorem nil : Written file before [] [] := ⟨nofun, fun rest _ => .done before rest⟩

private theorem append (ht : Written file before t ts) (hu : Written file (before ++ t) u us) :
    Written file before (t ++ u) (ts ++ us) := by
  refine ⟨ht.blanked.append hu.blanked, fun rest hrest => ?_⟩
  have hfirst := ht.reads (u ++ rest) (hu.blanked.append hrest)
  rw [List.append_assoc]
  exact hfirst.trans (hu.reads rest hrest)

private theorem lexeme {kind : Kind} {text x : Text} (h : IsLexeme kind text x) :
    ∃ t : Token, t.kind = kind ∧ t.text = text ∧ Written file before (Byte.space :: x) [t] := by
  refine ⟨tokenAt file (before ++ [Byte.space]) ⟨kind, text, x⟩, rfl, rfl, ?_, fun rest hrest => ?_⟩
  · intro b r hbytes
    rw [← (List.cons.inj hbytes).1]
    rfl
  · have hcuts : Cuts (x ++ rest) ⟨kind, text, x⟩ rest := ⟨h, rfl, h.longest hrest.apart⟩
    have hends : EndsGap (x ++ rest) := h.endsGap fun _ r =>
      ⟨fun heq => absurd (hrest _ r heq) (by decide), fun heq => absurd (hrest _ r heq) (by decide)⟩
    exact .token (.blank rfl .nil) hends hcuts (.done _ rest)

end Written

/-- After all bytes a text can be written that is read as tokens that are as told. -/
def Writable (file : Text) (R : List Token → Prop) : Prop :=
  ∀ before, ∃ t ts, Written file before t ts ∧ R ts

namespace Writable

variable {file : Text} {P R : List Token → Prop}

theorem nil (h : R []) : Writable file R := fun _ => ⟨[], [], .nil, h⟩

theorem imp (h : Writable file P) (hPR : ∀ ts, P ts → R ts) : Writable file R := by
  intro before
  obtain ⟨t, ts, hts, hP⟩ := h before
  exact ⟨t, ts, hts, hPR ts hP⟩

theorem append (h : Writable file P)
    (hR : ∀ ts, P ts → Writable file fun us => R (ts ++ us)) : Writable file R := by
  intro before
  obtain ⟨t, ts, hts, hP⟩ := h before
  obtain ⟨u, us, hus, hRus⟩ := hR ts hP (before ++ t)
  exact ⟨t ++ u, ts ++ us, hts.append hus, hRus⟩

theorem cons {kind : Kind} {text x : Text} (h : IsLexeme kind text x)
    (hR : ∀ t : Token, t.kind = kind → t.text = text → Writable file fun us => R (t :: us)) :
    Writable file R := by
  intro before
  obtain ⟨t, hkind, htext, ht⟩ := Written.lexeme h
  obtain ⟨u, us, hus, hRus⟩ := hR t hkind htext (before ++ Byte.space :: x)
  exact ⟨Byte.space :: x ++ u, t :: us, ht.append hus, hRus⟩

end Writable

/-! ### Sources with one more line -/

theorem IsGap.append {rest g h : Text} (hg : IsGap (h ++ rest) g) (hh : IsGap rest h) :
    IsGap rest (g ++ h) := by
  induction hg with
  | nil => exact hh
  | blank hb _ ih => exact .blank hb ih
  | @line body g hbody hend _ ih =>
    have hline := IsGap.line hbody (by simpa using hend) ih
    simpa using hline
  | @block body g hbody _ ih =>
    have hblock := IsGap.block hbody ih
    simpa using hblock

/-- A gap is one before a longer text too: a comment to the end of a line needs this end only. -/
theorem IsGap.before_append {t g u : Text} (h : IsGap t g)
    (hu : t ≠ [] ∨ ∃ v, u = Byte.lineFeed :: v) : IsGap (t ++ u) g := by
  induction h with
  | nil => exact .nil
  | blank hb _ ih => exact .blank hb ih
  | block hbody _ ih => exact .block hbody ih
  | @line body g hbody hend _ ih =>
    refine .line hbody (.inr ?_) ih
    rw [← List.append_assoc]
    obtain hnil | ⟨v, hv⟩ := hend
    · obtain hne | ⟨v, rfl⟩ := hu
      · exact absurd (List.append_eq_nil_iff.1 hnil).2 hne
      · exact ⟨v, by rw [hnil, List.nil_append]⟩
    · exact ⟨v ++ u, by rw [hv, List.cons_append]⟩

theorem EndsGap.append {c d : UInt8} {t : Text} (h : EndsGap (c :: d :: t)) (u : Text) :
    EndsGap (c :: d :: t ++ u) := by
  intro b r hbr
  obtain ⟨rfl, rfl⟩ := List.cons.inj hbr
  obtain ⟨hblank, hcomment⟩ := h c (d :: t) rfl
  refine ⟨hblank, fun hopens => hcomment (hopens.imp ?_ ?_)⟩ <;>
  · rintro ⟨v, hv⟩
    refine ⟨t, ?_⟩
    simp only [List.cons_append, List.nil_append, List.cons.injEq] at hv ⊢
    exact ⟨hv.1, hv.2.1, trivial⟩

private theorem EndsGap.add_line {t : Text} (h : EndsGap t) (hne : t ≠ []) (u : Text) :
    EndsGap (t ++ Byte.lineFeed :: u) := by
  match t, h, hne with
  | [c], h, _ =>
    intro b r hbr
    obtain ⟨rfl, rfl⟩ := List.cons.inj hbr
    refine ⟨(h c [] rfl).1, fun hopens => ?_⟩
    obtain ⟨v, hv⟩ | ⟨v, hv⟩ := hopens <;>
      exact absurd (List.cons.inj (List.cons.inj hv).2).1 (by decide)
  | c :: d :: t, h, _ => exact h.append _

/-- The longest lexeme stays the longest before a line feed, a quote or a slash: only a string could
go on over it, and a string is over at its second quote. -/
theorem Cuts.append {t rest u m v : Text} {l : Lexeme} {b : UInt8} (h : Cuts t l rest)
    (hb : b ∈ [Byte.lineFeed, Byte.quote, Byte.slash]) (hsplit : rest ++ u = m ++ b :: v)
    (hm : m.length ≤ rest.length) : Cuts (t ++ u) l (rest ++ u) := by
  refine ⟨h.lexeme, by rw [h.split, List.append_assoc], fun kind text y hy hhead => ?_⟩
  have hlength := congrArg List.length h.split
  rw [List.length_append] at hlength
  by_cases hlen : y.length ≤ t.length
  · rw [← List.append_assoc, ← h.split] at hhead
    refine h.longest kind text y hy ?_
    rw [← h.split]
    exact List.prefix_of_prefix_length_le hhead (List.prefix_append t u) hlen
  · have hover : l.bytes ++ m ++ [b] <+: y := by
      have hwhole : l.bytes ++ m ++ [b] <+: l.bytes ++ (rest ++ u) := ⟨v, by simp [hsplit]⟩
      refine List.prefix_of_prefix_length_le hwhole hhead ?_
      simp only [List.length_append, List.length_singleton]
      omega
    obtain ⟨w, rfl⟩ := hover
    have hy : IsLexeme kind text ((l.bytes ++ m) ++ b :: w) := by simpa using hy
    obtain ⟨c, r, hbytes, -⟩ := h.lexeme.first_byte
    obtain hnil | ⟨s, hs, hquote⟩ := hy.before_byte hb
    · rw [hbytes] at hnil
      cases hnil
    · rw [hbytes] at hs
      obtain ⟨rfl, hr⟩ := List.cons.inj hs
      obtain ⟨-, -, -, hclose⟩ := IsLexeme.of_quote (hbytes ▸ h.lexeme)
      refine absurd ?_ hquote
      rw [← hr, hclose]
      simp

/-- The tokens of a source stay the same if more is written on a new line, whose tokens are those of
a source by itself. -/
theorem Reads.add_line {file before t g u g' : Text} {ts us : List Token}
    (h : Reads file before t ts g) (hgap : IsGap [] g)
    (hu : Reads file (before ++ t ++ [Byte.lineFeed]) u us g') (hgap' : IsGap [] g') :
    ∃ g'', Reads file before (t ++ Byte.lineFeed :: u) (ts ++ us) g'' ∧ IsGap [] g'' := by
  induction h with
  | done before g =>
    have hjoin {h rest : Text} (hh : IsGap rest h) : IsGap rest (g ++ Byte.lineFeed :: h) := by
      have hline : IsGap ((Byte.lineFeed :: h) ++ rest) g :=
        hgap.before_append (.inr ⟨h ++ rest, rfl⟩)
      exact hline.append (.blank rfl hh)
    generalize hbefore : before ++ g ++ [Byte.lineFeed] = b at hu
    cases hu with
    | done => exact ⟨_, .done _ _, hjoin hgap'⟩
    | @token _ h t rest _ l us hh hends hcuts hreads =>
      have hplace : b ++ h = before ++ (g ++ Byte.lineFeed :: h) := by simp [← hbefore]
      rw [hplace] at hreads ⊢
      refine ⟨g', ?_, hgap'⟩
      have htoken := Reads.token (hjoin hh) hends hcuts hreads
      simpa using htoken
  | @token before h t rest tail l ts hh hends hcuts _ ih =>
    have hne : t ≠ [] := by
      obtain ⟨b, r, hbytes, -⟩ := hcuts.lexeme.first_byte
      simp [hcuts.split, hbytes]
    have hplace : before ++ (h ++ t) = before ++ h ++ l.bytes ++ rest := by simp [hcuts.split]
    obtain ⟨g'', hreads, hgap''⟩ := ih hgap (hplace ▸ hu)
    refine ⟨g'', ?_, hgap''⟩
    rw [List.append_assoc]
    exact .token (hh.before_append (.inr ⟨u, rfl⟩)) (hends.add_line hne u)
      (hcuts.append List.mem_cons_self rfl (Nat.le_refl _)) hreads

theorem Spells.add_line {file source u : Text} {ts us : List Token}
    (h : Spells file source (ts ++ [eofAt file source]))
    (hu : Written file (source ++ [Byte.lineFeed]) u us) :
    Spells file (source ++ Byte.lineFeed :: u)
      (ts ++ us ++ [eofAt file (source ++ Byte.lineFeed :: u)]) := by
  obtain ⟨ts', g, hreads, hgap, heq⟩ := h
  obtain ⟨rfl, -⟩ := List.append_inj' heq rfl
  have hline := hu.reads [] nofun
  rw [List.append_nil] at hline
  obtain ⟨g', hreads', hgap'⟩ := hreads.add_line hgap hline .nil
  exact ⟨_, g', hreads', hgap', rfl⟩

end Lox.Token
