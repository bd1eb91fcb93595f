import Lox.Proofs.Completion.Writing

set_option autoImplicit false
set_option relaxedAutoImplicit false

namespace Lox.Token

open Text (lit)

/-- What ends the string or the comment in which a source ends. -/
def Fault.closing : Fault → Text
  | .openString => [Byte.quote]
  | .openComment => [Byte.star, Byte.slash]
  | _ => []

/-- What ends the string or the comment in which a source ends, if it ends in one. -/
def closing (file source : Text) : Text :=
  match scan file source with
  | .ok _ => []
  | .error f => f.fault.closing

private theorem Reads.before_append {file before t tail m v : Text} {ts : List Token} {b : UInt8}
    (h : Reads file before t ts tail) (hb : b ∈ [Byte.lineFeed, Byte.quote, Byte.slash])
    (htail : tail = m ++ b :: v) (u : Text) : Reads file before (t ++ u) ts (tail ++ u) := by
  induction h with
  | done before tail => exact .done before (tail ++ u)
  | @token before g t rest tail l ts hgap hends hcuts hreads ih =>
    obtain ⟨pre, hpre⟩ := hreads.exists_before
    have hsplit : rest ++ u = (pre ++ m) ++ b :: (v ++ u) := by simp [hpre, htail]
    have hlength : (pre ++ m).length ≤ rest.length := by
      rw [hpre, htail]
      simp only [List.length_append]
      omega
    have hends' : EndsGap (t ++ u) := by
      obtain ⟨c, r, hbytes, -⟩ := hcuts.lexeme.first_byte
      obtain ⟨d, s, hds⟩ : ∃ d s, t = c :: d :: s := by
        cases hr : r ++ rest with
        | nil => simp [hpre, htail] at hr
        | cons d s => exact ⟨d, s, by rw [hcuts.split, hbytes, List.cons_append, hr]⟩
      subst hds
      exact hends.append u
    have hne : t ≠ [] := by
      obtain ⟨c, r, hbytes, -⟩ := hcuts.lexeme.first_byte
      simp [hcuts.split, hbytes]
    rw [List.append_assoc]
    exact .token (hgap.before_append (.inl hne)) hends' (hcuts.append hb hsplit hlength) (ih htail)

private theorem Reads.close_comment {file before t g bad : Text} {ts : List Token}
    (h : Reads file before t ts (g ++ bad)) (hgap : IsGap bad g) (hopen : OpenBlock bad) :
    ∃ g', Reads file before (t ++ [Byte.star, Byte.slash]) ts g' ∧ IsGap [] g' := by
  obtain ⟨body, rfl, hbody⟩ := hopen
  have hinside : ¬ [Byte.star, Byte.slash] <:+: body ++ [Byte.star] := by
    rintro ⟨u, v, huv⟩
    rcases List.eq_nil_or_concat v with rfl | ⟨v, c, rfl⟩
    · have hlast : (u ++ [Byte.star]) ++ [Byte.slash] = body ++ [Byte.star] := by simpa using huv
      exact absurd (List.cons.inj (List.append_inj' hlast rfl).2).1 (by decide)
    · have hshort : (u ++ [Byte.star, Byte.slash] ++ v) ++ [c] = body ++ [Byte.star] := by
        simpa using huv
      exact hbody ⟨u, v, (List.append_inj' hshort rfl).1⟩
  have hcomment : IsGap [] (Byte.slash :: Byte.star :: body ++ [Byte.star, Byte.slash]) := by
    simpa using IsGap.block hinside .nil
  have hgap' : IsGap (Byte.slash :: Byte.star :: body ++ [Byte.star, Byte.slash] ++ []) g := by
    rw [List.append_nil]
    exact hgap.before_append (.inl (List.cons_ne_nil _ _))
  refine ⟨_, h.before_append (b := Byte.slash) (by simp) rfl [Byte.star, Byte.slash], ?_⟩
  rw [List.append_assoc]
  exact hgap'.append hcomment

private theorem Reads.close_string {file before t g : Text} {ts : List Token} {s : String}
    (h : Reads file before t ts (g ++ Byte.quote :: lit s)) (hgap : IsGap (Byte.quote :: lit s) g)
    (hs : Byte.quote ∉ lit s) : ∃ us, Reads file before (t ++ [Byte.quote]) us [] := by
  have hlexeme : IsLexeme .string (lit s) (Byte.quote :: lit s ++ [Byte.quote]) := .string hs
  have hgap' : IsGap (Byte.quote :: lit s ++ [Byte.quote]) g :=
    hgap.before_append (.inl (List.cons_ne_nil _ _))
  have hends : EndsGap (Byte.quote :: lit s ++ [Byte.quote] ++ []) := hlexeme.endsGap nofun
  rw [List.append_nil] at hends
  have hcuts : Cuts (Byte.quote :: lit s ++ [Byte.quote]) ⟨.string, lit s, _⟩ [] :=
    ⟨hlexeme, (List.append_nil _).symm, fun _ _ _ _ h => by simpa using h.length_le⟩
  have hreads := h.before_append (b := Byte.quote) (by simp) rfl [Byte.quote]
  rw [List.append_assoc] at hreads
  obtain ⟨pre, hpre⟩ := hreads.exists_before
  rw [hpre] at hreads ⊢
  exact ⟨_, hreads.trans (.token hgap' hends hcuts (.done _ []))⟩

theorem scan_closing {file source : Text} {f : FaultAt} (hscan : scan file source = .error f)
    (hf : f.fault.isUnterminated = true) :
    ∃ tokens, scan file (source ++ closing file source) = .ok tokens := by
  rw [closing, hscan]
  rcases spells_or_stopsAt file source with ⟨tokens, hspells⟩ | ⟨pre, fault, hstops⟩
  · cases hspells.scan_eq.symm.trans hscan
  · cases hstops.scan_eq.symm.trans hscan
    obtain ⟨ts, g, bad, hreads, hgap, hstuck, -⟩ := hstops
    cases hstuck with
    | comment hopen =>
      obtain ⟨g', hreads', hgap'⟩ := hreads.close_comment hgap hopen
      exact ⟨_, Spells.scan_eq ⟨ts, g', hreads', hgap', rfl⟩⟩
    | lexeme _ hnone =>
      cases hnone with
      | openString hs =>
        obtain ⟨us, hreads'⟩ := hreads.close_string hgap hs
        exact ⟨_, Spells.scan_eq ⟨us, [], hreads', .nil, rfl⟩⟩
      | _ => cases hf

end Lox.Token
