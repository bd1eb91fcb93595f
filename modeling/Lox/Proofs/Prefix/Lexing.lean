import Lox.Proofs.Lexing

set_option autoImplicit false
set_option relaxedAutoImplicit false

namespace Lox

open Text (lit)

/-! ### Strings broken off -/

namespace Text

private theorem utf8EncodeChar_of_mem {c : Char} {b : UInt8} (hb : b < 0x80)
    (h : b ∈ String.utf8EncodeChar c) : String.utf8EncodeChar c = [b] := by
  rw [UInt8.lt_iff_toNat_lt] at hb
  have hone : c.val.toNat ≤ 0x7f := by
    refine Nat.not_lt.1 fun hmany => ?_
    have hbytes : ∀ n, 0x80 ≤ n % 256 → b ≠ UInt8.ofNat n := by
      rintro n hn rfl
      simp at hb
      omega
    unfold String.utf8EncodeChar at h
    simp only [if_neg (Nat.not_le.2 hmany)] at h
    split at h
    · simp only [List.mem_cons, List.not_mem_nil, or_false] at h
      rcases h with h | h <;> exact hbytes _ (by omega) h
    split at h
    · simp only [List.mem_cons, List.not_mem_nil, or_false] at h
      rcases h with h | h | h <;> exact hbytes _ (by omega) h
    · simp only [List.mem_cons, List.not_mem_nil, or_false] at h
      rcases h with h | h | h | h <;> exact hbytes _ (by omega) h
  simp only [String.utf8EncodeChar, if_pos hone, List.mem_singleton] at h ⊢
  rw [h]

private theorem exists_lit_before {s : String} {b : UInt8} {body r : Text} (hb : b < 0x80)
    (h : lit s = body ++ b :: r) : ∃ s' : String, body = lit s' := by
  rw [exists_lit_iff]
  obtain ⟨cs, hcs⟩ := (exists_lit_iff _).1 ⟨s, rfl⟩
  rw [hcs] at h
  clear hcs
  induction cs generalizing body with
  | nil => exact absurd h (by simp [encoded])
  | cons c cs ih =>
    have hcons : encoded (c :: cs) = String.utf8EncodeChar c ++ encoded cs := by simp [encoded]
    rw [hcons] at h
    obtain ⟨body', rfl, hrest⟩ | ⟨middle, hchar, hrest⟩ := List.append_eq_append_iff.1 h
    · obtain ⟨ds, rfl⟩ := ih hrest
      exact ⟨c :: ds, by simp [encoded]⟩
    · cases middle with
      | nil => exact ⟨[c], by simpa [encoded] using hchar.symm⟩
      | cons b' middle =>
        obtain ⟨rfl, -⟩ := List.cons.inj hrest
        have hone := utf8EncodeChar_of_mem hb (hchar ▸ by simp : b ∈ String.utf8EncodeChar c)
        rw [hone] at hchar
        have hlen := congrArg List.length hchar
        simp only [List.length_append, List.length_cons, List.length_nil] at hlen
        exact ⟨[], List.length_eq_zero_iff.1 (by omega)⟩

end Text

/-! ### Places -/

private theorem Pos.ofBefore_injective {p q r s : Text} (h : p ++ r = q ++ s)
    (hpos : Pos.ofBefore p = Pos.ofBefore q) : p = q := by
  have hnil (p u : Text) (h : Pos.ofBefore (p ++ u) = Pos.ofBefore p) : u = [] := by
    cases u with
    | nil => rfl
    | cons b u =>
      rw [Pos.ofBefore_append] at h
      have hle := Pos.le_after ((Pos.ofBefore p).advance b) u
      have hafter : ((Pos.ofBefore p).advance b).after u = Pos.ofBefore p := h
      rw [hafter] at hle
      exact absurd hle (Pos.not_advance_le _ b)
  obtain ⟨u, rfl, -⟩ | ⟨u, rfl, -⟩ := List.append_eq_append_iff.1 h
  · rw [hnil p u hpos.symm, List.append_nil]
  · rw [hnil q u hpos, List.append_nil]

namespace Token

/-! ### Gaps broken off -/

private theorem EndsGap.ne_lineFeed {b : UInt8} {r : Text} (h : EndsGap (b :: r)) :
    b ≠ Byte.lineFeed := by
  rintro rfl
  exact absurd (h _ _ rfl).1 (by decide)

private theorem EndsGap.shortened {t u : Text} (h : EndsGap t) (hu : u <+: t) : EndsGap u := by
  rintro b r rfl
  obtain ⟨s, rfl⟩ := hu
  obtain ⟨hblank, hcomment⟩ := h b (r ++ s) rfl
  refine ⟨hblank, fun hopens => hcomment ?_⟩
  exact hopens.imp (·.trans (List.prefix_append _ s)) (·.trans (List.prefix_append _ s))

/-- Before a text that begins with no line feed, every comment to the end of a line has its end in
the gap, so that any other text may follow the gap. -/
theorem IsGap.before {t g : Text} (h : IsGap t g) (ht : t ≠ []) (hends : EndsGap t) (u : Text) :
    IsGap u g := by
  obtain ⟨b, r, rfl⟩ := List.exists_cons_of_ne_nil ht
  induction h with
  | nil => exact .nil
  | blank hb _ ih => exact .blank hb ih
  | block hbody _ ih => exact .block hbody ih
  | @line body g hbody hend _ ih =>
    refine .line hbody (.inr ?_) ih
    cases g with
    | nil =>
      obtain hnil | ⟨t, ht⟩ := hend
      · cases hnil
      · exact absurd (List.cons.inj ht).1 hends.ne_lineFeed
    | cons c g =>
      obtain hnil | ⟨t, ht⟩ := hend
      · cases hnil
      · exact ⟨g ++ u, by rw [List.cons_append, (List.cons.inj ht).1]⟩

private theorem append_eq_before {q r a b : Text} {x : UInt8} (h : q ++ x :: r = a ++ b) :
    (∃ s, a = q ++ x :: s) ∨ ∃ s, q = a ++ s ∧ s ++ x :: r = b := by
  obtain ⟨s, rfl, hs⟩ | ⟨s, rfl, hs⟩ := List.append_eq_append_iff.1 h
  · cases s with
    | nil => exact .inr ⟨[], by simp, hs⟩
    | cons y s =>
      obtain ⟨rfl, -⟩ := List.cons.inj hs
      exact .inl ⟨s, rfl⟩
  · exact .inr ⟨s, rfl, hs.symm⟩

private theorem openBlock_of_before {body q s : Text}
    (hbody : ¬ [Byte.star, Byte.slash] <:+: body ++ [Byte.star])
    (hs : Byte.slash :: Byte.star :: (body ++ [Byte.star, Byte.slash]) = q ++ Byte.lineFeed :: s) :
    q = [] ∨ OpenBlock q := by
  rcases q with _ | ⟨b, _ | ⟨c, q⟩⟩
  · exact .inl rfl
  · exact absurd (List.cons.inj (List.cons.inj hs).2).1 (by decide)
  · simp only [List.cons_append, List.cons.injEq] at hs
    obtain ⟨rfl, rfl, hs⟩ := hs
    refine .inr ⟨q, rfl, fun hinside => hbody ?_⟩
    have hhead : q <+: (body ++ [Byte.star]) ++ [Byte.slash] :=
      ⟨_, by rw [List.append_assoc]; exact hs.symm⟩
    obtain rfl | hhead := List.prefix_concat_iff.1 hhead
    · have hlen := congrArg List.length hs
      simp only [List.length_append, List.length_cons, List.length_nil] at hlen
      omega
    · exact hinside.trans hhead.isInfix

private theorem IsGap.before_lineFeed {t q r : Text} (h : IsGap t (q ++ Byte.lineFeed :: r)) :
    IsGap [] q ∨ ∃ g bad, q = g ++ bad ∧ IsGap bad g ∧ OpenBlock bad := by
  generalize hw : q ++ Byte.lineFeed :: r = w at h
  induction h generalizing q with
  | nil => exact absurd hw (by simp)
  | @blank b g hb _ ih =>
    obtain ⟨s, hs⟩ | ⟨q, rfl, hq⟩ := append_eq_before (a := [b]) hw
    · cases q with
      | nil => exact .inl .nil
      | cons c q => exact absurd (List.cons.inj hs).2 (by simp)
    · refine (ih hq).imp (.blank hb) ?_
      rintro ⟨g', bad, rfl, hg, hbad⟩
      exact ⟨b :: g', bad, rfl, .blank hb hg, hbad⟩
  | @line body g hbody hend _ ih =>
    obtain ⟨s, hs⟩ | ⟨q, rfl, hq⟩ := append_eq_before (a := Byte.slash :: Byte.slash :: body) hw
    · have hmem : Byte.lineFeed ∈ Byte.slash :: Byte.slash :: body := hs ▸ by simp
      simp only [List.mem_cons] at hmem
      obtain h | h | h := hmem
      · exact absurd h (by decide)
      · exact absurd h (by decide)
      · exact absurd h hbody
    · -- What is left of the gap begins as the gap did: with a line feed, if at all.
      have hstart : q = [] ∨ ∃ u, q = Byte.lineFeed :: u := by
        cases q with
        | nil => exact .inl rfl
        | cons c q =>
          obtain hnil | ⟨u, hu⟩ := hend
          · simp [← hq] at hnil
          · rw [← hq] at hu
            exact .inr ⟨q, by rw [(List.cons.inj hu).1]⟩
      refine (ih hq).imp (fun hgap => .line hbody (by simpa using hstart) hgap) ?_
      rintro ⟨g', bad, rfl, hg, hbad⟩
      exact ⟨Byte.slash :: Byte.slash :: (body ++ g'), bad, by simp, .line hbody hstart hg, hbad⟩
  | @block body g hbody _ ih =>
    obtain ⟨s, hs⟩ | ⟨q, rfl, hq⟩ := append_eq_before
      (a := Byte.slash :: Byte.star :: (body ++ [Byte.star, Byte.slash]))
        (b := g) (by simpa using hw)
    · obtain rfl | hopen := openBlock_of_before hbody hs
      · exact .inl .nil
      · exact .inr ⟨[], q, rfl, .nil, hopen⟩
    · refine (ih hq).imp (fun hgap => by simpa using IsGap.block hbody hgap) ?_
      rintro ⟨g', bad, rfl, hg, hbad⟩
      exact ⟨_, bad, by simp, .block hbody hg, hbad⟩

/-! ### Tokens broken off -/

theorem IsLexeme.before_byte {kind : Kind} {text q r : Text} {x : UInt8}
    (hx : x ∈ [Byte.lineFeed, Byte.quote, Byte.slash]) (h : IsLexeme kind text (q ++ x :: r)) :
    q = [] ∨ ∃ s : String, q = Byte.quote :: lit s ∧ Byte.quote ∉ lit s := by
  obtain ⟨hname, hdigit, hdot, hequal, hascii⟩ : Byte.isNamePart x = false ∧
      Byte.isDigit x = false ∧ x ≠ Byte.dot ∧ x ≠ 61 ∧ x < 0x80 := by
    simp only [List.mem_cons, List.not_mem_nil, or_false] at hx
    rcases hx with rfl | rfl | rfl <;> decide
  cases q with
  | nil => exact .inl rfl
  | cons b q =>
    have hmem : x ∈ q ++ x :: r := by simp
    obtain ⟨b', r', hbytes, class_⟩ := h.first_byte
    obtain ⟨rfl, hr⟩ := List.cons.inj hbytes
    rw [← List.append_eq, hr] at hmem
    obtain ⟨-, -, -, hpart⟩ | ⟨-, -, -, htail⟩ | ⟨m, -, -, htail⟩ | hstring := class_
    · exact absurd (hpart _ hmem) (by simp [hname])
    · obtain hdigits | ⟨ds, fs, rfl, hds, -, hfs⟩ := htail
      · exact absurd (hdigits _ hmem) (by simp [hdigit])
      · simp only [List.mem_append, List.mem_cons] at hmem
        obtain hmem | hmem | hmem := hmem
        · exact absurd (hds _ hmem) (by simp [hdigit])
        · exact absurd hmem hdot
        · exact absurd (hfs _ hmem) (by simp [hdigit])
    · obtain ⟨-, rfl⟩ | ⟨longer, -, -, rfl⟩ := htail
      · cases hmem
      · exact absurd (List.mem_singleton.1 hmem) hequal
    · obtain ⟨rfl, -, hquote, ⟨s, rfl⟩, htail⟩ := hstring
      obtain ⟨s', hs'⟩ | ⟨q, rfl, hq⟩ := append_eq_before (hr.trans htail)
      · obtain ⟨s₁, rfl⟩ := Text.exists_lit_before hascii hs'
        exact .inr ⟨s₁, rfl, fun hq => hquote (hs' ▸ List.mem_append_left _ hq)⟩
      · cases q with
        | nil => exact .inr ⟨s, by simp, hquote⟩
        | cons c q => exact absurd (List.cons.inj hq).2 (by simp)

private theorem Cuts.shortened {l : Lexeme} {rest q : Text} (h : Cuts (l.bytes ++ rest) l rest)
    (hq : q <+: rest) : Cuts (l.bytes ++ q) l q := by
  refine ⟨h.lexeme, rfl, fun kind text y hy hhead => h.longest kind text y hy (hhead.trans ?_)⟩
  exact (List.prefix_append_right_inj l.bytes).2 hq

private theorem Reads.token_shortened {file before g t rest q : Text} {l : Lexeme} {ts : List Token}
    {tail : Text} (hgap : IsGap t g) (hends : EndsGap t) (hcuts : Cuts t l rest) (hq : q <+: rest)
    (h : Reads file (before ++ g ++ l.bytes) q ts tail) :
    Reads file before (g ++ (l.bytes ++ q)) (tokenAt file (before ++ g) l :: ts) tail := by
  obtain rfl := hcuts.split
  have hne : l.bytes ++ rest ≠ [] := by
    obtain ⟨b, r, hbytes, -⟩ := hcuts.lexeme.first_byte
    simp [hbytes]
  have hhead : l.bytes ++ q <+: l.bytes ++ rest := (List.prefix_append_right_inj l.bytes).2 hq
  exact .token (hgap.before hne hends _) (hends.shortened hhead) (hcuts.shortened hq) h

/-- Broken off before a line feed, a text gives the first of its tokens and a gap, or it ends inside
a string or a block comment. -/
theorem Reads.before_lineFeed {file before t tail q r : Text} {ts : List Token}
    (h : Reads file before t ts tail) (hlast : IsGap [] tail) (ht : t = q ++ Byte.lineFeed :: r) :
    ∃ us vs, ts = us ++ vs ∧ ((∃ g, Reads file before q us g ∧ IsGap [] g) ∨
      ∃ g bad fault, Reads file before q us (g ++ bad) ∧ IsGap bad g ∧ Stuck bad fault ∧
        fault.isUnterminated = true) := by
  induction h generalizing q with
  | done before rest =>
    subst ht
    refine ⟨[], [], rfl, hlast.before_lineFeed.imp (fun hgap => ⟨q, .done before q, hgap⟩) ?_⟩
    rintro ⟨g, bad, rfl, hg, hbad⟩
    exact ⟨g, bad, .openComment, .done before _, hg, .comment hbad, rfl⟩
  | @token before g t rest tail l ts hgap hends hcuts _ ih =>
    obtain ⟨s, rfl⟩ | ⟨q, rfl, hq⟩ := append_eq_before ht.symm
    · -- The text is broken off before its first token.
      refine ⟨[], _, rfl, hgap.before_lineFeed.imp (fun hgap => ⟨q, .done before q, hgap⟩) ?_⟩
      rintro ⟨g, bad, rfl, hg, hbad⟩
      exact ⟨g, bad, .openComment, .done before _, hg, .comment hbad, rfl⟩
    · have hsplit := hcuts.split
      obtain ⟨s, hs⟩ | ⟨q, rfl, hrest⟩ := append_eq_before (hq.trans hsplit)
      · -- The text is broken off inside its first token.
        have hne : t ≠ [] := hq ▸ by simp
        have hhead : q <+: t := ⟨_, hq⟩
        obtain rfl | ⟨s', rfl, hquote⟩ :=
          (hs ▸ hcuts.lexeme).before_byte List.mem_cons_self
        · exact absurd rfl (EndsGap.ne_lineFeed (hq ▸ hends))
        · exact ⟨[], _, rfl, .inr ⟨g, _, .openString, .done before _, hgap.before hne hends _,
            .lexeme (hends.shortened hhead) (.openString hquote), rfl⟩⟩
      · have hhead : q <+: rest := ⟨_, hrest⟩
        obtain ⟨us, vs, rfl, hcut⟩ := ih hlast hrest.symm
        refine ⟨_ :: us, vs, rfl, hcut.imp ?_ ?_⟩
        · rintro ⟨g', hreads, hg'⟩
          exact ⟨g', .token_shortened hgap hends hcuts hhead hreads, hg'⟩
        · rintro ⟨g', bad, fault, hreads, hg', hstuck⟩
          exact ⟨g', bad, fault, .token_shortened hgap hends hcuts hhead hreads, hg', hstuck⟩

private theorem Reads.upTo {file before t tail : Text} {ts : List Token}
    (h : Reads file before t ts tail)
    {u : Token} (hu : u ∈ ts) : ∃ us vs q r, ts = us ++ vs ∧ t = q ++ r ∧
      Reads file before q us [] ∧ u.span.stop = .ofBefore (before ++ q) := by
  induction h with
  | done => cases hu
  | @token before g t rest tail l ts hgap hends hcuts _ ih =>
    have hsplit := hcuts.split
    rcases List.mem_cons.1 hu with rfl | hu
    · refine ⟨[tokenAt file (before ++ g) l], ts, g ++ (l.bytes ++ []), rest, rfl, by simp [hsplit],
        .token_shortened hgap hends hcuts (List.prefix_append [] _) (.done _ _), ?_⟩
      simp [tokenAt]
    · obtain ⟨us, vs, q, r, rfl, rfl, hreads, hstop⟩ := ih hu
      refine ⟨_ :: us, vs, g ++ (l.bytes ++ q), r, rfl, by simp [hsplit],
        .token_shortened hgap hends hcuts (List.prefix_append q r) hreads, ?_⟩
      rw [hstop]
      simp

/-- The places at which a source can be broken off: before a line feed, and after a token. -/
def BreaksAt (file pre rest : Text) : Prop :=
  (∃ r, rest = Byte.lineFeed :: r) ∨
    ∃ tokens, scan file (pre ++ rest) = .ok tokens ∧ ∃ t ∈ tokens, t.span.stop = .ofBefore pre

/-- Broken off at such a place, a source gives the first of its tokens, or it ends inside a string
or a block comment. -/
theorem scan_of_breaksAt {file pre rest : Text} {ts : List Token} (h : BreaksAt file pre rest)
    (hscan : scan file (pre ++ rest) = .ok (ts ++ [eofAt file (pre ++ rest)])) :
    (∃ us vs, ts = us ++ vs ∧ scan file pre = .ok (us ++ [eofAt file pre])) ∨
      ∃ f, scan file pre = .error f ∧ f.fault.isUnterminated = true := by
  obtain ⟨ts', tail, hreads, hlast, heq⟩ := scan_eq_ok_iff.1 hscan
  obtain ⟨rfl, -⟩ := List.append_inj' heq rfl
  obtain ⟨r, rfl⟩ | ⟨tokens, htokens, u, hu, hstop⟩ := h
  · obtain ⟨us, vs, rfl, ⟨g, hpre, hg⟩ | ⟨g, bad, fault, hpre, hg, hstuck, hfault⟩⟩ :=
      hreads.before_lineFeed hlast rfl
    · exact .inl ⟨us, vs, rfl, Spells.scan_eq ⟨us, g, hpre, hg, rfl⟩⟩
    · obtain ⟨p, hp⟩ := hpre.exists_before
      have hstops : StopsAt file pre (p ++ g) fault :=
        ⟨us, g, bad, hpre, hg, hstuck, by rw [hp, List.append_assoc]⟩
      exact .inr ⟨_, hstops.scan_eq, hfault⟩
  · cases hscan.symm.trans htokens
    rcases List.mem_append.1 hu with hu | hu
    · obtain ⟨us, vs, q, r, rfl, hq, hpre, hstop'⟩ := hreads.upTo hu
      obtain rfl : pre = q := Pos.ofBefore_injective hq (hstop.symm.trans hstop')
      exact .inl ⟨us, vs, rfl, Spells.scan_eq ⟨us, [], hpre, .nil, rfl⟩⟩
    · obtain rfl := List.mem_singleton.1 hu
      have hpre : pre ++ rest = pre :=
        Pos.ofBefore_injective (r := []) (s := rest) (by simp) hstop
      rw [hpre] at hscan
      exact .inl ⟨ts, [], by simp, hscan⟩

end Token
end Lox
