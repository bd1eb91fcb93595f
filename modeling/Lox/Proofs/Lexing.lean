import Lox.Proofs.Lexeme

set_option autoImplicit false
set_option relaxedAutoImplicit false

namespace Lox

open Text (lit)

/-! ### Places -/

/-- The place after some bytes of a source: one line more for every line feed among them, and one
column more for every byte after the last line feed. -/
def Pos.ofBefore (before : Text) : Pos :=
  { line := before.count Byte.lineFeed + 1
    column := (before.reverse.takeWhile (· != Byte.lineFeed)).length + 1 }

private theorem Pos.ofBefore_concat (before : Text) (b : UInt8) :
    Pos.ofBefore (before ++ [b]) = (Pos.ofBefore before).advance b := by
  unfold Pos.advance Pos.ofBefore
  split
  · rename_i h
    simp [h]
  · rename_i h
    simp [h]

theorem Pos.ofBefore_append (before t : Text) :
    Pos.ofBefore (before ++ t) = (Pos.ofBefore before).after t := by
  induction t generalizing before with
  | nil => simp [Pos.after]
  | cons b t ih =>
    rw [List.append_cons, ih, Pos.ofBefore_concat]
    rfl

theorem Pos.le_refl (p : Pos) : p.le p := .inr ⟨rfl, Int.le_refl _⟩

theorem Pos.le_trans {p q r : Pos} (h : p.le q) (h' : q.le r) : p.le r := by
  unfold Pos.le at *
  omega

private theorem Pos.le_advance (p : Pos) (b : UInt8) : p.le (p.advance b) := by
  unfold Pos.advance Pos.le
  split
  · exact .inl (by simp only; omega)
  · exact .inr ⟨rfl, by simp only; omega⟩

theorem Pos.not_advance_le (p : Pos) (b : UInt8) : ¬ (p.advance b).le p := by
  unfold Pos.advance Pos.le
  split <;> simp only <;> omega

theorem Pos.le_after (p : Pos) (t : Text) : p.le (p.after t) := by
  induction t generalizing p with
  | nil => exact p.le_refl
  | cons b t ih => exact Pos.le_trans (p.le_advance b) (ih _)

private theorem Pos.after_append (p : Pos) (s t : Text) : p.after (s ++ t) = (p.after s).after t :=
  List.foldl_append

namespace Token

/-! ### Gaps -/

/-- The gaps that can stand before the rest of a source: blanks, comments to the end of a line, and
block comments up to their first end. -/
inductive IsGap (rest : Text) : Text → Prop
  | nil : IsGap rest []
  | blank {b : UInt8} {g : Text} : isBlank b = true → IsGap rest g → IsGap rest (b :: g)
  | line {body g : Text} :
      Byte.lineFeed ∉ body → (g ++ rest = [] ∨ ∃ t, g ++ rest = Byte.lineFeed :: t) →
      IsGap rest g → IsGap rest (Byte.slash :: Byte.slash :: (body ++ g))
  | block {body g : Text} :
      ¬ [Byte.star, Byte.slash] <:+: body ++ [Byte.star] →
      IsGap rest g → IsGap rest (Byte.slash :: Byte.star :: (body ++ Byte.star :: Byte.slash :: g))

def OpensComment (t : Text) : Prop :=
  [Byte.slash, Byte.slash] <+: t ∨ [Byte.slash, Byte.star] <+: t

def EndsGap (t : Text) : Prop :=
  ∀ b r, t = b :: r → isBlank b = false ∧ ¬ OpensComment t

def OpenBlock (t : Text) : Prop :=
  ∃ body, t = Byte.slash :: Byte.star :: body ∧ ¬ [Byte.star, Byte.slash] <:+: body

private theorem skipGap_blank_cons {b : UInt8} (h : isBlank b = true) (p : Pos) (r : Text) :
    skipGap .blank p (b :: r) = skipGap .blank (p.advance b) r := by
  have hslash : b ≠ Byte.slash := by
    rintro rfl
    exact absurd h (by decide)
  rw [skipGap]
  · simp [h]
  · exact fun _ hb _ => hslash hb
  · exact fun _ hb _ => hslash hb

private theorem skipGap_open_line (p : Pos) (r : Text) :
    skipGap .blank p (Byte.slash :: Byte.slash :: r) =
      skipGap .line (p.after [Byte.slash, Byte.slash]) r := rfl

private theorem skipGap_open_block (p : Pos) (r : Text) :
    skipGap .blank p (Byte.slash :: Byte.star :: r) =
      skipGap (.block p) (p.after [Byte.slash, Byte.star]) r := rfl

private theorem skipGap_line_append {body : Text} (h : Byte.lineFeed ∉ body) (p : Pos) (t : Text) :
    skipGap .line p (body ++ t) = skipGap .line (p.after body) t := by
  induction body generalizing p with
  | nil => rfl
  | cons b body ih =>
    rw [List.mem_cons, not_or] at h
    rw [List.cons_append, skipGap, if_neg (Ne.symm h.1), ih h.2]
    rfl

private theorem skipGap_line_end {t : Text} (h : t = [] ∨ ∃ r, t = Byte.lineFeed :: r) (p : Pos) :
    skipGap .line p t = skipGap .blank p t := by
  obtain rfl | ⟨r, rfl⟩ := h
  · rfl
  · rw [skipGap_blank_cons (by decide), skipGap, if_pos rfl]

private theorem infix_cons {c : UInt8} {t : Text} (h : ¬ [Byte.star, Byte.slash] <:+: c :: t) :
    ¬ [Byte.star, Byte.slash] <:+: t :=
  fun hinside => h (hinside.trans (List.suffix_cons c t).isInfix)

private theorem skipGap_block_cons {c : UInt8} {t : Text} (h : ¬ [Byte.star, Byte.slash] <+: c :: t)
    (opened p : Pos) : skipGap (.block opened) p (c :: t) =
    skipGap (.block opened) (p.advance c) t := by
  rw [skipGap]
  rintro r rfl rfl
  exact h ⟨r, rfl⟩

private theorem skipGap_block_open {body : Text}
    (h : ¬ [Byte.star, Byte.slash] <:+: body) (opened p : Pos) :
    skipGap (.block opened) p body = .openComment opened := by
  induction body generalizing p with
  | nil => rfl
  | cons c body ih =>
    rw [skipGap_block_cons (fun hprefix => h hprefix.isInfix), ih (infix_cons h)]

private theorem skipGap_block_close {body : Text}
    (h : ¬ [Byte.star, Byte.slash] <:+: body ++ [Byte.star]) (opened p : Pos) (t : Text) :
    skipGap (.block opened) p (body ++ Byte.star :: Byte.slash :: t) =
      skipGap .blank (p.after (body ++ [Byte.star, Byte.slash])) t := by
  induction body generalizing p with
  | nil => rfl
  | cons c body ih =>
    have hprefix : ¬ [Byte.star, Byte.slash] <+: c :: (body ++ Byte.star :: Byte.slash :: t) := by
      rintro ⟨r, hr⟩
      apply h
      cases body with
      | nil =>
        exact absurd (List.cons.inj (List.cons.inj hr).2).1 (by decide)
      | cons d body =>
        obtain ⟨rfl, hr'⟩ := List.cons.inj hr
        obtain rfl := (List.cons.inj hr').1
        exact ⟨[], body ++ [Byte.star], rfl⟩
    rw [List.cons_append, skipGap_block_cons hprefix, ih (infix_cons h)]
    rfl

private theorem exists_first_end {t : Text} (h : [Byte.star, Byte.slash] <:+: t) :
    ∃ body r, t = body ++ Byte.star :: Byte.slash :: r ∧
      ¬ [Byte.star, Byte.slash] <:+: body ++ [Byte.star] := by
  induction t with
  | nil => simp at h
  | cons c t ih =>
    by_cases hprefix : [Byte.star, Byte.slash] <+: c :: t
    · obtain ⟨r, hr⟩ := hprefix
      refine ⟨[], r, hr.symm, ?_⟩
      rintro ⟨u, v, huv⟩
      have := congrArg List.length huv
      simp at this
      omega
    · have hinner : [Byte.star, Byte.slash] <:+: t :=
        (List.infix_cons_iff.mp h).resolve_left hprefix
      obtain ⟨body, r, rfl, hbody⟩ := ih hinner
      refine ⟨c :: body, r, rfl, ?_⟩
      intro hinside
      obtain hhead | htail := List.infix_cons_iff.mp hinside
      · apply hprefix
        refine hhead.trans ?_
        exact ⟨Byte.slash :: r, by simp⟩
      · exact hbody htail

private theorem IsGap.skipGap_append {rest g : Text} (h : IsGap rest g) (p : Pos) :
    skipGap .blank p (g ++ rest) = skipGap .blank (p.after g) rest := by
  induction h generalizing p with
  | nil => rfl
  | blank hb _ ih =>
    rw [List.cons_append, skipGap_blank_cons hb, ih]
    rfl
  | @line body g hbody hend _ ih =>
    rw [List.cons_append, List.cons_append, List.append_assoc, skipGap_open_line,
      skipGap_line_append hbody, skipGap_line_end hend, ih]
    simp only [← Pos.after_append]
    rfl
  | @block body g hbody _ ih =>
    rw [List.cons_append, List.cons_append, List.append_assoc, List.cons_append, List.cons_append,
      skipGap_open_block, skipGap_block_close hbody, ih]
    simp only [← Pos.after_append]
    congr 1
    simp

private theorem EndsGap.skipGap_eq {t : Text} (h : EndsGap t) (p : Pos) :
    skipGap .blank p t = .closed p t := by
  cases t with
  | nil => rfl
  | cons b r =>
    obtain ⟨hblank, hcomment⟩ := h b r rfl
    rw [skipGap]
    · simp [hblank]
    · rintro s rfl rfl
      exact hcomment (.inl ⟨s, rfl⟩)
    · rintro s rfl rfl
      exact hcomment (.inr ⟨s, rfl⟩)

private theorem OpenBlock.skipGap_eq {t : Text} (h : OpenBlock t) (p : Pos) :
    skipGap .blank p t = .openComment p := by
  obtain ⟨body, rfl, hbody⟩ := h
  rw [skipGap_open_block, skipGap_block_open hbody]

private theorem exists_gap (t : Text) :
    ∃ g rest, t = g ++ rest ∧ IsGap rest g ∧ (EndsGap rest ∨ OpenBlock rest) := by
  induction hlen : t.length using Nat.strongRecOn generalizing t with
  | ind n ih =>
    cases t with
    | nil => exact ⟨[], [], rfl, .nil, .inl (by simp [EndsGap])⟩
    | cons b r =>
      by_cases hblank : isBlank b = true
      · obtain ⟨g, rest, rfl, hg, hrest⟩ := ih r.length (by simp at hlen; omega) r rfl
        exact ⟨b :: g, rest, rfl, .blank hblank hg, hrest⟩
      by_cases hcomment : OpensComment (b :: r)
      · obtain ⟨s, hs⟩ | ⟨s, hs⟩ := hcomment
        · obtain ⟨rfl, rfl⟩ := List.cons.inj hs
          obtain ⟨body, s, rfl, hbody, hend⟩ := exists_until Byte.lineFeed s
          obtain ⟨g, rest, rfl, hg, hrest⟩ := ih s.length (by simp at hlen; omega) s rfl
          exact ⟨_, rest, by simp, .line hbody hend hg, hrest⟩
        · obtain ⟨rfl, rfl⟩ := List.cons.inj hs
          by_cases hclosed : [Byte.star, Byte.slash] <:+: s
          · obtain ⟨body, s, rfl, hbody⟩ := exists_first_end hclosed
            obtain ⟨g, rest, rfl, hg, hrest⟩ := ih s.length (by simp at hlen; omega) s rfl
            exact ⟨_, rest, by simp, .block hbody hg, hrest⟩
          · exact ⟨[], _, rfl, .nil, .inr ⟨s, rfl, hclosed⟩⟩
      · refine ⟨[], b :: r, rfl, .nil, .inl ?_⟩
        rintro b' r' h
        obtain ⟨rfl, rfl⟩ := List.cons.inj h
        exact ⟨by simpa using hblank, hcomment⟩

/-! ### Tokens -/

def tokenAt (file before : Text) (l : Lexeme) : Token :=
  { kind := l.kind, text := l.text,
    span := { file, start := .ofBefore before, stop := .ofBefore (before ++ l.bytes) } }

/-- The end of a source. -/
def eofAt (file source : Text) : Token :=
  { kind := .eof, text := [],
    span := { file, start := .ofBefore source, stop := .ofBefore source } }

/-- Reading tokens off a text that stands after some bytes of a source: gaps and longest lexemes in
turn, until some of the text is left. -/
inductive Reads (file : Text) : Text → Text → List Token → Text → Prop
  | done (before rest : Text) : Reads file before rest [] rest
  | token {before g t rest tail : Text} {l : Lexeme} {ts : List Token} :
      IsGap t g → EndsGap t → Cuts t l rest → Reads file (before ++ g ++ l.bytes) rest ts tail →
      Reads file before (g ++ t) (tokenAt file (before ++ g) l :: ts) tail

/-- The texts from which no reading goes on, and why: a block comment without an end, or something
that is no lexeme. -/
inductive Stuck : Text → Fault → Prop
  | comment {t : Text} : OpenBlock t → Stuck t .openComment
  | lexeme {t : Text} {fault : Fault} : EndsGap t → NoLexeme t fault → Stuck t fault

/-- A source is a decomposition into tokens and a last gap. -/
def Spells (file source : Text) (tokens : List Token) : Prop :=
  ∃ ts g, Reads file [] source ts g ∧ IsGap [] g ∧ tokens = ts ++ [eofAt file source]

/-- A source can be read up to a place from which nothing can be read on. -/
def StopsAt (file source pre : Text) (fault : Fault) : Prop :=
  ∃ ts g bad, Reads file [] source ts (g ++ bad) ∧ IsGap bad g ∧
    Stuck bad fault ∧ source = pre ++ bad

private theorem Reads.scanFrom_eq {file before t rest : Text} {ts : List Token}
    (h : Reads file before t ts rest) {fuel : Nat} (hfuel : t.length < fuel) :
    ∃ fuel' pre, rest.length < fuel' ∧ t = pre ++ rest ∧
      scanFrom file fuel (.ofBefore before) t =
        (scanFrom file fuel' (.ofBefore (before ++ pre)) rest).map (ts ++ ·) := by
  induction h generalizing fuel with
  | done before rest =>
    refine ⟨fuel, [], hfuel, rfl, ?_⟩
    rw [List.append_nil]
    cases scanFrom file fuel (.ofBefore before) rest <;> rfl
  | @token before g t rest tail l ts hgap hends hcuts _ ih =>
    obtain ⟨b, r, hbytes, -⟩ := hcuts.lexeme.first_byte
    have hsplit := hcuts.split
    obtain ⟨fuel, rfl⟩ : ∃ n, fuel = n + 1 := ⟨fuel - 1, by omega⟩
    have hlen : rest.length < fuel := by
      simp only [hsplit, hbytes, List.length_append, List.length_cons] at hfuel
      omega
    obtain ⟨fuel', pre, hfuel', rfl, heq⟩ := ih hlen
    refine ⟨fuel', g ++ l.bytes ++ pre, hfuel', by simp [hsplit], ?_⟩
    rw [hbytes, List.cons_append] at hsplit
    subst hsplit
    rw [scanFrom, hgap.skipGap_append, hends.skipGap_eq]
    simp only [cut_eq_ok_iff.mpr hcuts, ← Pos.ofBefore_append, heq]
    simp only [← List.append_assoc]
    cases scanFrom file fuel' (.ofBefore (before ++ g ++ l.bytes ++ pre)) tail <;> rfl

private theorem scanFrom_last_gap {file before g : Text} (h : IsGap [] g) {fuel : Nat}
    (hfuel : g.length < fuel) :
    scanFrom file fuel (.ofBefore before) g = .ok [eofAt file (before ++ g)] := by
  obtain ⟨fuel, rfl⟩ : ∃ n, fuel = n + 1 := ⟨fuel - 1, by omega⟩
  have hgap := h.skipGap_append (.ofBefore before)
  rw [List.append_nil, ← Pos.ofBefore_append] at hgap
  rw [scanFrom, hgap]
  rfl

private theorem Stuck.scanFrom_eq {file before g bad : Text} {fault : Fault} (h : Stuck bad fault)
    (hgap : IsGap bad g) {fuel : Nat} (hfuel : (g ++ bad).length < fuel) :
    scanFrom file fuel (.ofBefore before) (g ++ bad) =
      .error { fault, file, place := .ofBefore (before ++ g) } := by
  obtain ⟨fuel, rfl⟩ : ∃ n, fuel = n + 1 := ⟨fuel - 1, by omega⟩
  rw [scanFrom, hgap.skipGap_append, ← Pos.ofBefore_append]
  cases h with
  | comment hopen => rw [hopen.skipGap_eq]
  | lexeme hends hnone =>
    rw [hends.skipGap_eq]
    cases bad with
    | nil => cases hnone
    | cons b r => simp [hnone.cut_eq]

theorem Spells.scan_eq {file source : Text} {tokens : List Token} (h : Spells file source tokens) :
    scan file source = .ok tokens := by
  obtain ⟨ts, g, hreads, hgap, rfl⟩ := h
  obtain ⟨fuel, pre, hfuel, rfl, heq⟩ := hreads.scanFrom_eq (Nat.lt_succ_self source.length)
  exact heq.trans (by rw [scanFrom_last_gap hgap hfuel]; rfl)

theorem StopsAt.scan_eq {file source pre : Text} {fault : Fault}
    (h : StopsAt file source pre fault) :
    scan file source = .error { fault, file, place := .ofBefore pre } := by
  obtain ⟨ts, g, bad, hreads, hgap, hstuck, hsource⟩ := h
  obtain ⟨fuel, pre', hfuel, rfl, heq⟩ := hreads.scanFrom_eq (Nat.lt_succ_self source.length)
  rw [← List.append_assoc] at hsource
  obtain rfl := List.append_cancel_right hsource
  exact heq.trans (by rw [hstuck.scanFrom_eq hgap hfuel]; rfl)

/-- Every text can be read to its last gap, or up to a place from which nothing can be read on. -/
theorem exists_reads (file before t : Text) :
    (∃ ts g, Reads file before t ts g ∧ IsGap [] g) ∨
      ∃ ts g bad fault, Reads file before t ts (g ++ bad) ∧ IsGap bad g ∧ Stuck bad fault := by
  induction hlen : t.length using Nat.strongRecOn generalizing t before with
  | ind n ih =>
    obtain ⟨g, t, rfl, hgap, hends | hopen⟩ := exists_gap t
    · cases t with
      | nil =>
        rw [List.append_nil]
        exact .inl ⟨[], g, .done before g, hgap⟩
      | cons b r =>
        obtain ⟨l, rest, -, hcuts⟩ | ⟨fault, -, hnone⟩ := cut_cases b r
        · obtain ⟨c, s, hbytes, -⟩ := hcuts.lexeme.first_byte
          have hshort : rest.length < n := by
            rw [← hlen, hcuts.split, hbytes]
            simp only [List.length_append, List.length_cons]
            omega
          obtain ⟨ts, g', hreads, hlast⟩ | ⟨ts, g', bad, fault, hreads, hgap', hstuck⟩ :=
            ih rest.length hshort (before ++ g ++ l.bytes) rest rfl
          · exact .inl ⟨_, g', .token hgap hends hcuts hreads, hlast⟩
          · exact .inr ⟨_, g', bad, fault, .token hgap hends hcuts hreads, hgap', hstuck⟩
        · exact .inr ⟨[], g, b :: r, fault, .done before _, hgap, .lexeme hends hnone⟩
    · exact .inr ⟨[], g, t, _, .done before _, hgap, .comment hopen⟩

theorem Reads.exists_before {file before t rest : Text} {ts : List Token}
    (h : Reads file before t ts rest) : ∃ pre, t = pre ++ rest := by
  obtain ⟨_, pre, -, ht, -⟩ := h.scanFrom_eq (Nat.lt_succ_self t.length)
  exact ⟨pre, ht⟩

theorem spells_or_stopsAt (file source : Text) :
    (∃ tokens, Spells file source tokens) ∨ ∃ pre fault, StopsAt file source pre fault := by
  obtain ⟨ts, g, hreads, hgap⟩ | ⟨ts, g, bad, fault, hreads, hgap, hstuck⟩ :=
    exists_reads file [] source
  · exact .inl ⟨_, ts, g, hreads, hgap, rfl⟩
  · obtain ⟨pre, hsource⟩ := hreads.exists_before
    rw [← List.append_assoc] at hsource
    exact .inr ⟨_, fault, ts, g, bad, hreads, hgap, hstuck, hsource⟩

theorem scan_eq_ok_iff {file source : Text} {tokens : List Token} :
    scan file source = .ok tokens ↔ Spells file source tokens := by
  refine ⟨fun h => ?_, Spells.scan_eq⟩
  obtain ⟨tokens', hspells⟩ | ⟨pre, fault, hstops⟩ := spells_or_stopsAt file source
  · obtain rfl := Except.ok.inj (h.symm.trans hspells.scan_eq)
    exact hspells
  · rw [hstops.scan_eq] at h
    cases h

/-- The tokens read off a text begin after what stands before the text, take at least one byte each,
and follow one another. -/
theorem Reads.ordered {file before t rest : Text} {ts : List Token}
    (h : Reads file before t ts rest) :
    (∀ u ∈ ts, (Pos.ofBefore before).le u.span.start ∧ ¬ u.span.stop.le u.span.start ∧
      u.span.stop.le (.ofBefore (before ++ t))) ∧
      ts.Pairwise fun u v => u.span.stop.le v.span.start := by
  induction h with
  | done => simp
  | @token before g t rest tail l ts _ _ hcuts _ ih =>
    obtain ⟨hbounds, hpairs⟩ := ih
    have hstop : Pos.ofBefore (before ++ g ++ l.bytes) =
        ((Pos.ofBefore before).after g).after l.bytes := by
      rw [Pos.ofBefore_append, Pos.ofBefore_append]
    have hend : Pos.ofBefore (before ++ (g ++ t)) =
        (Pos.ofBefore (before ++ g ++ l.bytes)).after rest := by
      rw [← Pos.ofBefore_append, hcuts.split]
      simp
    have hlexeme : ¬ (Pos.ofBefore (before ++ g ++ l.bytes)).le (.ofBefore (before ++ g)) := by
      obtain ⟨b, r, hbytes, -⟩ := hcuts.lexeme.first_byte
      intro hle
      rw [hbytes, Pos.ofBefore_append] at hle
      exact Pos.not_advance_le _ b (Pos.le_trans (Pos.le_after _ r) hle)
    refine ⟨List.forall_mem_cons.mpr ⟨⟨?_, hlexeme, ?_⟩, ?_⟩, List.pairwise_cons.mpr ⟨?_, hpairs⟩⟩
    · simp only [tokenAt, Pos.ofBefore_append]
      exact Pos.le_after _ g
    · rw [hend]
      exact Pos.le_after _ rest
    · intro u hu
      obtain ⟨hstart, hne, hlast⟩ := hbounds u hu
      refine ⟨Pos.le_trans ?_ hstart, hne, ?_⟩
      · rw [hstop]
        exact Pos.le_trans (Pos.le_after _ g) (Pos.le_after _ l.bytes)
      · rw [hend, ← Pos.ofBefore_append]
        exact hlast
    · exact fun u hu => (hbounds u hu).1

/-- The tokens of a source take at least one byte each, except the end of the source, which stands
after all of them. -/
theorem Spells.ordered {file source : Text} {tokens : List Token} (h : Spells file source tokens) :
    (tokens.Pairwise fun u v => u.span.stop.le v.span.start) ∧
      (∀ u ∈ tokens, u.kind ≠ .eof → ¬ u.span.stop.le u.span.start) ∧
      tokens.getLast? = some (eofAt file source) := by
  obtain ⟨ts, g, hreads, -, rfl⟩ := h
  obtain ⟨hbounds, hpairs⟩ := hreads.ordered
  refine ⟨List.pairwise_append.mpr ⟨hpairs, by simp, ?_⟩, ?_, by simp⟩
  · intro u hu v hv
    obtain rfl := List.mem_singleton.mp hv
    exact (hbounds u hu).2.2
  · intro u hu hkind
    obtain hu | hu := List.mem_append.mp hu
    · exact (hbounds u hu).2.1
    · obtain rfl := List.mem_singleton.mp hu
      exact absurd rfl hkind

/-- A source that ends inside a block comment or inside a string. -/
def EndsInside (t : Text) : Prop :=
  OpenBlock t ∨ ∃ s : String, t = Byte.quote :: lit s ∧ Byte.quote ∉ lit s

private theorem Stuck.isUnterminated_iff {t : Text} {fault : Fault} (h : Stuck t fault) :
    fault.isUnterminated = true ↔ EndsInside t := by
  cases h with
  | comment hopen => simp [Fault.isUnterminated, EndsInside, hopen]
  | lexeme hends hnone =>
    have hclosed : ¬ OpenBlock t := by
      rintro ⟨body, rfl, -⟩
      exact (hends _ _ rfl).2 (.inr ⟨body, rfl⟩)
    cases hnone with
    | @openString s hs => exact ⟨fun _ => .inr ⟨s, rfl, hs⟩, fun _ => rfl⟩
    | @strayByte body rest hbody hutf hrest =>
      refine ⟨nofun, ?_⟩
      rintro (hopen | ⟨s, hs, hquote⟩)
      · exact absurd hopen hclosed
      · have hs := (List.cons.inj hs).2
        obtain rfl | ⟨r, rfl⟩ := hrest
        · exact absurd ⟨s, by simpa using hs⟩ hutf
        · exact absurd (by rw [← hs]; simp) hquote
    | unexpected hq _ =>
      refine ⟨nofun, ?_⟩
      rintro (hopen | ⟨s, hs, -⟩)
      · exact absurd hopen hclosed
      · exact absurd (List.cons.inj hs).1 hq

/-- Exact lexing. The scanner succeeds with some tokens exactly when the source is gaps and longest
lexemes in turn with these tokens, whose spans are then in order, disjoint and not empty, and end
with the end of the source. Otherwise it reports a lexical error at the first string, comment or
character from which the decomposition cannot be continued, and tells whether the source ended
inside it. -/
theorem scan_exact (file source : Text) :
    (∀ tokens, scan file source = .ok tokens ↔ Spells file source tokens) ∧
      (∀ tokens, scan file source = .ok tokens →
        (tokens.Pairwise fun u v => u.span.stop.le v.span.start) ∧
        (∀ u ∈ tokens, u.kind ≠ .eof → ¬ u.span.stop.le u.span.start) ∧
        tokens.getLast? = some (eofAt file source)) ∧
      ((¬ ∃ tokens, Spells file source tokens) →
        ∃ f pre bad, scan file source = .error f ∧ f.diagnostic.code = .lex ∧
          source = pre ++ bad ∧ StopsAt file source pre f.fault ∧
          f.diagnostic.span = some f.span ∧ f.span.file = file ∧ f.span.start = .ofBefore pre ∧
          (f.fault.isUnterminated = true ↔ EndsInside bad)) := by
  refine ⟨fun tokens => scan_eq_ok_iff, fun tokens h => (scan_eq_ok_iff.mp h).ordered, ?_⟩
  intro hnone
  obtain hspells | ⟨pre, fault, hstops⟩ := spells_or_stopsAt file source
  · exact absurd hspells hnone
  · have hscan := hstops.scan_eq
    obtain ⟨ts, g, bad, hreads, hgap, hstuck, hsource⟩ := hstops
    exact ⟨_, pre, bad, hscan, rfl, hsource, ⟨ts, g, bad, hreads, hgap, hstuck, hsource⟩, rfl,
      rfl, rfl, hstuck.isUnterminated_iff⟩

end Token
end Lox
