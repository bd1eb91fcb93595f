import Lox.Proofs.Lexing
import Lox.Syntax.Layout

set_option autoImplicit false
set_option relaxedAutoImplicit false

namespace Lox

open Layout (hasComments)

namespace Token

/-! ### Gaps with their comments -/

inductive Skips (rest : Text) : Text → List Text → Prop
  | nil : Skips rest [] []
  | blank {b : UInt8} {g : Text} {cs : List Text} :
      isBlank b = true → Skips rest g cs → Skips rest (b :: g) cs
  | line {body g : Text} {cs : List Text} :
      Byte.lineFeed ∉ body → (g ++ rest = [] ∨ ∃ t, g ++ rest = Byte.lineFeed :: t) →
      Skips rest g cs →
      Skips rest (Byte.slash :: Byte.slash :: (body ++ g))
        ((Byte.slash :: Byte.slash :: body) :: cs)
  | block {body g : Text} {cs : List Text} :
      ¬ [Byte.star, Byte.slash] <:+: body ++ [Byte.star] → Skips rest g cs →
      Skips rest (Byte.slash :: Byte.star :: (body ++ Byte.star :: Byte.slash :: g))
        ((Byte.slash :: Byte.star :: (body ++ [Byte.star, Byte.slash])) :: cs)

private theorem isGap_iff_skips {rest g : Text} : IsGap rest g ↔ ∃ cs, Skips rest g cs := by
  constructor
  · intro h
    induction h with
    | nil => exact ⟨[], .nil⟩
    | blank hb _ ih => exact ih.imp fun _ h => .blank hb h
    | line hbody hend _ ih =>
      obtain ⟨cs, h⟩ := ih
      exact ⟨_, .line hbody hend h⟩
    | block hbody _ ih =>
      obtain ⟨cs, h⟩ := ih
      exact ⟨_, .block hbody h⟩
  · rintro ⟨cs, h⟩
    induction h with
    | nil => exact .nil
    | blank hb _ ih => exact .blank hb ih
    | line hbody hend _ ih => exact .line hbody hend ih
    | block hbody _ ih => exact .block hbody ih

/-- Reading a text to its end, with the comments of its gaps: gaps and longest lexemes in turn. -/
inductive ReadsPast (file : Text) : Text → Text → List Token → List Text → Prop
  | last {before g : Text} {cs : List Text} : Skips [] g cs → ReadsPast file before g [] cs
  | token {before g t rest : Text} {l : Lexeme} {ts : List Token} {cs ds : List Text} :
      Skips t g cs → EndsGap t → Cuts t l rest →
      ReadsPast file (before ++ g ++ l.bytes) rest ts ds →
      ReadsPast file before (g ++ t) (tokenAt file (before ++ g) l :: ts) (cs ++ ds)

/-- A source is a decomposition into tokens with these comments between them. -/
def SpellsPast (file source : Text) (tokens : List Token) (comments : List Text) : Prop :=
  ∃ ts, ReadsPast file [] source ts comments ∧ tokens = ts ++ [eofAt file source]

private theorem Reads.exists_readsPast {file before t g : Text} {ts : List Token}
    (h : Reads file before t ts g) (hlast : IsGap [] g) : ∃ cs, ReadsPast file before t ts cs := by
  induction h with
  | done =>
    obtain ⟨cs, hcs⟩ := isGap_iff_skips.1 hlast
    exact ⟨cs, .last hcs⟩
  | token hgap hends hcuts _ ih =>
    obtain ⟨cs, hcs⟩ := isGap_iff_skips.1 hgap
    obtain ⟨ds, hds⟩ := ih hlast
    exact ⟨cs ++ ds, .token hcs hends hcuts hds⟩

private theorem ReadsPast.exists_reads {file before t : Text} {ts : List Token} {cs : List Text}
    (h : ReadsPast file before t ts cs) : ∃ g, Reads file before t ts g ∧ IsGap [] g := by
  induction h with
  | last hcs => exact ⟨_, .done _ _, isGap_iff_skips.2 ⟨_, hcs⟩⟩
  | token hcs hends hcuts _ ih =>
    obtain ⟨g, hreads, hlast⟩ := ih
    exact ⟨g, .token (isGap_iff_skips.2 ⟨_, hcs⟩) hends hcuts hreads, hlast⟩

theorem scan_eq_ok_iff_spellsPast {file source : Text} {tokens : List Token} :
    scan file source = .ok tokens ↔ ∃ comments, SpellsPast file source tokens comments := by
  rw [scan_eq_ok_iff]
  constructor
  · rintro ⟨ts, g, hreads, hlast, rfl⟩
    obtain ⟨cs, hcs⟩ := hreads.exists_readsPast hlast
    exact ⟨cs, ts, hcs, rfl⟩
  · rintro ⟨cs, ts, hcs, rfl⟩
    obtain ⟨g, hreads, hlast⟩ := hcs.exists_reads
    exact ⟨ts, g, hreads, hlast, rfl⟩

end Token

/-! ### What the formatter passes over -/

namespace Layout

open Token

/-- Nothing in a text, as long as it is not read inside a string, looks like a comment. -/
def Quiet (t : Text) : Prop := ∀ rest, hasComments false (t ++ rest) = hasComments false rest

private theorem hasComments_cons {b : UInt8} {rest : Text} (hquote : b ≠ Byte.quote)
    (hcomment : b = Byte.slash →
      rest.head? ≠ some Byte.slash ∧ rest.head? ≠ some Byte.star) (inString : Bool) :
    hasComments inString (b :: rest) = hasComments inString rest := by
  rw [hasComments, if_neg hquote, if_neg]
  rintro h
  simp only [Bool.and_eq_true, decide_eq_true_eq, Bool.or_eq_true, beq_iff_eq] at h
  obtain ⟨⟨-, hslash⟩, hnext | hnext⟩ := h
  · exact (hcomment hslash).1 hnext
  · exact (hcomment hslash).2 hnext

private theorem hasComments_quote (inString : Bool) (rest : Text) :
    hasComments inString (Byte.quote :: rest) = hasComments (!inString) rest := by
  rw [hasComments, if_pos rfl]

private theorem hasComments_body {body : Text} (h : Byte.quote ∉ body) (rest : Text) :
    hasComments true (body ++ rest) = hasComments true rest := by
  induction body with
  | nil => rfl
  | cons b body ih =>
    rw [List.mem_cons, not_or] at h
    rw [List.cons_append, hasComments, if_neg (Ne.symm h.1)]
    exact ih h.2

private theorem hasComments_comment {b : UInt8} (h : b = Byte.slash ∨ b = Byte.star) (rest : Text) :
    hasComments false (Byte.slash :: b :: rest) = true := by
  rcases h with rfl | rfl <;> rfl

namespace Quiet

variable {t u : Text}

theorem nil : Quiet [] := fun _ => rfl

theorem append (ht : Quiet t) (hu : Quiet u) : Quiet (t ++ u) := by
  intro rest
  rw [List.append_assoc, ht, hu]

theorem of_plain (h : ∀ b ∈ t, b ≠ Byte.quote ∧ b ≠ Byte.slash) : Quiet t := by
  intro rest
  induction t with
  | nil => rfl
  | cons b t ih =>
    rw [List.forall_mem_cons] at h
    rw [List.cons_append, hasComments_cons h.1.1 fun hslash => absurd hslash h.1.2]
    exact ih h.2

theorem string (h : Byte.quote ∉ t) : Quiet (Byte.quote :: t ++ [Byte.quote]) := by
  intro rest
  rw [List.append_assoc, List.cons_append, hasComments_quote, Bool.not_false, hasComments_body h,
    List.singleton_append, hasComments_quote, Bool.not_true]

theorem hasComments_eq (h : Quiet t) : hasComments false t = false := by
  rw [← t.append_nil, h]
  rfl

end Quiet

end Layout

namespace Byte

private theorem plain_of_isNamePart {b : UInt8} (h : isNamePart b = true) :
    b ≠ quote ∧ b ≠ slash := by
  constructor <;>
  · rintro rfl
    exact absurd h (by decide)

private theorem plain_of_isDigit {b : UInt8} (h : isDigit b = true) : b ≠ quote ∧ b ≠ slash :=
  plain_of_isNamePart (by simp [isNamePart, h])

end Byte

namespace Token

open Layout

/-- A lexeme is passed over, unless it is a slash and looks like a comment with what follows it. -/
theorem IsLexeme.quiet {kind : Kind} {text x : Text} (h : IsLexeme kind text x)
    (hslash : x ≠ [Byte.slash]) : Quiet x := by
  obtain ⟨b, r, rfl, ⟨hb, -, -, hr⟩ | ⟨hb, -, -, hr⟩ | ⟨m, hm, -, hr⟩ | ⟨rfl, -, hquote, -, rfl⟩⟩ :=
    h.first_byte
  · refine .of_plain (List.forall_mem_cons.2 ⟨Byte.plain_of_isNamePart ?_, fun c hc => ?_⟩)
    · simp [Byte.isNamePart, hb]
    · exact Byte.plain_of_isNamePart (hr c hc)
  · exact .of_plain (List.forall_mem_cons.2 ⟨Byte.plain_of_isDigit hb,
      hr.forall_mem (fun _ => Byte.plain_of_isDigit) (by decide)⟩)
  · have hb : b ≠ Byte.slash := by
      rintro rfl
      obtain rfl : m = .slash := Option.some.inj (hm.symm.trans rfl)
      obtain ⟨-, rfl⟩ | ⟨longer, hlonger, -⟩ := hr
      · exact hslash rfl
      · cases hlonger
    have hr : ∀ c ∈ r, c ≠ Byte.quote ∧ c ≠ Byte.slash := by
      obtain ⟨-, rfl⟩ | ⟨-, -, -, rfl⟩ := hr
      · exact List.forall_mem_nil _
      · intro c hc
        obtain rfl := List.mem_singleton.1 hc
        decide
    exact .of_plain (List.forall_mem_cons.2 ⟨⟨(Mark.ofByte?_class hm).2.2, hb⟩, hr⟩)
  · exact .string hquote

private theorem Cuts.hasComments_eq {t rest : Text} {l : Lexeme}
    (h : Cuts t l rest) (hends : EndsGap t) :
    hasComments false t = hasComments false rest := by
  by_cases hslash : l.bytes = [Byte.slash]
  · have ht : t = Byte.slash :: rest := by
      rw [h.split, hslash]
      rfl
    rw [ht, hasComments_cons (by decide)]
    -- A slash or a star after it would have begun a comment, which is a gap.
    intro _
    constructor <;>
    · intro hnext
      obtain ⟨r, rfl⟩ := List.head?_eq_some_iff.1 hnext
      refine absurd ?_ (hends _ _ ht).2
      rw [ht]
      simp [OpensComment]
  · rw [h.split, h.lexeme.quiet hslash]

private theorem Skips.hasComments_eq {rest g : Text} {cs : List Text} (h : Skips rest g cs) :
    hasComments false (g ++ rest) = (!cs.isEmpty || hasComments false rest) := by
  induction h with
  | nil => rfl
  | @blank b g cs hb _ ih =>
    have hplain : b ≠ Byte.quote ∧ b ≠ Byte.slash := by
      constructor <;>
      · rintro rfl
        exact absurd hb (by decide)
    rw [List.cons_append, hasComments_cons hplain.1 fun hslash => absurd hslash hplain.2, ih]
  | line => exact hasComments_comment (.inl rfl) _
  | block => exact hasComments_comment (.inr rfl) _

/-- The formatter follows the scanner up to the first comment: between two lexemes it is outside of
strings, as the scanner is. -/
theorem ReadsPast.hasComments_eq {file before t : Text} {ts : List Token} {cs : List Text}
    (h : ReadsPast file before t ts cs) : hasComments false t = !cs.isEmpty := by
  induction h with
  | @last _ g cs hcs =>
    have hgap := hcs.hasComments_eq
    rw [List.append_nil] at hgap
    rw [hgap, hasComments, Bool.or_false]
  | @token _ g t rest l ts cs ds hcs hends hcuts _ ih =>
    rw [hcs.hasComments_eq, hcuts.hasComments_eq hends, ih]
    cases cs <;> simp

theorem SpellsPast.hasComments_iff {file source : Text} {tokens : List Token} {comments : List Text}
    (h : SpellsPast file source tokens comments) :
    hasComments false source = true ↔ comments ≠ [] := by
  obtain ⟨ts, hreads, -⟩ := h
  rw [hreads.hasComments_eq]
  simp

end Token
end Lox
